import Mathlib.Tactic.Common

/-!
# The last write wins

A sequence of writes to some registers. `val a` is what the write `a` puts
into one register, if it goes there; `lastOf val as` is what the last such
write among `as` puts there. `foldl_lastOf` is the rule for a state with
such a register; the others say what does not matter for it.
-/
namespace Rtmpg

variable {ω β σ : Type} {val : ω → Option β}

def lastOf (val : ω → Option β) (as : List ω) : Option β := (as.filterMap val).getLast?

@[simp] theorem lastOf_nil : lastOf val [] = none := rfl

theorem lastOf_append (as bs : List ω) : lastOf val (as ++ bs) = (lastOf val bs).or (lastOf val as) := by
  simp [lastOf, List.getLast?_append]

theorem lastOf_cons (a : ω) (as : List ω) : lastOf val (a :: as) = (lastOf val as).or (val a) := by
  rw [← List.singleton_append, lastOf_append]
  cases hv : val a <;> simp [lastOf, hv]

theorem foldl_lastOf (get : σ → β) {step : σ → ω → σ} (h : ∀ s a, get (step s a) = (val a).getD (get s)) :
    ∀ (as : List ω) (s : σ), get (as.foldl step s) = (lastOf val as).getD (get s) := by
  intro as
  induction as with
  | nil => intro s; rfl
  | cons a as ih =>
    intro s
    rw [List.foldl_cons, ih, h, lastOf_cons]
    cases lastOf val as <;> simp

theorem lastOf_map {γ : Type} (g : β → γ) (as : List ω) :
    lastOf (fun a => (val a).map g) as = (lastOf val as).map g := by
  simp [lastOf, ← List.map_filterMap]

theorem lastOf_none {as : List ω} : lastOf val as = none ↔ ∀ a ∈ as, val a = none := by
  rw [lastOf, List.getLast?_eq_none_iff, List.filterMap_eq_nil_iff]

theorem lastOf_mem {as : List ω} {b : β} (h : lastOf val as = some b) : ∃ a ∈ as, val a = some b :=
  List.mem_filterMap.mp (List.mem_of_getLast? h)

/-- A write to another register. -/
theorem lastOf_insert {a : ω} (h : val a = none) (as bs : List ω) :
    lastOf val (as ++ a :: bs) = lastOf val (as ++ bs) := by
  simp [lastOf_append, lastOf_cons, h]

/-- Two writes next to each other, to different registers. -/
theorem lastOf_swap {a b : ω} (h : val a = none ∨ val b = none) (as bs : List ω) :
    lastOf val (as ++ a :: b :: bs) = lastOf val (as ++ b :: a :: bs) := by
  rcases h with h | h <;> simp [lastOf_append, lastOf_cons, h]

end Rtmpg
