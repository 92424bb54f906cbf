import Mathlib.Data.Nat.Find
import Mathlib.Order.WellFounded
import Rtmpg.Core.LTS

/-!
# What has to happen

A `Path` is a run without an end. `Fair l`: a label that stays enabled is
taken some time (weak fairness). `Often l`: the label is taken without end.

Results:
* `Path.invariant`: what steps keep holds along the path.
* `Path.replayed`: a replay goes before a path and leaves it as fair as it was.
* `climbs`: what goes up again and again comes as high as it may.
* `Path.eventually`: a rank that only the label `l` lowers and that nothing
  else changes, and `l` enabled for good once it has not been taken for long
  enough: then the goal is reached, from every point of the path.
-/
namespace Rtmpg.LTS

variable {σ ι α : Type} {M : LTS σ ι}

theorem climbs {f : Nat → Nat} {n : Nat} (i : Nat) (h : ∀ j ≥ i, f j < n → ∃ k ≥ j, f j < f k) :
    ∃ j ≥ i, n ≤ f j := by
  suffices hall : ∀ m, ∀ j ≥ i, n - f j = m → ∃ k ≥ i, n ≤ f k from hall _ i (Nat.le_refl i) rfl
  intro m
  induction m using Nat.strongRecOn with
  | _ m ih =>
    intro j hj hm
    by_cases hlt : f j < n
    · obtain ⟨k, hk, hfk⟩ := h j hj hlt
      exact ih (n - f k) (by omega) k (hj.trans hk) rfl
    · exact ⟨j, hj, Nat.le_of_not_lt hlt⟩

structure Path (M : LTS σ ι) where
  state : Nat → σ
  label : Nat → ι
  step : ∀ i, M.step (state i) (label i) = some (state (i + 1))

namespace Path

variable (p : M.Path)

/-- Once it stays enabled it is taken. -/
def Fair (l : ι) : Prop := ∀ i, (∀ j ≥ i, M.step (p.state j) l ≠ none) → ∃ j ≥ i, p.label j = l

def Often (l : ι) : Prop := ∀ i, ∃ j ≥ i, p.label j = l

theorem invariant {I : σ → Prop} (hstep : ∀ s l t, I s → M.step s l = some t → I t) {i : Nat}
    (h : I (p.state i)) : ∀ j ≥ i, I (p.state j) := by
  intro j hj
  induction j, hj using Nat.le_induction with
  | base => exact h
  | succ j _ ih => exact hstep _ _ _ ih (p.step j)

theorem reachable (h : M.Reachable (p.state 0)) (i : Nat) : M.Reachable (p.state i) := by
  induction i with
  | zero => exact h
  | succ i ih =>
    obtain ⟨s, hs, hr⟩ := ih
    exact ⟨s, hs, .tail (p.label i) hr trivial (p.step i)⟩

/-- The path behind one more step. -/
def cons (s : σ) (l : ι) (h : M.step s l = some (p.state 0)) : M.Path where
  state i := i.casesOn s p.state
  label i := i.casesOn l p.label
  step i := by
    cases i with
    | zero => exact h
    | succ i => exact p.step i

variable {p}

theorem Fair.cons {k : ι} (hp : p.Fair k) {s : σ} {l : ι} (h : M.step s l = some (p.state 0)) :
    (p.cons s l h).Fair k := by
  intro i hen
  obtain ⟨j, hj, hl⟩ := hp i fun j hj => hen (j + 1) (Nat.le_succ_of_le hj)
  exact ⟨j + 1, Nat.le_succ_of_le hj, hl⟩

theorem Often.cons {k : ι} (hp : p.Often k) {s : σ} {l : ι} (h : M.step s l = some (p.state 0)) :
    (p.cons s l h).Often k := by
  intro i
  obtain ⟨j, hj, hl⟩ := hp i
  exact ⟨j + 1, Nat.le_succ_of_le hj, hl⟩

theorem replayed (ls : List ι) : ∀ {s : σ}, M.exec (fun _ _ => True) s ls = some (p.state 0) →
    ∃ q : M.Path, q.state 0 = s ∧ (∀ i, q.state (ls.length + i) = p.state i) ∧ (∀ l, p.Fair l → q.Fair l) ∧
      ∀ l, p.Often l → q.Often l := by
  induction ls with
  | nil =>
    intro s h
    cases h
    exact ⟨p, rfl, fun i => congrArg p.state (Nat.zero_add i), fun _ => id, fun _ => id⟩
  | cons l ls ih =>
    intro s h
    unfold exec at h
    rw [if_pos trivial] at h
    obtain ⟨u, hstep, hu⟩ := Option.bind_eq_some_iff.mp h
    obtain ⟨q, hq, hlater, hfair, hoften⟩ := ih hu
    refine ⟨q.cons s l (hq.symm ▸ hstep), rfl, fun i => ?_, fun k hk => (hfair k hk).cons _,
      fun k hk => (hoften k hk).cons _⟩
    rw [List.length_cons, Nat.add_right_comm]
    exact hlater i

/-- What holds at `i` and is kept by steps of other labels than `l` holds up to the next `l`. -/
theorem until_label {l : ι} {P : Nat → Prop} {i j : Nat} (hij : i ≤ j) (h : P i)
    (hnot : ∀ k, i ≤ k → k < j → p.label k ≠ l) (hstep : ∀ k ≥ i, P k → p.label k ≠ l → P (k + 1)) : P j := by
  induction j, hij using Nat.le_induction with
  | base => exact h
  | succ j hj ih =>
    have hP := ih fun k hk hlt => hnot k hk (Nat.lt_succ_of_lt hlt)
    exact hstep j hj hP (hnot j hj (Nat.lt_succ_self j))

theorem eventually {l : ι} (hfair : p.Fair l) {r : α → α → Prop} (hwf : WellFounded r) (μ : σ → α)
    (goal : σ → Prop) (i : Nat)
    (htaken : ∀ j ≥ i, ¬ goal (p.state j) → p.label j = l →
      goal (p.state (j + 1)) ∨ r (μ (p.state (j + 1))) (μ (p.state j)))
    (hother : ∀ j ≥ i, ¬ goal (p.state j) → p.label j ≠ l →
      goal (p.state (j + 1)) ∨ μ (p.state (j + 1)) = μ (p.state j))
    (henabled : ∀ j ≥ i, (∀ k ≥ j, ¬ goal (p.state k) ∧ p.label k ≠ l) →
      ∃ k ≥ j, ∀ n ≥ k, M.step (p.state n) l ≠ none) : ∃ j ≥ i, goal (p.state j) := by
  by_contra hex
  have hnever : ∀ j ≥ i, ¬ goal (p.state j) := fun j hj hg => hex ⟨j, hj, hg⟩
  suffices hall : ∀ a, ∀ j ≥ i, μ (p.state j) = a → False from hall _ i (Nat.le_refl i) rfl
  intro a
  induction a using hwf.induction with
  | _ a ih =>
    intro j hj ha
    obtain ⟨k, hk, hlk⟩ : ∃ k ≥ j, p.label k = l := by
      by_contra hno
      obtain ⟨m, hm, hen⟩ := henabled j hj fun k hk => ⟨hnever k (hj.trans hk), fun hl => hno ⟨k, hk, hl⟩⟩
      obtain ⟨k, hk, hl⟩ := hfair m hen
      exact hno ⟨k, hm.trans hk, hl⟩
    -- the first time it is taken, with the rank still the same
    classical
    have hfirst : ∃ k, j ≤ k ∧ p.label k = l := ⟨k, hk, hlk⟩
    obtain ⟨hjf, hlf⟩ := Nat.find_spec hfirst
    have hbefore : ∀ m, j ≤ m → m < Nat.find hfirst → p.label m ≠ l := fun m hm hlt hl =>
      Nat.find_min hfirst hlt ⟨hm, hl⟩
    have hsame : μ (p.state (Nat.find hfirst)) = a := by
      refine until_label (P := fun m => μ (p.state m) = a) hjf ha hbefore fun m hm hP hl => ?_
      exact ((hother m (hj.trans hm) (hnever m (hj.trans hm)) hl).resolve_left
        (hnever _ (hj.trans (hm.trans (Nat.le_succ m))))).trans hP
    have hlower := (htaken _ (hj.trans hjf) (hnever _ (hj.trans hjf)) hlf).resolve_left
      (hnever _ (hj.trans (hjf.trans (Nat.le_succ _))))
    rw [hsame] at hlower
    exact ih _ hlower _ (hj.trans (hjf.trans (Nat.le_succ _))) rfl

end Path

end Rtmpg.LTS
