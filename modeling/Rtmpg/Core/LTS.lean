import Mathlib.Tactic.Common

/-!
# Labelled transition systems

`step s l` is `some` of the next state when the label `l` is enabled in `s`.
`Run ok s t`: from `s` to `t` by steps that satisfy `ok` in the state they
start from; a scheduler or an assumption on the environment is such an `ok`.
`exec` replays a list of labels and checks `ok` on the way.

Results:
* `Run.invariant`: what holds at the start and is kept by the steps a run may
  take holds at its end.
* `Reachable.invariant`: the same for every reachable state.
* `Run.reached`: from a reachable state on, with what is known of those.
* `run_of_exec`: a replay is a run.
* `Run.watched`: a history beside the state keeps no run from happening.
* `Run.forget`, `Run.beside`: a part of a history is one, and two make one.
* `Run.tally_le`: steps that a measure pays for are no more than it allows.
-/
namespace Rtmpg

structure LTS (σ ι : Type) where
  init : σ → Prop
  step : σ → ι → Option σ

namespace LTS

variable {σ ι : Type} (M : LTS σ ι)

inductive Run (ok : σ → ι → Prop) (s : σ) : σ → Prop
  | refl : Run ok s s
  | tail {t u : σ} (l : ι) : Run ok s t → ok t l → M.step t l = some u → Run ok s u

def Reachable (t : σ) : Prop := ∃ s, M.init s ∧ M.Run (fun _ _ => True) s t

def exec (ok : σ → ι → Prop) [∀ s l, Decidable (ok s l)] (s : σ) : List ι → Option σ
  | [] => some s
  | l :: ls => if ok s l then (M.step s l).bind fun t => exec ok t ls else none

variable {M} {ok : σ → ι → Prop}

theorem Run.trans {s t u : σ} (h : M.Run ok s t) (h' : M.Run ok t u) : M.Run ok s u := by
  induction h' with
  | refl => exact h
  | tail l _ hok hstep ih => exact .tail l ih hok hstep

theorem Run.invariant {I : σ → Prop} (hstep : ∀ s l t, ok s l → I s → M.step s l = some t → I t) {s t : σ}
    (h : M.Run ok s t) (hs : I s) : I t := by
  induction h with
  | refl => exact hs
  | tail l _ hok hst ih => exact hstep _ l _ hok ih hst

theorem Reachable.invariant {I : σ → Prop} (hinit : ∀ s, M.init s → I s)
    (hstep : ∀ s l t, I s → M.step s l = some t → I t) {t : σ} (h : M.Reachable t) : I t := by
  obtain ⟨s, hs, hr⟩ := h
  exact hr.invariant (fun s l t _ => hstep s l t) (hinit s hs)

theorem Reachable.tail {s t : σ} {l : ι} (h : M.Reachable s) (hstep : M.step s l = some t) : M.Reachable t := by
  obtain ⟨start, hinit, hrun⟩ := h
  exact ⟨start, hinit, .tail l hrun trivial hstep⟩

theorem Reachable.trans {s t : σ} (h : M.Reachable s) (hrun : M.Run (fun _ _ => True) s t) : M.Reachable t := by
  obtain ⟨start, hinit, hstart⟩ := h
  exact ⟨start, hinit, hstart.trans hrun⟩

/-- `Run.invariant`, with what is known of reachable states. -/
theorem Run.reached {I : σ → Prop}
    (hstep : ∀ s l t, ok s l → M.Reachable s → I s → M.step s l = some t → I t) {s t : σ} (h : M.Run ok s t)
    (hs : M.Reachable s) (hI : I s) : M.Reachable t ∧ I t := by
  refine h.invariant (I := fun u => M.Reachable u ∧ I u) (fun u l v hok hu hst => ?_) ⟨hs, hI⟩
  exact ⟨hu.1.tail hst, hstep u l v hok hu.1 hu.2 hst⟩

theorem run_of_exec [∀ s l, Decidable (ok s l)] (ls : List ι) :
    ∀ {s t : σ}, M.exec ok s ls = some t → M.Run ok s t := by
  induction ls with
  | nil =>
    intro s t h
    cases h
    exact .refl
  | cons l ls ih =>
    intro s t h
    unfold exec at h
    split at h
    · next hok =>
      obtain ⟨u, hst, hu⟩ := Option.bind_eq_some_iff.mp h
      exact (Run.tail l .refl hok hst).trans (ih hu)
    · cases h

theorem reachable_of_exec {s t : σ} (hs : M.init s) (ls : List ι)
    (h : M.exec (fun _ _ => True) s ls = some t) : M.Reachable t :=
  ⟨s, hs, run_of_exec ls h⟩

/-- `M` with a history: what `watch` makes of each step, from `a` on. -/
def watched {α : Type} (M : LTS σ ι) (watch : σ → ι → α → α) (a : α) : LTS (σ × α) ι where
  init p := M.init p.1 ∧ p.2 = a
  step p l := (M.step p.1 l).map fun t => (t, watch p.1 l p.2)

theorem Run.watched {α : Type} {watch : σ → ι → α → α} {a : α} {s t : σ} (h : M.Run ok s t) (b : α) :
    ∃ c, (M.watched watch a).Run (fun p => ok p.1) (s, b) (t, c) := by
  induction h with
  | refl => exact ⟨b, .refl⟩
  | tail l _ hok hstep ih =>
    obtain ⟨c, hrun⟩ := ih
    exact ⟨watch _ l c, .tail l hrun hok (congrArg (Option.map _) hstep)⟩

/-- Of a history that says more than another one the other one can be had. -/
theorem Run.forget {α β : Type} {f : σ → ι → α → α} {g : σ → ι → β → β} {a : α} {b : β} (π : α → β)
    {okf : σ × α → ι → Prop} {okg : σ × β → ι → Prop} (hok : ∀ p l, okf p l → okg (p.1, π p.2) l)
    (hπ : ∀ s l x, π (f s l x) = g s l (π x)) {p p' : σ × α} (h : (M.watched f a).Run okf p p') :
    (M.watched g b).Run okg (p.1, π p.2) (p'.1, π p'.2) := by
  induction h with
  | refl => exact .refl
  | @tail q _ l _ hq hstep ih =>
    obtain ⟨u, hu, rfl⟩ := Option.map_eq_some_iff.mp hstep
    refine .tail l ih (hok q l hq) ?_
    rw [hπ]
    exact congrArg (Option.map _) hu

/-- A second history beside the first. -/
theorem Run.beside {α β : Type} {f : σ → ι → α → α} {a : α} (g : σ → ι → β → β) (b : β)
    {okf : σ × α → ι → Prop} {okfg : σ × α × β → ι → Prop} (hok : ∀ p y l, okf p l → okfg (p.1, p.2, y) l)
    {p p' : σ × α} (h : (M.watched f a).Run okf p p') :
    ∃ y, (M.watched (fun s l x => (f s l x.1, g s l x.2)) (a, b)).Run okfg (p.1, p.2, b) (p'.1, p'.2, y) := by
  induction h with
  | refl => exact ⟨b, .refl⟩
  | @tail q _ l _ hq hstep ih =>
    obtain ⟨y, hrun⟩ := ih
    obtain ⟨u, hu, rfl⟩ := Option.map_eq_some_iff.mp hstep
    exact ⟨g q.1 l y, .tail l hrun (hok q y l hq) (congrArg (Option.map _) hu)⟩

/-- The history that counts the steps `counts` picks. -/
def tally (counts : σ → ι → Bool) (s : σ) (l : ι) (n : Nat) : Nat := if counts s l then n + 1 else n

theorem Run.tally_le {counts : σ → ι → Bool} {μ : σ → Nat} {I : σ → Prop} {a : Nat}
    (hstep : ∀ s l t, ok s l → I s → M.step s l = some t → I t ∧ tally counts s l (μ t) ≤ μ s)
    {s t : σ} {m n : Nat} (h : (M.watched (tally counts) a).Run (fun p => ok p.1) (s, m) (t, n)) (hs : I s) :
    n + μ t ≤ m + μ s := by
  refine (h.invariant (I := fun p => I p.1 ∧ p.2 + μ p.1 ≤ m + μ s) (fun p l q hok hp hq => ?_)
    ⟨hs, Nat.le_refl _⟩).2
  obtain ⟨u, hu, rfl⟩ := Option.map_eq_some_iff.mp hq
  obtain ⟨hIu, hpaid⟩ := hstep p.1 l u hok hp.1 hu
  refine ⟨hIu, ?_⟩
  have hle := hp.2
  dsimp only
  unfold tally at hpaid ⊢
  split <;> split at hpaid <;> omega

end LTS

end Rtmpg
