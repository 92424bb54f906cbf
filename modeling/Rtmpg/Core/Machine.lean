import Mathlib.Tactic.Common

/-!
# Machines that answer requests

`step s i` is the answer to the request `i` in the state `s` and the state
behind it; `none` is a machine that has broken down. `run` answers the
requests of a list one after the other.

`M.Refines N R`: from related states `M` gives every answer that `N` gives,
and the states stay related.

* `run_total`: no request breaks it down, then no list of them does.
* `Refines.run`: the same for every list of requests.
* `Refines.trans`: refinements compose.
-/
namespace Rtmpg

structure Machine (σ ι ο : Type) where
  step : σ → ι → Option (ο × σ)

namespace Machine

variable {σ τ υ ι ο : Type}

def run (M : Machine σ ι ο) (s : σ) : List ι → Option (List ο × σ)
  | [] => some ([], s)
  | i :: is => (M.step s i).bind fun (o, t) => (run M t is).map fun (os, u) => (o :: os, u)

theorem run_cons {M : Machine σ ι ο} {s t : σ} {i : ι} {o : ο} (h : M.step s i = some (o, t)) (is : List ι) :
    M.run s (i :: is) = (M.run t is).map fun (os, u) => (o :: os, u) := by
  rw [run, h, Option.bind_some]

/-- A machine that answers every request answers every list of them. -/
theorem run_total {M : Machine σ ι ο} (h : ∀ s i, ∃ o t, M.step s i = some (o, t)) (s : σ) (is : List ι) :
    ∃ os t, M.run s is = some (os, t) := by
  induction is generalizing s with
  | nil => exact ⟨[], s, rfl⟩
  | cons i is ih =>
    obtain ⟨o, t, hstep⟩ := h s i
    obtain ⟨os, u, hrun⟩ := ih t
    refine ⟨o :: os, u, ?_⟩
    rw [run_cons hstep, hrun]
    rfl

def Refines (M : Machine σ ι ο) (N : Machine τ ι ο) (R : σ → τ → Prop) : Prop :=
  ∀ s t, R s t → ∀ i o t', N.step t i = some (o, t') → ∃ s', M.step s i = some (o, s') ∧ R s' t'

variable {M : Machine σ ι ο} {N : Machine τ ι ο} {P : Machine υ ι ο} {R : σ → τ → Prop} {Q : τ → υ → Prop}

theorem Refines.run (h : M.Refines N R) (is : List ι) :
    ∀ {s : σ} {t t' : τ} {os : List ο}, R s t → N.run t is = some (os, t') →
      ∃ s', M.run s is = some (os, s') ∧ R s' t' := by
  induction is with
  | nil =>
    intro s t t' os hr hrun
    cases hrun
    exact ⟨s, rfl, hr⟩
  | cons i is ih =>
    intro s t t' os hr hrun
    unfold Machine.run at hrun
    obtain ⟨⟨o, u⟩, hstep, hrun⟩ := Option.bind_eq_some_iff.mp hrun
    obtain ⟨⟨os, u'⟩, hrest, heq⟩ := Option.map_eq_some_iff.mp hrun
    cases heq
    obtain ⟨s', hstep', hr'⟩ := h s t hr i o u hstep
    obtain ⟨s'', hrest', hr''⟩ := ih hr' hrest
    refine ⟨s'', ?_, hr''⟩
    rw [run_cons hstep', hrest']
    rfl

theorem Refines.trans (h : M.Refines N R) (h' : N.Refines P Q) :
    M.Refines P fun s u => ∃ t, R s t ∧ Q t u := by
  intro s u hsu i o u' hstep
  obtain ⟨t, hst, htu⟩ := hsu
  obtain ⟨t', hstep', hq⟩ := h' t u htu i o u' hstep
  obtain ⟨s', hstep'', hr⟩ := h s t hst i o t' hstep'
  exact ⟨s', hstep'', t', hr, hq⟩

end Machine

end Rtmpg
