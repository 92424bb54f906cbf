import Mathlib.Tactic.Linarith

/-!
# Sleeping until a deadline

A party that works, sets itself a deadline and sleeps until the clock has
reached it. The deadline is ahead of the clock by what it means to sleep, which
may fall short of a nominal time: `cut * nominal ≤ full * ahead + loss`. The
clock goes on as it likes, and the party may wake late.

* `Keeps.move`: what was slept in all is never more than the clock reads, once
  the party is awake.
* `Keeps.nominal_le`: so the nominal times add up to no more than the clock
  allows, up to the cut and the losses.
-/
namespace Rtmpg

/-- Where the party is. -/
inductive Rest where
  | awake
  | until (deadline : Int)
  | left
  deriving DecidableEq, Repr

/-- `nominal` and `slept` are sums over the `count` deadlines so far. -/
structure Sleeper where
  now : Nat
  rest : Rest
  nominal : Int
  slept : Int
  count : Nat
  deriving DecidableEq, Repr

namespace Sleeper

variable {cut full loss : Nat}

inductive Move (cut full loss : Nat) (v : Sleeper) : Sleeper → Prop
  | tick : Move cut full loss v { v with now := v.now + 1 }
  | sleep (nominal ahead : Int) : v.rest = .awake → cut * nominal ≤ full * ahead + loss →
      Move cut full loss v
        ⟨v.now, .until (v.now + ahead), v.nominal + nominal, v.slept + ahead, v.count + 1⟩
  | wake (deadline : Int) : v.rest = .until deadline → deadline ≤ v.now →
      Move cut full loss v { v with rest := .awake }
  | leave : Move cut full loss v { v with rest := .left }

def Moves (cut full loss : Nat) (v w : Sleeper) : Prop := w = v ∨ v.Move cut full loss w

structure Keeps (cut full loss : Nat) (v : Sleeper) : Prop where
  awake : v.rest = .awake → v.slept ≤ v.now
  asleep : ∀ deadline, v.rest = .until deadline → v.slept ≤ deadline
  nominal : cut * v.nominal ≤ full * v.slept + loss * v.count

theorem keeps_start (now : Nat) : Keeps cut full loss ⟨now, .awake, 0, 0, 0⟩ := by
  refine ⟨fun _ => Int.natCast_nonneg now, nofun, ?_⟩
  simp

theorem Keeps.move {v w : Sleeper} (hv : Keeps cut full loss v) (h : v.Move cut full loss w) :
    Keeps cut full loss w := by
  obtain ⟨hawake, hasleep, hnominal⟩ := hv
  cases h with
  | tick =>
    refine ⟨fun hr => ?_, hasleep, hnominal⟩
    have hle := hawake hr
    push_cast
    omega
  | sleep nominal ahead hr hcut =>
    refine ⟨nofun, fun deadline hd => ?_, ?_⟩
    · cases hd
      have hle := hawake hr
      dsimp only
      omega
    · push_cast
      linarith
  | wake deadline hr hle =>
    refine ⟨fun _ => ?_, nofun, hnominal⟩
    exact (hasleep deadline hr).trans hle
  | leave => exact ⟨nofun, nofun, hnominal⟩

theorem Keeps.moves {v w : Sleeper} (hv : Keeps cut full loss v) (h : Moves cut full loss v w) :
    Keeps cut full loss w := by
  rcases h with rfl | h
  · exact hv
  · exact hv.move h

theorem Keeps.nominal_le {v : Sleeper} (hv : Keeps cut full loss v) (hr : v.rest = .awake) :
    cut * v.nominal ≤ full * v.now + loss * v.count := by
  have hle : (full : Int) * v.slept ≤ full * v.now :=
    mul_le_mul_of_nonneg_left (hv.awake hr) (Int.natCast_nonneg full)
  exact hv.nominal.trans (Int.add_le_add_right hle _)

end Sleeper

end Rtmpg
