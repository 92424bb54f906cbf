import Mathlib.Tactic.Linarith
import Mathlib.Tactic.Positivity
import Mathlib.Tactic.NormNum
import Mathlib.Algebra.Order.Field.Rat
import Rtmpg.L4Session.Init
import Rtmpg.L5Call.Model

/-!
# The divisions of the rate control

`UpdatePredictedFps` divides by the number of frames since the last second
was over, a `uint8_t`; `agora_send_video`, the High handler and
`WaitForBuffering` divide by `predictedFps`, `doSendLowVideo` by `dfps`
(`libagorac/agorac.cpp:273-280,337-398`, `helpers/utilities.cpp:85-97`).

`VideoCall` is one call of `agora_send_video`, with its three readings of the
clock, which need not agree nor even grow: the test in `UpdatePredictedFps`, the
test behind it, and the new `lastFpsPrintTime`. With one reading for all of
them it is `finishVideo`. The ghosts of `Rated` are the number of frames in the
current window, which does not wrap, and whether a division by zero has
happened. Arithmetic is exact.

* `send_keeps`: the bounds of `predictedFps`, and `fps` as the number of
  frames modulo 256.
* `rate_never_divides_by_zero`: every run, and the argument `dfps`.
* `rate_divides_by_zero`: 256 frames in a second, and `dfps=0`.
-/
namespace Rtmpg.Agorac

open Rtmpg.CStr Rtmpg.Args Rtmpg.Init

variable {F : Type}

structure VideoCall where
  timestamp : Int
  update : Nat
  test : Nat
  print : Nat
  deriving DecidableEq, Repr

/-- The rest of `agora_send_video`, behind the `add`.
mirrors libagorac/agorac.cpp:337-398 -/
def finishVideoAt (fl : Floats F) (s : Call F) (v : VideoCall) : Call F :=
  let s := { updatePredictedFps fl { s with now := v.update } v.timestamp with producing := none }
  if 1000 ≤ (v.test : Int) - s.lastFpsPrintTime then
    { s with highVideoFrameCount := 0, lowVideoFrameCount := 0, lastFpsPrintTime := v.print, fps := 0 }
  else s

theorem finishVideo_at (fl : Floats F) (s : Call F) (timestamp : Int) :
    finishVideo fl s timestamp = finishVideoAt fl s ⟨timestamp, s.now, s.now, s.now⟩ := by
  unfold finishVideo finishVideoAt updatePredictedFps
  dsimp only
  split <;> rfl

/-- The test in `UpdatePredictedFps`: `averageTimeStamp` is computed. -/
def averages (s : Call F) (v : VideoCall) : Bool := decide (1000 ≤ (v.update : Int) - s.lastFpsPrintTime)

/-- `ctx->fps` in that computation. -/
def divisor (s : Call F) : Nat := (s.fps + 1) % 256

structure Rated where
  call : Call Rat
  -- ghosts
  frames : Nat
  zeroDivision : Bool

def rateSystem (cfg : Config) : LTS Rated VideoCall where
  init s := s = ⟨init rationals cfg, 0, false⟩
  step s v := some {
    call := finishVideoAt rationals s.call v
    frames := if 1000 ≤ (v.test : Int) - s.call.lastFpsPrintTime then 0 else s.frames + 1
    zeroDivision := s.zeroDivision || (averages s.call v && decide (divisor s.call = 0)) }

/-! ## One call -/

structure InRange (s : Rated) : Prop where
  fps : s.call.fps = s.frames % 256
  pos : 0 < s.call.predictedFps
  le : s.call.predictedFps ≤ 255

theorem updatePredictedFps_range {s : Call Rat} (timestamp : Int) (hpos : 0 < s.predictedFps)
    (hle : s.predictedFps ≤ 255) :
    0 < (updatePredictedFps rationals s timestamp).predictedFps ∧
      (updatePredictedFps rationals s timestamp).predictedFps ≤ 255 := by
  unfold updatePredictedFps
  dsimp only
  generalize (if s.lastFrameTimestamp ≠ 0 then _ else _ : Int) = perSecond
  split
  · split
    · next hlt =>
      have hlarge : (1000 : Rat) / 255 < (perSecond : Rat) / ((s.fps + 1) % 256 : Nat) := of_decide_eq_true hlt
      have hzero : (0 : Rat) < (perSecond : Rat) / ((s.fps + 1) % 256 : Nat) := lt_trans (by norm_num) hlarge
      refine ⟨div_pos (show (0 : Rat) < 1000 by norm_num) hzero, ?_⟩
      show (1000 : Rat) / ((perSecond : Rat) / ((s.fps + 1) % 256 : Nat)) ≤ 255
      rw [div_le_iff₀ hzero]
      rw [div_lt_iff₀ (by norm_num)] at hlarge
      linarith
    · exact ⟨hpos, hle⟩
  · exact ⟨hpos, hle⟩

theorem updatePredictedFps_keeps (s : Call Rat) (timestamp : Int) :
    (updatePredictedFps rationals s timestamp).fps = (s.fps + 1) % 256 ∧
      (updatePredictedFps rationals s timestamp).lastFpsPrintTime = s.lastFpsPrintTime := by
  unfold updatePredictedFps
  dsimp only
  split <;> exact ⟨rfl, rfl⟩

theorem send_keeps {cfg : Config} {s t : Rated} {v : VideoCall} (hs : InRange s)
    (h : (rateSystem cfg).step s v = some t) : InRange t := by
  cases h
  obtain ⟨hpos, hle⟩ := updatePredictedFps_range (s := { s.call with now := v.update }) v.timestamp hs.pos hs.le
  obtain ⟨hfps, hprint⟩ := updatePredictedFps_keeps { s.call with now := v.update } v.timestamp
  have hcount : (s.call.fps + 1) % 256 = (s.frames + 1) % 256 := by rw [hs.fps, Nat.mod_add_mod]
  unfold finishVideoAt
  dsimp only
  rw [hprint]
  split
  · exact ⟨rfl, hpos, hle⟩
  · exact ⟨hfps.trans hcount, hpos, hle⟩

/-! ## Every run -/

/-- When the average is computed, the number of frames in the window is not a multiple of 256. -/
def Windowed (s : Rated) (v : VideoCall) : Prop := averages s.call v = true → (s.frames + 1) % 256 ≠ 0

theorem divisor_frames {s : Rated} (hs : InRange s) : divisor s.call = (s.frames + 1) % 256 := by
  rw [divisor, hs.fps, Nat.mod_add_mod]

/-- The argument, if it is given, is not a multiple of 65536. -/
def DfpsGiven (args : Bytes) : Prop := ∀ v, getArgValue args ArgKey.dfps.text = some v → ¬ (65536 : Int) ∣ atoi v

theorem dualFps_ne_zero (args : Bytes) : dualFps args ≠ 0 ↔ DfpsGiven args := by
  unfold dualFps DfpsGiven
  cases getArgValue args ArgKey.dfps.text with
  | none => exact iff_of_true (by decide) fun v h => by cases h
  | some v =>
    simp only [Option.some.injEq, forall_eq']
    omega

/-- As long as no window is averaged over a multiple of 256 frames nothing is divided by zero and
`predictedFps` is in its range; the first such window divides by zero. `dfps` is zero exactly
when a multiple of 65536 is given for it. -/
theorem rate_never_divides_by_zero (args : Bytes) (cfg : Config) (s₀ : Rated) (h₀ : (rateSystem cfg).init s₀) :
    (∀ s, (rateSystem cfg).Run Windowed s₀ s →
      s.zeroDivision = false ∧ 0 < s.call.predictedFps ∧ s.call.predictedFps ≤ 255) ∧
      (∀ s v t, (rateSystem cfg).Run Windowed s₀ s → ¬ Windowed s v → (rateSystem cfg).step s v = some t →
        t.zeroDivision = true) ∧
      (dualFps args ≠ 0 ↔ DfpsGiven args) := by
  have hrun : ∀ s, (rateSystem cfg).Run Windowed s₀ s → InRange s ∧ s.zeroDivision = false := by
    intro s hr
    refine hr.invariant (I := fun s => InRange s ∧ s.zeroDivision = false) (fun s v t hok hs hstep => ?_) ?_
    · refine ⟨send_keeps hs.1 hstep, ?_⟩
      cases hstep
      show (s.zeroDivision || (averages s.call v && decide (divisor s.call = 0))) = false
      rw [hs.2, Bool.false_or, divisor_frames hs.1]
      cases ha : averages s.call v with
      | false => rfl
      | true => exact decide_eq_false (hok ha)
    · rw [show s₀ = ⟨init rationals cfg, 0, false⟩ from h₀]
      exact ⟨⟨rfl, show (0 : Rat) < 30 by norm_num, show (30 : Rat) ≤ 255 by norm_num⟩, rfl⟩
  refine ⟨fun s hr => ?_, fun s v t hr hno hstep => ?_, dualFps_ne_zero args⟩
  · obtain ⟨hs, hz⟩ := hrun s hr
    exact ⟨hz, hs.pos, hs.le⟩
  · obtain ⟨hs, -⟩ := hrun s hr
    cases hstep
    obtain ⟨ha, hzero⟩ := not_forall.mp hno
    show (s.zeroDivision || (averages s.call v && decide (divisor s.call = 0))) = true
    rw [ha, divisor_frames hs, decide_eq_true (not_not.mp hzero), Bool.and_true, Bool.or_true]

def singleStream : Config := ⟨false, 120, 8000, 15, 15, 0⟩

theorem rate_never_divides_by_zero_default :
    (∀ s, (rateSystem singleStream).Run Windowed ⟨init rationals singleStream, 0, false⟩ s →
      s.zeroDivision = false ∧ 0 < s.call.predictedFps ∧ s.call.predictedFps ≤ 255) ∧
      (∀ s v t, (rateSystem singleStream).Run Windowed ⟨init rationals singleStream, 0, false⟩ s →
        ¬ Windowed s v → (rateSystem singleStream).step s v = some t → t.zeroDivision = true) ∧
      (dualFps (ascii "appid=a&channel=c&dfps=25") ≠ 0 ↔ DfpsGiven (ascii "appid=a&channel=c&dfps=25")) :=
  rate_never_divides_by_zero (ascii "appid=a&channel=c&dfps=25") singleStream
    ⟨init rationals singleStream, 0, false⟩ rfl

/-- 256 frames within the second, and with them the second is over. -/
def burst : List VideoCall := List.replicate 255 ⟨0, 0, 0, 0⟩ ++ [⟨0, 1000, 1000, 1000⟩]

/-- The 8-bit `fps` is back at zero when the average is computed, and `dfps=0` is taken as it is. -/
theorem rate_divides_by_zero :
    (∃ s, (rateSystem singleStream).Reachable s ∧ s.zeroDivision = true) ∧
      parseOptions (ascii "appid=a&channel=c&dfps=0") = some ⟨50000, false, false⟩ ∧
      dualFps (ascii "appid=a&channel=c&dfps=0") = 0 := by
  refine ⟨?_, by decide, by decide⟩
  have hrun : ((rateSystem singleStream).exec (fun _ _ => True) ⟨init rationals singleStream, 0, false⟩ burst).map
      (·.zeroDivision) = some true := by decide +kernel
  obtain ⟨s, hs, hz⟩ := Option.map_eq_some_iff.mp hrun
  exact ⟨s, LTS.reachable_of_exec rfl burst hs, hz⟩

end Rtmpg.Agorac
