import Rtmpg.L5Call.JitterBuffer
import Rtmpg.L5Call.RateControl

/-!
# The window of the fps prediction

`UpdatePredictedFps` and the rest of `agora_send_video`
(`libagorac/agorac.cpp:337-398`) on the fields of the context they use. The
number of frames and the sum of their timestamp gaps are started over in two
functions, each behind its own reading of the clock against the same 1000 ms.
Readings are in nanoseconds and never go back; the clock may advance between
any two of them.

`Windowed` remembers behind which call each of the two was last started over
(`Mark`: its number and its timestamp). A window is closed when `fps` is.

* `fpsOf_finishVideo`: this is what the producer of `Rtmpg.L5Call.Model` does.
* `inv_step`: one call whose tests agree.
* `fps_one_window`: every run, and what a call that breaks the condition does.
* `fps_two_windows`: the clock passes the mark between the two readings, and
  the next average is that of two windows over the frames of one.
-/
namespace Rtmpg.FpsWindow

open Rtmpg.Agorac Rtmpg.JitterBuffer

variable {F : Type}

/-- mirrors libagorac/helpers/context.h:44-57 -/
structure Rate (F : Type) where
  fps : Nat
  predictedFps : F
  lastFpsPrintTime : Nat
  lastFrameTimestamp : Int
  timestampPerSecond : Int
  deriving DecidableEq, Repr

/-- The frame is counted.
mirrors libagorac/agorac.cpp:340-348 -/
def countFrame (s : Rate F) (timestamp : Int) : Rate F :=
  { s with
    fps := (s.fps + 1) % 256
    timestampPerSecond :=
      if s.lastFrameTimestamp ≠ 0 then s.timestampPerSecond + (timestamp - s.lastFrameTimestamp)
      else s.timestampPerSecond
    lastFrameTimestamp := timestamp }

def averageTimeStamp (fl : Floats F) (s : Rate F) : F := fl.div (fl.ofInt s.timestampPerSecond) (fl.ofInt s.fps)

/-- `GetTimeDiff(ctx->lastFpsPrintTime, Now())>=1000` -/
def secondOver (s : Rate F) (now : Nat) : Bool := decide (1000 ≤ getTimeDiff s.lastFpsPrintTime now)

/-- mirrors libagorac/agorac.cpp:337-360 -/
def updatePredictedFps (fl : Floats F) (s : Rate F) (timestamp : Int) (now : Nat) : Rate F :=
  let s := countFrame s timestamp
  if secondOver s now then
    { s with
      predictedFps := if fl.lt (fl.div (fl.ofInt 1000) (fl.ofInt 255)) (averageTimeStamp fl s) then
        fl.div (fl.ofInt 1000) (averageTimeStamp fl s) else s.predictedFps
      timestampPerSecond := 0 }
  else s

/-- mirrors libagorac/agorac.cpp:362-398 -/
def agoraSendVideo (fl : Floats F) (s : Rate F) (v : VideoCall) : Rate F :=
  let s := updatePredictedFps fl s v.timestamp v.update
  if secondOver s v.test then { s with lastFpsPrintTime := v.print, fps := 0 } else s

/-! ## With its history -/

structure Mark where
  number : Nat
  timestamp : Int
  deriving DecidableEq, Repr

structure Windowed (F : Type) where
  rate : Rate F
  clock : Nat
  -- ghosts
  calls : Nat
  fpsReset : Option Mark
  sumReset : Option Mark
  deriving DecidableEq, Repr

/-- `averageTimeStamp` is computed. -/
def Averages (s : Windowed F) (v : VideoCall) : Prop := secondOver s.rate v.update = true

/-- The test in `agora_send_video`. -/
def Closes (s : Windowed F) (v : VideoCall) : Prop := secondOver s.rate v.test = true

instance (s : Windowed F) (v : VideoCall) : Decidable (Averages s v) := inferInstanceAs (Decidable (_ = true))
instance (s : Windowed F) (v : VideoCall) : Decidable (Closes s v) := inferInstanceAs (Decidable (_ = true))

def send (fl : Floats F) (s : Windowed F) (v : VideoCall) : Windowed F where
  rate := agoraSendVideo fl s.rate v
  clock := if Closes s v then v.print else v.test
  calls := s.calls + 1
  fpsReset := if Closes s v then some ⟨s.calls + 1, v.timestamp⟩ else s.fpsReset
  sumReset := if Averages s v then some ⟨s.calls + 1, v.timestamp⟩ else s.sumReset

/-- The timestamps are positive and do not decrease, and neither does the clock. -/
def windowSystem (fl : Floats F) : LTS (Windowed F) VideoCall where
  init s := s.rate.fps = 0 ∧ s.rate.lastFpsPrintTime ≤ s.clock ∧ s.rate.lastFrameTimestamp = 0 ∧
    s.rate.timestampPerSecond = 0 ∧ s.calls = 0 ∧ s.fpsReset = none ∧ s.sumReset = none
  step s v :=
    if 0 < v.timestamp ∧ s.rate.lastFrameTimestamp ≤ v.timestamp ∧ s.clock ≤ v.update ∧ v.update ≤ v.test ∧
        v.test ≤ v.print then some (send fl s v)
    else none

/-- The average of this call is that of the frames behind the last window: both were
started over behind the same frame. -/
def OneWindow (fl : Floats F) (s : Windowed F) (v : VideoCall) : Prop :=
  ∀ m, s.fpsReset = some m → s.sumReset = some m ∧
    (countFrame s.rate v.timestamp).timestampPerSecond = v.timestamp - m.timestamp ∧
    (countFrame s.rate v.timestamp).fps = s.calls + 1 - m.number ∧
    averageTimeStamp fl (countFrame s.rate v.timestamp) =
      fl.div (fl.ofInt (v.timestamp - m.timestamp)) (fl.ofInt (s.calls + 1 - m.number : Nat))

/-- The clock does not pass the mark between the two tests, and a window whose average
is computed has at most 255 frames. -/
structure Prompt (s : Windowed F) (v : VideoCall) : Prop where
  agree : Averages s v ↔ Closes s v
  few : Averages s v → ∀ m, s.fpsReset = some m → s.calls + 1 - m.number ≤ 255

/-! ## One call -/

theorem secondOver_mono (s : Rate F) {a b : Nat} (hab : a ≤ b) (h : secondOver s a = true) : secondOver s b = true := by
  unfold secondOver at h ⊢
  rw [decide_eq_true_eq] at h ⊢
  have hle : getTimeDiff s.lastFpsPrintTime a ≤ getTimeDiff s.lastFpsPrintTime b :=
    Int.tdiv_le_tdiv (by omega) (by omega)
  omega

@[simp] theorem secondOver_countFrame (s : Rate F) (timestamp : Int) (now : Nat) :
    secondOver (countFrame s timestamp) now = secondOver s now := rfl

/-- The two tests are against the same mark. -/
@[simp] theorem secondOver_update (fl : Floats F) (s : Rate F) (timestamp : Int) (now later : Nat) :
    secondOver (updatePredictedFps fl s timestamp now) later = secondOver s later := by
  unfold updatePredictedFps
  dsimp only
  split <;> rfl

theorem updatePredictedFps_fields (fl : Floats F) (s : Rate F) (timestamp : Int) (now : Nat) :
    (updatePredictedFps fl s timestamp now).fps = (s.fps + 1) % 256 ∧
      (updatePredictedFps fl s timestamp now).timestampPerSecond =
        (if secondOver s now then 0 else (countFrame s timestamp).timestampPerSecond) ∧
      (updatePredictedFps fl s timestamp now).lastFrameTimestamp = timestamp ∧
      (updatePredictedFps fl s timestamp now).lastFpsPrintTime = s.lastFpsPrintTime := by
  unfold updatePredictedFps
  dsimp only
  rw [secondOver_countFrame]
  split <;> exact ⟨rfl, rfl, rfl, rfl⟩

/-- What a call does to the fields of the window. -/
theorem agoraSendVideo_fields (fl : Floats F) (s : Rate F) (v : VideoCall) :
    (agoraSendVideo fl s v).fps = (if secondOver s v.test then 0 else (s.fps + 1) % 256) ∧
      (agoraSendVideo fl s v).timestampPerSecond =
        (if secondOver s v.update then 0 else (countFrame s v.timestamp).timestampPerSecond) ∧
      (agoraSendVideo fl s v).lastFrameTimestamp = v.timestamp ∧
      (agoraSendVideo fl s v).lastFpsPrintTime = if secondOver s v.test then v.print else s.lastFpsPrintTime := by
  obtain ⟨hfps, hsum, hlast, hprint⟩ := updatePredictedFps_fields fl s v.timestamp v.update
  unfold agoraSendVideo
  dsimp only
  rw [secondOver_update]
  split
  · exact ⟨rfl, hsum, hlast, rfl⟩
  · exact ⟨hfps, hsum, hlast, hprint⟩

/-- The two are started over together, and count the frames behind the mark. -/
structure Inv (s : Windowed F) : Prop where
  together : s.fpsReset = s.sumReset
  number : ∀ m, s.fpsReset = some m → m.number ≤ s.calls ∧ s.rate.fps = (s.calls - m.number) % 256
  sum : ∀ m, s.fpsReset = some m →
    0 < s.rate.lastFrameTimestamp ∧ s.rate.timestampPerSecond = s.rate.lastFrameTimestamp - m.timestamp

theorem windowStep_cases {fl : Floats F} {s t : Windowed F} {v : VideoCall}
    (h : (windowSystem fl).step s v = some t) :
    (0 < v.timestamp ∧ s.rate.lastFrameTimestamp ≤ v.timestamp ∧ s.clock ≤ v.update ∧ v.update ≤ v.test ∧
      v.test ≤ v.print) ∧ t = send fl s v := by
  unfold windowSystem at h
  dsimp only at h
  split at h
  · next hok => cases h; exact ⟨hok, rfl⟩
  · cases h

/-- The frames and the gaps behind a mark, with the current one. -/
theorem inv_counts {s : Windowed F} (hs : Inv s) (v : VideoCall) {m : Mark} (hm : s.fpsReset = some m) :
    (countFrame s.rate v.timestamp).fps = (s.calls + 1 - m.number) % 256 ∧
      (countFrame s.rate v.timestamp).timestampPerSecond = v.timestamp - m.timestamp := by
  obtain ⟨hle, hfps⟩ := hs.number m hm
  obtain ⟨hpos, hsum⟩ := hs.sum m hm
  refine ⟨?_, ?_⟩
  · show (s.rate.fps + 1) % 256 = _
    omega
  · show (if s.rate.lastFrameTimestamp ≠ 0 then _ else _) = _
    rw [if_pos (by omega)]
    omega

theorem inv_step {fl : Floats F} {s t : Windowed F} {v : VideoCall} (hs : Inv s) (hok : Prompt s v)
    (h : (windowSystem fl).step s v = some t) : Inv t := by
  obtain ⟨⟨hpos, -, -, -, -⟩, rfl⟩ := windowStep_cases h
  obtain ⟨hfps, hsum, hlast, -⟩ := agoraSendVideo_fields fl s.rate v
  by_cases ha : Averages s v
  · -- the window is closed behind this frame
    have hc := hok.agree.mp ha
    have hreset : (send fl s v).fpsReset = some ⟨s.calls + 1, v.timestamp⟩ := if_pos hc
    have hreset' : (send fl s v).sumReset = some ⟨s.calls + 1, v.timestamp⟩ := if_pos ha
    rw [if_pos (show secondOver s.rate v.test = true from hc)] at hfps
    rw [if_pos (show secondOver s.rate v.update = true from ha)] at hsum
    refine ⟨hreset.trans hreset'.symm, fun m hm => ?_, fun m hm => ?_⟩
    · rw [hreset] at hm
      cases hm
      refine ⟨le_refl _, ?_⟩
      show (agoraSendVideo fl s.rate v).fps = (s.calls + 1 - (s.calls + 1)) % 256
      rw [hfps]
      omega
    · rw [hreset] at hm
      cases hm
      refine ⟨hlast ▸ hpos, ?_⟩
      show (agoraSendVideo fl s.rate v).timestampPerSecond =
        (agoraSendVideo fl s.rate v).lastFrameTimestamp - v.timestamp
      rw [hsum, hlast]
      omega
  · have hc : ¬ Closes s v := fun hc => ha (hok.agree.mpr hc)
    have hreset : (send fl s v).fpsReset = s.fpsReset := if_neg hc
    have hreset' : (send fl s v).sumReset = s.sumReset := if_neg ha
    rw [if_neg (show ¬ secondOver s.rate v.test = true from hc)] at hfps
    rw [if_neg (show ¬ secondOver s.rate v.update = true from ha)] at hsum
    refine ⟨by rw [hreset, hreset', hs.together], fun m hm => ?_, fun m hm => ?_⟩
    · rw [hreset] at hm
      have hle := (hs.number m hm).1
      refine ⟨by show m.number ≤ s.calls + 1; omega, ?_⟩
      show (agoraSendVideo fl s.rate v).fps = (s.calls + 1 - m.number) % 256
      exact hfps.trans (inv_counts hs v hm).1
    · rw [hreset] at hm
      refine ⟨hlast ▸ hpos, ?_⟩
      show (agoraSendVideo fl s.rate v).timestampPerSecond =
        (agoraSendVideo fl s.rate v).lastFrameTimestamp - m.timestamp
      rw [hsum, hlast, (inv_counts hs v hm).2]

/-! ## Every run -/

theorem windowRun_inv {fl : Floats F} {s₀ s : Windowed F} (h₀ : (windowSystem fl).init s₀)
    (h : (windowSystem fl).Run Prompt s₀ s) : Inv s := by
  refine h.invariant (fun s v t hok hs hstep => inv_step hs hok hstep) ?_
  obtain ⟨-, -, -, -, -, hfps, hsum⟩ := h₀
  have hnone : ∀ m, s₀.fpsReset ≠ some m := fun m hm => by rw [hfps] at hm; cases hm
  exact ⟨hfps.trans hsum.symm, fun m hm => absurd hm (hnone m), fun m hm => absurd hm (hnone m)⟩

theorem oneWindow_of_few {fl : Floats F} {s : Windowed F} {v : VideoCall} (hs : Inv s)
    (hfew : ∀ m, s.fpsReset = some m → s.calls + 1 - m.number ≤ 255) : OneWindow fl s v := by
  intro m hm
  obtain ⟨hfps, hsum⟩ := inv_counts hs v hm
  rw [Nat.mod_eq_of_lt (Nat.lt_succ_of_le (hfew m hm))] at hfps
  refine ⟨by rw [← hs.together, hm], hsum, hfps, ?_⟩
  rw [averageTimeStamp, hsum, hfps]

/-- While the two readings of the clock agree, frames and timestamps of an average are those of one
window; a call in which they do not agree leaves them of different windows. -/
theorem fps_one_window (fl : Floats F) (s₀ : Windowed F) (h₀ : (windowSystem fl).init s₀) :
    (∀ s v t, (windowSystem fl).Run Prompt s₀ s → Prompt s v → (windowSystem fl).step s v = some t →
        Averages s v → OneWindow fl s v) ∧
      ∀ s v t, (windowSystem fl).Run Prompt s₀ s → ¬ Prompt s v → (windowSystem fl).step s v = some t →
        (Averages s v ∧ ¬ OneWindow fl s v) ∨ t.fpsReset ≠ t.sumReset := by
  refine ⟨fun s v t hr hok _ ha => oneWindow_of_few (windowRun_inv h₀ hr) (hok.few ha), fun s v t hr hno hstep => ?_⟩
  have hs := windowRun_inv h₀ hr
  obtain ⟨⟨-, -, -, htest, -⟩, rfl⟩ := windowStep_cases hstep
  by_cases ha : Averages s v
  · -- then the tests agree, and the window has too many frames
    have hc : Closes s v := secondOver_mono s.rate htest ha
    refine .inl ⟨ha, fun hone => hno ⟨⟨fun _ => hc, fun _ => ha⟩, fun _ m hm => ?_⟩⟩
    obtain ⟨-, -, hfps, -⟩ := hone m hm
    have hlt : (countFrame s.rate v.timestamp).fps < 256 := Nat.mod_lt _ (by omega)
    omega
  · -- then `fps` alone is started over
    have hc : Closes s v := by
      by_contra hc
      exact hno ⟨⟨fun h => absurd h ha, fun h => absurd h hc⟩, fun h => absurd h ha⟩
    refine .inr fun heq => ?_
    have hreset : (send fl s v).fpsReset = some ⟨s.calls + 1, v.timestamp⟩ := if_pos hc
    have hreset' : (send fl s v).sumReset = s.sumReset := if_neg ha
    rw [hreset, hreset', ← hs.together] at heq
    have hle := (hs.number _ heq.symm).1
    dsimp only at hle
    omega

/-- The context `agora_init` leaves, with the clock at its start. -/
def atInit (fl : Floats F) : Windowed F := ⟨⟨0, fl.ofInt 30, 0, 0, 0⟩, 0, 0, none, none⟩

theorem fps_one_window_init :
    (∀ s v t, (windowSystem rationals).Run Prompt (atInit rationals) s → Prompt s v →
        (windowSystem rationals).step s v = some t → Averages s v → OneWindow rationals s v) ∧
      ∀ s v t, (windowSystem rationals).Run Prompt (atInit rationals) s → ¬ Prompt s v →
        (windowSystem rationals).step s v = some t →
        (Averages s v ∧ ¬ OneWindow rationals s v) ∨ t.fpsReset ≠ t.sumReset :=
  fps_one_window rationals (atInit rationals) ⟨rfl, Nat.le_refl 0, rfl, rfl, rfl, rfl, rfl⟩

/-- A frame every 40 ms of its clock: a window is closed after a second, the next one
between the two tests of the third call. -/
def betweenTests : List VideoCall :=
  [⟨40, 0, 0, 0⟩, ⟨80, 1000000000, 1000000000, 1000000000⟩, ⟨120, 1999000000, 2000000000, 2000000000⟩]

def nextWindow : VideoCall := ⟨160, 3000000000, 3000000000, 3000000000⟩

/-- 80 ms of timestamps over one frame: 12.5 fps instead of 25. -/
theorem fps_two_windows :
    ∃ s t, (windowSystem rationals).Reachable s ∧ (windowSystem rationals).step s nextWindow = some t ∧
      s.fpsReset = some ⟨3, 120⟩ ∧ s.sumReset = some ⟨2, 80⟩ ∧ Averages s nextWindow ∧
      ¬ OneWindow rationals s nextWindow ∧ t.rate.predictedFps = 25 / 2 := by
  have hrun : ((windowSystem rationals).exec (fun _ _ => True) (atInit rationals) betweenTests).map
      (fun s => decide (s.fpsReset = some ⟨3, 120⟩ ∧ s.sumReset = some ⟨2, 80⟩ ∧ Averages s nextWindow ∧
        ((windowSystem rationals).step s nextWindow).map (·.rate.predictedFps) = some (25 / 2))) = some true := by
    decide +kernel
  obtain ⟨s, hs, hd⟩ := Option.map_eq_some_iff.mp hrun
  obtain ⟨hfps, hsum, ha, hstep⟩ := of_decide_eq_true hd
  obtain ⟨t, ht, hp⟩ := Option.map_eq_some_iff.mp hstep
  refine ⟨s, t, LTS.reachable_of_exec ⟨rfl, Nat.le_refl 0, rfl, rfl, rfl, rfl, rfl⟩ betweenTests hs, ht, hfps, hsum,
    ha, fun hone => ?_, hp⟩
  have hm := (hone _ hfps).1
  rw [hsum] at hm
  cases hm

/-! ## The producer of a call -/

/-- The clock of a call counts milliseconds. -/
def fpsOf (s : Call F) : Rate F :=
  ⟨s.fps, s.predictedFps, s.lastFpsPrintTime * 1000000, s.lastFrameTimestamp, s.timestampPerSecond⟩

theorem secondOver_fpsOf (s : Call F) :
    secondOver (fpsOf s) (s.now * 1000000) = decide (1000 ≤ (s.now : Int) - s.lastFpsPrintTime) := by
  unfold secondOver fpsOf
  rw [getTimeDiff_ms]

theorem fpsOf_updatePredictedFps (fl : Floats F) (s : Call F) (timestamp : Int) :
    fpsOf (Agorac.updatePredictedFps fl s timestamp) =
      updatePredictedFps fl (fpsOf s) timestamp (s.now * 1000000) := by
  unfold Agorac.updatePredictedFps updatePredictedFps
  dsimp only
  rw [secondOver_countFrame, secondOver_fpsOf]
  by_cases hpast : 1000 ≤ (s.now : Int) - s.lastFpsPrintTime
  · rw [if_pos hpast, if_pos (decide_eq_true hpast)]
    rfl
  · have hnot : ¬ decide (1000 ≤ (s.now : Int) - s.lastFpsPrintTime) = true := mt of_decide_eq_true hpast
    rw [if_neg hpast, if_neg hnot]
    rfl

theorem fpsOf_finishVideo (fl : Floats F) (s : Call F) (timestamp : Int) :
    fpsOf (finishVideo fl s timestamp) =
      agoraSendVideo fl (fpsOf s) ⟨timestamp, s.now * 1000000, s.now * 1000000, s.now * 1000000⟩ := by
  have hnow : s.now = (Agorac.updatePredictedFps fl s timestamp).now := by
    unfold Agorac.updatePredictedFps
    dsimp only
    split <;> rfl
  unfold finishVideo agoraSendVideo
  dsimp only
  rw [← fpsOf_updatePredictedFps, hnow, secondOver_fpsOf]
  generalize Agorac.updatePredictedFps fl s timestamp = u
  by_cases hpast : 1000 ≤ (u.now : Int) - u.lastFpsPrintTime
  · rw [if_pos hpast, if_pos (decide_eq_true hpast)]
    rfl
  · have hnot : ¬ decide (1000 ≤ (u.now : Int) - u.lastFpsPrintTime) = true := mt of_decide_eq_true hpast
    rw [if_neg hpast, if_neg hnot]
    rfl

end Rtmpg.FpsWindow
