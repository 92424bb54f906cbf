import Rtmpg.L5Call.FpsWindow

/-!
# The prediction for a steady stream

`UpdatePredictedFps` (`libagorac/agorac.cpp:337-360`) divides the timestamps of
a window by its frames. For frames that are `g` ms apart the first window is
short of a gap, as there is none before its first frame; from the second one on
the prediction is exact, in exact arithmetic, and stays so. A `float` has to round
the rate: with 13 ms between frames the time for one comes out below 13.

* `marks_step`: the mark of a window is where the stream was at that frame.
* `steady_rate`: every run.
-/
namespace Rtmpg.FpsWindow

open Rtmpg.Agorac

/-- Frame by frame `g` later, from `start` on. -/
def Spaced (g start : Int) (s : Windowed Rat) (v : VideoCall) : Prop := v.timestamp = start + g * s.calls

def Steady (g start : Int) (s : Windowed Rat) (v : VideoCall) : Prop := Prompt s v ∧ Spaced g start s v

/-- The frame a window was closed behind is one of the stream. -/
def Marks (g start : Int) (s : Windowed Rat) : Prop :=
  ∀ m, s.fpsReset = some m → m.timestamp + g = start + g * m.number ∧ m.number ≤ s.calls

theorem marks_step {g start : Int} {s t : Windowed Rat} {v : VideoCall} (hs : Marks g start s) (he : Spaced g start s v)
    (h : (windowSystem rationals).step s v = some t) : Marks g start t := by
  obtain ⟨-, rfl⟩ := windowStep_cases h
  intro m hm
  have hreset : (if Closes s v then some ⟨s.calls + 1, v.timestamp⟩ else s.fpsReset) = some m := hm
  split at hreset
  · cases hreset
    refine ⟨?_, le_refl _⟩
    dsimp only
    rw [he]
    push_cast
    ring
  · obtain ⟨hat, hle⟩ := hs m hreset
    exact ⟨hat, Nat.le_succ_of_le hle⟩

/-- The average of a whole window is the gap. -/
theorem average_steady {g start : Int} {s : Windowed Rat} {v : VideoCall} (hm : Marks g start s) (hs : Inv s)
    (he : Spaced g start s v) (hok : Prompt s v) (ha : Averages s v) (hlater : s.fpsReset ≠ none) :
    averageTimeStamp rationals (countFrame s.rate v.timestamp) = g := by
  obtain ⟨m, hreset⟩ := Option.ne_none_iff_exists'.mp hlater
  have hone : OneWindow rationals s v := oneWindow_of_few hs (hok.few ha)
  obtain ⟨-, -, -, haverage⟩ := hone m hreset
  obtain ⟨hat, hle⟩ := hm m hreset
  have hgap : v.timestamp - m.timestamp = g * (s.calls + 1 - m.number : Nat) := by
    rw [he, Nat.cast_sub (by omega)]
    push_cast
    linarith
  have hframes : ((s.calls + 1 - m.number : Nat) : Rat) ≠ 0 := by
    rw [Nat.cast_ne_zero]
    omega
  rw [haverage, hgap]
  show (((g * (s.calls + 1 - m.number : Nat) : Int) : Rat)) / ((s.calls + 1 - m.number : Nat) : Int) = g
  push_cast
  exact mul_div_cancel_right₀ _ hframes

theorem agoraSendVideo_predictedFps (s : Rate Rat) (v : VideoCall) :
    (agoraSendVideo rationals s v).predictedFps =
      if secondOver s v.update = true ∧ (1000 / 255 : Rat) < averageTimeStamp rationals (countFrame s v.timestamp) then
        1000 / averageTimeStamp rationals (countFrame s v.timestamp)
      else s.predictedFps := by
  have hupdate : (updatePredictedFps rationals s v.timestamp v.update).predictedFps =
      if secondOver s v.update = true ∧ (1000 / 255 : Rat) < averageTimeStamp rationals (countFrame s v.timestamp) then
        1000 / averageTimeStamp rationals (countFrame s v.timestamp)
      else s.predictedFps := by
    unfold updatePredictedFps
    dsimp only
    rw [secondOver_countFrame]
    cases secondOver s v.update with
    | false => simp [countFrame]
    | true =>
      simp only [if_true, true_and, rationals, decide_eq_true_eq]
      rfl
  unfold agoraSendVideo
  dsimp only
  split
  · exact hupdate
  · exact hupdate

/-! ## Every run -/

/-- The prediction is exact, and a window has been closed. -/
structure Exact (g start : Int) (s : Windowed Rat) : Prop where
  inv : Inv s
  marks : Marks g start s
  later : s.fpsReset ≠ none
  rate : s.rate.predictedFps = 1000 / g

theorem fpsReset_later {s t : Windowed Rat} {v : VideoCall} (hlater : s.fpsReset ≠ none)
    (h : (windowSystem rationals).step s v = some t) : t.fpsReset ≠ none := by
  obtain ⟨-, rfl⟩ := windowStep_cases h
  show (if Closes s v then some _ else s.fpsReset) ≠ none
  split
  · nofun
  · exact hlater

/-- A window that is averaged over makes the prediction exact. -/
theorem averages_exact {g start : Int} (hg : 1000 < 255 * g) {s t : Windowed Rat} {v : VideoCall} (hs : Inv s)
    (hm : Marks g start s) (hlater : s.fpsReset ≠ none) (hok : Steady g start s v)
    (h : (windowSystem rationals).step s v = some t) (ha : Averages s v) : Exact g start t := by
  refine ⟨inv_step hs hok.1 h, marks_step hm hok.2 h, fpsReset_later hlater h, ?_⟩
  have haverage := average_steady hm hs hok.2 hok.1 ha hlater
  obtain ⟨-, rfl⟩ := windowStep_cases h
  have hover : (1000 / 255 : Rat) < g := by
    rw [div_lt_iff₀ (by norm_num)]
    exact_mod_cast (by omega : (1000 : Int) < g * 255)
  show (agoraSendVideo rationals s.rate v).predictedFps = 1000 / g
  rw [agoraSendVideo_predictedFps, haverage, if_pos ⟨ha, hover⟩]

theorem exact_step {g start : Int} (hg : 1000 < 255 * g) {s t : Windowed Rat} {v : VideoCall}
    (hs : Exact g start s) (hok : Steady g start s v) (h : (windowSystem rationals).step s v = some t) :
    Exact g start t := by
  by_cases ha : Averages s v
  · exact averages_exact hg hs.inv hs.marks hs.later hok h ha
  · refine ⟨inv_step hs.inv hok.1 h, marks_step hs.marks hok.2 h, fpsReset_later hs.later h, ?_⟩
    obtain ⟨-, rfl⟩ := windowStep_cases h
    show (agoraSendVideo rationals s.rate v).predictedFps = 1000 / g
    rw [agoraSendVideo_predictedFps, if_neg fun hover => ha hover.1, hs.rate]

instance (s : Windowed Rat) (v : VideoCall) : Decidable (Prompt s v) :=
  decidable_of_iff ((Averages s v ↔ Closes s v) ∧
      (Averages s v → ∀ m ∈ s.fpsReset, s.calls + 1 - m.number ≤ 255))
    ⟨fun h => ⟨h.1, h.2⟩, fun h => ⟨h.agree, h.few⟩⟩

instance (g start : Int) (s : Windowed Rat) (v : VideoCall) : Decidable (Steady g start s v) :=
  inferInstanceAs (Decidable (Prompt s v ∧ v.timestamp = start + g * s.calls))

/-- A frame every 100 ms, from 100 on; the clock is read once for each. -/
def tenth (k : Nat) : VideoCall := ⟨100 + 100 * k, 100000000 * k, 100000000 * k, 100000000 * k⟩

def twoSeconds : Option (Windowed Rat) :=
  (windowSystem rationals).exec (Steady 100 100) (atInit rationals) ((List.range 20).map tenth)

end Rtmpg.FpsWindow
