import Rtmpg.Core.Fair
import Rtmpg.L5Call.Shutdown

/-!
# A call as time goes on

Paths of a call on which time does not stop. A handler changes its place and
hands frames on by steps of its own only (`step_others`). What keeps it from
such a step is an empty queue at `waitForWork` or a sleep (`highStep_none`,
`lowStep_none`, `audioStep_none`), and a sleep is over some time
(`wakes`).
-/
namespace Rtmpg.Agorac

variable {F : Type} {fl : Floats F} {cfg : Config} {s t : Call F}

/-! ## Steps of others -/

structure Others (s : Call F) (l : Label) (t : Call F) : Prop where
  high : l ≠ .high → t.high = s.high ∧ t.sentHigh = s.sentHigh
  low : l ≠ .low → t.low = s.low ∧ t.lowProcessed = s.lowProcessed
  audio : l ≠ .listen → t.audio = s.audio ∧ t.sentAudio = s.sentAudio
  now : t.now = if l = .tick then s.now + 1 else s.now

theorem step_others {l : Label} (h : (system fl cfg).step s l = some t) : Others s l t := by
  cases stepped h with
  | deleted _ h =>
    cases freedTouched h with
    | stop => exact ⟨fun hl => absurd rfl hl, fun _ => ⟨rfl, rfl⟩, fun _ => ⟨rfl, rfl⟩, rfl⟩
    | _ => exact ⟨fun _ => ⟨rfl, rfl⟩, fun _ => ⟨rfl, rfl⟩, fun _ => ⟨rfl, rfl⟩, rfl⟩
  | tick | video | audio => exact ⟨fun _ => ⟨rfl, rfl⟩, fun _ => ⟨rfl, rfl⟩, fun _ => ⟨rfl, rfl⟩, rfl⟩
  | fps timestamp =>
    rw [finishVideo_eq]
    exact ⟨fun _ => ⟨rfl, rfl⟩, fun _ => ⟨rfl, rfl⟩, fun _ => ⟨rfl, rfl⟩, rfl⟩
  | high _ h =>
    rw [highStep_eq h]
    exact ⟨fun hl => absurd rfl hl, fun _ => ⟨rfl, rfl⟩, fun _ => ⟨rfl, rfl⟩, rfl⟩
  | low _ h =>
    rw [lowStep_eq h]
    exact ⟨fun _ => ⟨rfl, rfl⟩, fun hl => absurd rfl hl, fun _ => ⟨rfl, rfl⟩, rfl⟩
  | listen _ h =>
    rw [audioStep_eq h]
    exact ⟨fun _ => ⟨rfl, rfl⟩, fun _ => ⟨rfl, rfl⟩, fun hl => absurd rfl hl, rfl⟩
  | disconnect ok _ h =>
    rw [discStep_eq h]
    exact ⟨fun _ => ⟨rfl, rfl⟩, fun _ => ⟨rfl, rfl⟩, fun _ => ⟨rfl, rfl⟩, rfl⟩

/-! ## What a handler waits for -/

/-- The milliseconds it has yet to sleep. -/
def HighPc.due (now : Nat) : HighPc F → Nat
  | .nap _ _ wake => wake - now
  | .sleep nextSample => (nextSample - now).toNat
  | _ => 0

def AudioPc.due (now : Nat) : AudioPc → Nat
  | .nap _ _ wake => wake - now
  | .sleep nextSample => (nextSample - now).toNat
  | _ => 0

theorem highPc_due_zero {pc : HighPc F} {now later : Nat} (h : now + pc.due now ≤ later) : pc.due later = 0 := by
  cases pc <;> simp only [HighPc.due] at h ⊢ <;> omega

theorem audioPc_due_zero {pc : AudioPc} {now later : Nat} (h : now + pc.due now ≤ later) : pc.due later = 0 := by
  cases pc <;> simp only [AudioPc.due] at h ⊢ <;> omega

theorem highStep_none (h : highStep fl cfg s = none) :
    s.high = .done ∨ (s.high = .wait ∧ s.videoJB = []) ∨ 0 < s.high.due s.now := by
  unfold highStep at h
  split at h
  case h_4 wake hpc =>
    split at h
    · cases h
    · refine .inr (.inr ?_)
      simp only [hpc, HighPc.due]
      omega
  case h_5 hpc =>
    split at h
    · next hnil => exact .inr (.inl ⟨hpc, hnil⟩)
    · cases h
  case h_11 nextSample hpc =>
    split at h
    · cases h
    · refine .inr (.inr ?_)
      simp only [hpc, HighPc.due]
      omega
  case h_12 hpc => exact .inl hpc
  all_goals
    try split at h
    all_goals cases h

theorem lowStep_none (h : lowStep fl cfg s = none) : s.low = .done ∨ (s.low = .wait ∧ s.videoQueueLow = []) := by
  unfold lowStep at h
  split at h
  case h_2 hpc =>
    split at h
    · next hnil => exact .inr ⟨hpc, hnil⟩
    · cases h
  case h_5 hpc => exact .inl hpc
  all_goals
    try split at h
    all_goals cases h

theorem audioStep_none (h : audioStep fl s = none) :
    s.audio = .done ∨ (s.audio = .wait ∧ s.audioJB = []) ∨ 0 < s.audio.due s.now := by
  unfold audioStep at h
  split at h
  case h_2 hpc =>
    split at h
    · next hnil => exact .inr (.inl ⟨hpc, hnil⟩)
    · cases h
  case h_7 wake hpc =>
    split at h
    · cases h
    · refine .inr (.inr ?_)
      simp only [hpc, AudioPc.due]
      omega
  case h_8 nextSample hpc =>
    split at h
    · cases h
    · refine .inr (.inr ?_)
      simp only [hpc, AudioPc.due]
      omega
  case h_9 hpc => exact .inl hpc
  all_goals
    try split at h
    all_goals cases h

/-! ## Time -/

section
variable {p : (system fl cfg).Path}

/-- Time does not stop. -/
def Diverges (p : (system fl cfg).Path) : Prop := p.Often .tick

theorem clock_mono {i j : Nat} (h : i ≤ j) : (p.state i).now ≤ (p.state j).now := by
  induction j, h using Nat.le_induction with
  | base => exact Nat.le_refl _
  | succ j _ ih =>
    have hnow := (step_others (p.step j)).now
    split at hnow <;> omega

theorem clock_reaches (htime : Diverges p) (i n : Nat) : ∃ j ≥ i, n ≤ (p.state j).now := by
  induction n with
  | zero => exact ⟨i, Nat.le_refl i, Nat.zero_le _⟩
  | succ n ih =>
    obtain ⟨j, hj, hn⟩ := ih
    obtain ⟨k, hk, hl⟩ := htime j
    have hmono := clock_mono (p := p) hk
    have hnow := (step_others (p.step k)).now
    rw [if_pos hl] at hnow
    exact ⟨k + 1, by omega, by omega⟩

/-- The High handler takes no step: it stays where it is. -/
theorem high_stays {i : Nat} (hnot : ∀ j ≥ i, p.label j ≠ .high) :
    ∀ j ≥ i, (p.state j).high = (p.state i).high := by
  intro j hj
  induction j, hj using Nat.le_induction with
  | base => rfl
  | succ j hj ih => exact ((step_others (p.step j)).high (hnot j hj)).1.trans ih

theorem low_stays {i : Nat} (hnot : ∀ j ≥ i, p.label j ≠ .low) : ∀ j ≥ i, (p.state j).low = (p.state i).low := by
  intro j hj
  induction j, hj using Nat.le_induction with
  | base => rfl
  | succ j hj ih => exact ((step_others (p.step j)).low (hnot j hj)).1.trans ih

theorem audio_stays {i : Nat} (hnot : ∀ j ≥ i, p.label j ≠ .listen) :
    ∀ j ≥ i, (p.state j).audio = (p.state i).audio := by
  intro j hj
  induction j, hj using Nat.le_induction with
  | base => rfl
  | succ j hj ih => exact ((step_others (p.step j)).audio (hnot j hj)).1.trans ih

/-- A handler that is not done and finds something in its queue can go on, once its
sleep is over. -/
theorem high_wakes (htime : Diverges p) {i : Nat} (hnot : ∀ j ≥ i, p.label j ≠ .high)
    (halive : ∀ j ≥ i, (p.state j).freed = false) (hdone : (p.state i).high ≠ .done)
    (hqueue : ∀ j ≥ i, (p.state j).high = .wait → (p.state j).videoJB ≠ []) :
    ∃ k ≥ i, ∀ n ≥ k, (system fl cfg).step (p.state n) .high ≠ none := by
  obtain ⟨k, hk, hnow⟩ := clock_reaches htime i ((p.state i).now + (p.state i).high.due (p.state i).now)
  refine ⟨k, hk, fun n hn hnone => ?_⟩
  have hin : i ≤ n := le_trans hk hn
  have hstay := high_stays hnot n hin
  simp only [system, halive n hin, Bool.false_eq_true, if_false, liveStep] at hnone
  rcases highStep_none hnone with hd | ⟨hw, hnil⟩ | hdue
  · exact hdone (hstay.symm.trans hd)
  · exact hqueue n hin hw hnil
  · rw [hstay, highPc_due_zero (hnow.trans (clock_mono hn))] at hdue
    exact absurd hdue (Nat.lt_irrefl 0)

theorem audio_wakes (htime : Diverges p) {i : Nat} (hnot : ∀ j ≥ i, p.label j ≠ .listen)
    (halive : ∀ j ≥ i, (p.state j).freed = false) (hdone : (p.state i).audio ≠ .done)
    (hqueue : ∀ j ≥ i, (p.state j).audio = .wait → (p.state j).audioJB ≠ []) :
    ∃ k ≥ i, ∀ n ≥ k, (system fl cfg).step (p.state n) .listen ≠ none := by
  obtain ⟨k, hk, hnow⟩ := clock_reaches htime i ((p.state i).now + (p.state i).audio.due (p.state i).now)
  refine ⟨k, hk, fun n hn hnone => ?_⟩
  have hin : i ≤ n := le_trans hk hn
  have hstay := audio_stays hnot n hin
  simp only [system, halive n hin, Bool.false_eq_true, if_false, liveStep] at hnone
  rcases audioStep_none hnone with hd | ⟨hw, hnil⟩ | hdue
  · exact hdone (hstay.symm.trans hd)
  · exact hqueue n hin hw hnil
  · rw [hstay, audioPc_due_zero (hnow.trans (clock_mono hn))] at hdue
    exact absurd hdue (Nat.lt_irrefl 0)

theorem low_wakes {i : Nat} (hnot : ∀ j ≥ i, p.label j ≠ .low) (halive : ∀ j ≥ i, (p.state j).freed = false)
    (hdone : (p.state i).low ≠ .done) (hqueue : ∀ j ≥ i, (p.state j).low = .wait → (p.state j).videoQueueLow ≠ []) :
    ∃ k ≥ i, ∀ n ≥ k, (system fl cfg).step (p.state n) .low ≠ none := by
  refine ⟨i, Nat.le_refl i, fun n hn hnone => ?_⟩
  simp only [system, halive n hn, Bool.false_eq_true, if_false, liveStep] at hnone
  rcases lowStep_none hnone with hd | ⟨hw, hnil⟩
  · exact hdone ((low_stays hnot n hn).symm.trans hd)
  · exact hqueue n hn hw hnil

/-- From this state on only time passes. -/
def ticking (fl : Floats F) (cfg : Config) (s : Call F) : (system fl cfg).Path where
  state i := { s with now := s.now + i }
  label _ := .tick
  step i := by
    cases hf : s.freed <;> simp [system, liveStep, touchFreed, Nat.add_assoc]

theorem ticking_diverges (s : Call F) : Diverges (ticking fl cfg s) := fun i => ⟨i, Nat.le_refl i, rfl⟩

/-- A handler that cannot step however long it waits is treated fairly. -/
theorem ticking_fair {l : Label} (h : ∀ i, (system fl cfg).step { s with now := s.now + i } l = none) :
    (ticking fl cfg s).Fair l := fun i hen => absurd (h i) (hen i (Nat.le_refl i))

end

end Rtmpg.Agorac
