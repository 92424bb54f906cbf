import Rtmpg.L5Call.Frame

/-!
# How the handlers stop

`agora_disconnect` clears `isRunning` and puts a sentinel in every queue
(`libagorac/agorac.cpp:564-580`). From then on a sentinel is in the queue or
in the hand of each handler that is not done, so a handler that cannot step is
asleep: `highStep_blocked`, `lowStep_blocked`, `audioStep_blocked`. The naps
of 10 ms (`WaitForBuffering`, and the audio handler while video buffers) begin
only while the call runs: `highStep_naps`, `audioStep_naps`.
-/
namespace Rtmpg.Agorac

variable {F : Type} {fl : Floats F} {cfg : Config} {s t : Call F}

/-! ## The sentinel on its way -/

def HighPc.stopping : HighPc F → Bool
  | .forward work | .top work | .size work _ | .send work _ => work.isFinished
  | .done => true
  | _ => false

def HasSentinel (l : List Work) : Prop := ∃ work ∈ l, work.isFinished = true

theorem HasSentinel.mono {l l' : List Work} (h : HasSentinel l) (hl : l <+: l') : HasSentinel l' := by
  obtain ⟨work, hmem, hf⟩ := h
  exact ⟨work, hl.subset hmem, hf⟩

theorem hasSentinel_append (l : List Work) (s : Call F) : HasSentinel (l ++ [sentinel cfg s]) :=
  ⟨sentinel cfg s, List.mem_append_right _ (List.mem_singleton.mpr rfl), rfl⟩

theorem HasSentinel.tail {work : Work} {rest : List Work} (h : HasSentinel (work :: rest))
    (hf : work.isFinished = false) : HasSentinel rest := by
  obtain ⟨w, hmem, hw⟩ := h
  rcases List.mem_cons.mp hmem with rfl | hmem
  · rw [hf] at hw
    cases hw
  · exact ⟨w, hmem, hw⟩

theorem not_hasSentinel_nil : ¬ HasSentinel [] := fun ⟨_, hmem, _⟩ => List.not_mem_nil hmem

def HighStops (s : Call F) : Prop := s.high.stopping = true ∨ HasSentinel s.videoJB

def LowStops (s : Call F) : Prop := s.low = .done ∨ HasSentinel s.videoQueueLow

def AudioStops (s : Call F) : Prop := s.audio = .done ∨ HasSentinel s.audioJB

theorem HighStops.queued (hs : HighStops s) (h : s.high.stopping = false) : HasSentinel s.videoJB := by
  refine hs.resolve_left fun hstop => ?_
  rw [h] at hstop
  cases hstop

theorem highStep_stops (hs : HighStops s) (h : highStep fl cfg s = some t) : HighStops t := by
  cases highStepped h with
  -- the handler takes the sentinel, or a frame before it
  | take work rest hpc hcons =>
    have hq := hs.queued (by rw [hpc]; rfl)
    rw [hcons] at hq
    cases hf : work.isFinished with
    | true =>
      refine .inl ?_
      cases cfg.enableDual <;> exact hf
    | false => exact .inr (hq.tail hf)
  | null hpc hnil =>
    have hq := hs.queued (by rw [hpc]; rfl)
    rw [hnil] at hq
    exact absurd hq not_hasSentinel_nil
  -- or holds it
  | forward work hpc | top work hpc | size work _ hpc =>
    rw [HighStops, hpc] at hs
    exact hs
  | stop => exact .inl rfl
  | send work _ hpc hf =>
    rw [HighStops, hpc] at hs
    exact .inr (hs.resolve_left (Bool.eq_false_iff.mp hf))
  | test hpc | starve hpc _ | fed hpc _ | nap _ _ hpc _ _ _ | resize _ _ hpc _ _ | full _ _ hpc _ _ | wake _ _ _ hpc _
  | wait hpc _ | sleep _ hpc _ => exact .inr (hs.queued (by rw [hpc]; rfl))

theorem lowStep_stops (hs : LowStops s) (h : lowStep fl cfg s = some t) : LowStops t := by
  have hq : HasSentinel s.videoQueueLow := by
    refine hs.resolve_left fun hd => ?_
    rw [lowStep_done hd] at h
    cases h
  cases lowStepped h with
  | null _ hnil =>
    rw [hnil] at hq
    exact absurd hq not_hasSentinel_nil
  | take work rest _ hcons =>
    rw [hcons] at hq
    cases hf : work.isFinished with
    | true => exact .inl rfl
    | false => exact .inr (hq.tail hf)
  | _ => exact .inr hq

theorem audioStep_stops (hs : AudioStops s) (h : audioStep fl s = some t) : AudioStops t := by
  have hq : HasSentinel s.audioJB := by
    refine hs.resolve_left fun hd => ?_
    rw [audioStep_done hd] at h
    cases h
  cases audioStepped h with
  | null _ hnil =>
    rw [hnil] at hq
    exact absurd hq not_hasSentinel_nil
  | take work rest _ hcons =>
    rw [hcons] at hq
    cases hf : work.isFinished with
    | true => exact .inl rfl
    | false => exact .inr (hq.tail hf)
  | _ => exact .inr hq

/-! ## Sleeping handlers -/

def HighPc.sleepsUntil : HighPc F → Option Int
  | .sleep nextSample => some nextSample
  | _ => none

def AudioPc.sleepsUntil : AudioPc → Option Int
  | .sleep nextSample => some nextSample
  | _ => none

def HighPc.napsUntil : HighPc F → Option Nat
  | .nap _ _ wake => some wake
  | _ => none

def AudioPc.napsUntil : AudioPc → Option Nat
  | .nap _ _ wake => some wake
  | _ => none

theorem highStep_naps (h : highStep fl cfg s = some t) :
    ∀ wake ∈ t.high.napsUntil, s.isRunning = true ∧ wake = s.now + 10 := by
  intro wake hwake
  cases highStepped h with
  | nap fps count _ hrun =>
    cases hwake
    exact ⟨hrun, rfl⟩
  | test | sleep =>
    cases hrun : s.isRunning <;> rw [hrun] at hwake <;> cases hwake
  | take =>
    cases hdual : cfg.enableDual <;> rw [hdual] at hwake <;> cases hwake
  | _ => cases hwake

theorem audioStep_naps (h : audioStep fl s = some t) :
    ∀ wake ∈ t.audio.napsUntil, s.isRunning = true ∧ wake = s.now + 10 := by
  intro wake hwake
  cases audioStepped h with
  | nap work nextSample _ _ hrun =>
    cases hwake
    exact ⟨hrun, rfl⟩
  | test | null | sleep =>
    cases hrun : s.isRunning <;> rw [hrun] at hwake <;> cases hwake
  | take work =>
    cases hf : work.isFinished <;> rw [hf] at hwake <;> cases hwake
  | _ => cases hwake

/-- With a sentinel on its way only a sleep blocks the High handler. -/
theorem highStep_blocked (hs : HighStops s) (h : highStep fl cfg s = none) :
    s.high = .done ∨ (∃ wake ∈ s.high.napsUntil, s.now < wake) ∨ s.high.sleepsUntil ≠ none := by
  unfold highStep at h
  split at h
  case h_4 wake hpc =>
    split at h
    · cases h
    · exact .inr (.inl ⟨wake, by rw [hpc]; rfl, by omega⟩)
  case h_5 hpc =>
    have hq := hs.queued (by rw [hpc]; rfl)
    split at h
    · next hnil =>
      rw [hnil] at hq
      exact absurd hq not_hasSentinel_nil
    · cases h
  case h_11 hpc => exact .inr (.inr (by rw [hpc]; exact Option.some_ne_none _))
  case h_12 hpc => exact .inl hpc
  all_goals
    try split at h
    all_goals cases h

theorem lowStep_blocked (hs : LowStops s) (h : lowStep fl cfg s = none) : s.low = .done := by
  rcases hs with hs | hs
  · exact hs
  unfold lowStep at h
  split at h
  case h_2 =>
    split at h
    · next hnil =>
      rw [hnil] at hs
      exact absurd hs not_hasSentinel_nil
    · cases h
  case h_5 hpc => exact hpc
  all_goals
    try split at h
    all_goals cases h

theorem audioStep_blocked (hs : AudioStops s) (h : audioStep fl s = none) :
    s.audio = .done ∨ (∃ wake ∈ s.audio.napsUntil, s.now < wake) ∨ s.audio.sleepsUntil ≠ none := by
  rcases hs with hs | hs
  · exact .inl hs
  unfold audioStep at h
  split at h
  case h_2 =>
    split at h
    · next hnil =>
      rw [hnil] at hs
      exact absurd hs not_hasSentinel_nil
    · cases h
  case h_7 wake hpc =>
    split at h
    · cases h
    · exact .inr (.inl ⟨wake, by rw [hpc]; rfl, by omega⟩)
  case h_8 hpc => exact .inr (.inr (by rw [hpc]; exact Option.some_ne_none _))
  case h_9 hpc => exact .inl hpc
  all_goals
    try split at h
    all_goals cases h

theorem sleeping_high (h : s.high.sleepsUntil ≠ none) : ∃ w, s.high = .sleep w := by
  cases hpc : s.high with
  | sleep w => exact ⟨w, rfl⟩
  | _ => exact absurd (by rw [hpc]; rfl) h

theorem sleeping_audio (h : s.audio.sleepsUntil ≠ none) : ∃ w, s.audio = .sleep w := by
  cases hpc : s.audio with
  | sleep w => exact ⟨w, rfl⟩
  | _ => exact absurd (by rw [hpc]; rfl) h

/-- A handler that wakes after the call of `agora_disconnect` ends. -/
theorem highStep_wakes (hp : s.high.sleepsUntil ≠ none) (hrun : s.isRunning = false)
    (h : highStep fl cfg s = some t) : t.high = .done := by
  obtain ⟨w, hw⟩ := sleeping_high hp
  unfold highStep at h
  simp only [hw, hrun] at h
  split at h <;> cases h
  rfl

theorem audioStep_wakes (hp : s.audio.sleepsUntil ≠ none) (hrun : s.isRunning = false)
    (h : audioStep fl s = some t) : t.audio = .done := by
  obtain ⟨w, hw⟩ := sleeping_audio hp
  unfold audioStep at h
  simp only [hw, hrun] at h
  split at h <;> cases h
  rfl

end Rtmpg.Agorac
