import Rtmpg.L5Call.Shutdown

/-!
# No handler is left waiting after the disconnect

From the step of `agora_disconnect` that puts the sentinel into a queue on, a
sentinel is in that queue or in the hand of its handler, or the handler is
done. Another `add`, the clear of the low queue, which comes before its
sentinel, and the sentinel that the High handler forwards do not change that:
`step_stopping`. So a handler at `waitForWork` finds something to take, and
the handler that takes the sentinel leaves its loop: `no_handler_blocked`.
That a handler with something to take does get out of `waitForWork` is in
`Rtmpg.L5Call.Queues`.
-/
namespace Rtmpg.Agorac

variable {F : Type} {fl : Floats F} {cfg : Config} {s t : Call F}

/-! ## How far the disconnect is -/

def DiscPc.addedVideo : DiscPc → Bool
  | .idle | .addVideo => false
  | _ => true

/-- Without the dual stream there is no low handler and no low queue. -/
def DiscPc.addedLow : DiscPc → Bool
  | .addAudio | .sleep _ | .done => true
  | _ => false

def DiscPc.addedAudio : DiscPc → Bool
  | .sleep _ | .done => true
  | _ => false

structure Stopping (cfg : Config) (s : Call F) : Prop where
  single : cfg.enableDual = false → s.low = .done
  high : s.disc.addedVideo = true → HighStops s
  low : s.disc.addedLow = true → LowStops s
  audio : s.disc.addedAudio = true → AudioStops s

/-! ## One step -/

theorem HighStops.frame (hs : HighStops s) (hpc : t.high = s.high) (hq : s.videoJB <+: t.videoJB) : HighStops t := by
  rw [HighStops, hpc]
  exact hs.imp_right fun h => h.mono hq

theorem LowStops.frame (hs : LowStops s) (hpc : t.low = s.low) (hq : s.videoQueueLow <+: t.videoQueueLow) :
    LowStops t := by
  rw [LowStops, hpc]
  exact hs.imp_right fun h => h.mono hq

theorem AudioStops.frame (hs : AudioStops s) (hpc : t.audio = s.audio) (hq : s.audioJB <+: t.audioJB) :
    AudioStops t := by
  rw [AudioStops, hpc]
  exact hs.imp_right fun h => h.mono hq

theorem Stopping.producer (hs : Stopping cfg s) (h : ProducerFrame s t) : Stopping cfg t where
  single hd := h.low.trans (hs.single hd)
  high ha := (hs.high (h.disc ▸ ha)).frame h.high h.videoJB
  low ha := (hs.low (h.disc ▸ ha)).frame h.low (h.videoQueueLow ▸ List.prefix_rfl)
  audio ha := (hs.audio (h.disc ▸ ha)).frame h.audio h.audioJB

theorem discStep_stopping (hs : Stopping cfg s) {ok : Bool} (h : discStep cfg s ok = some t) : Stopping cfg t := by
  cases discStepped h with
  | call =>
    exact ⟨hs.single, fun ha => absurd ha Bool.false_ne_true, fun ha => absurd ha Bool.false_ne_true,
      fun ha => absurd ha Bool.false_ne_true⟩
  | addVideo =>
    refine ⟨hs.single, fun _ => .inr (hasSentinel_append _ s), fun ha => ?_, fun ha => ?_⟩
    · cases hd : cfg.enableDual with
      | true =>
        rw [hd] at ha
        cases ha
      | false => exact .inl (hs.single hd)
    · cases hd : cfg.enableDual <;> rw [hd] at ha <;> cases ha
  | clearLow hpc =>
    exact ⟨hs.single, fun _ => hs.high (by rw [hpc]; rfl), fun ha => absurd ha Bool.false_ne_true,
      fun ha => absurd ha Bool.false_ne_true⟩
  | addLow hpc =>
    exact ⟨hs.single, fun _ => hs.high (by rw [hpc]; rfl), fun _ => .inr (hasSentinel_append _ s),
      fun ha => absurd ha Bool.false_ne_true⟩
  | addAudio hpc =>
    exact ⟨hs.single, fun _ => hs.high (by rw [hpc]; rfl), fun _ => hs.low (by rw [hpc]; rfl),
      fun _ => .inr (hasSentinel_append _ s)⟩
  | finish wake hpc _ =>
    exact ⟨hs.single, fun _ => hs.high (by rw [hpc]; rfl), fun _ => hs.low (by rw [hpc]; rfl),
      fun _ => hs.audio (by rw [hpc]; rfl)⟩

theorem touchFreed_stopping (hs : Stopping cfg s) {l : Label} (h : touchFreed s l = some t) : Stopping cfg t := by
  cases freedTouched h with
  | stop => exact ⟨hs.single, fun _ => .inl rfl, hs.low, hs.audio⟩
  | _ => exact ⟨hs.single, hs.high, hs.low, hs.audio⟩

theorem step_stopping (hs : Stopping cfg s) {l : Label} (h : (system fl cfg).step s l = some t) :
    Stopping cfg t := by
  cases stepped h with
  | deleted _ h => exact touchFreed_stopping hs h
  | tick => exact ⟨hs.single, hs.high, hs.low, hs.audio⟩
  | video buffer isKeyFrame timestamp => exact hs.producer (addVideo_frame buffer isKeyFrame timestamp)
  | fps timestamp => exact hs.producer (finishVideo_frame timestamp)
  | audio buffer timestamp => exact hs.producer (addAudio_frame buffer timestamp)
  | high _ h =>
    have hf := highStep_frame h
    exact ⟨fun hd => hf.low.trans (hs.single hd), fun ha => highStep_stops (hs.high (hf.disc ▸ ha)) h,
      fun ha => (hs.low (hf.disc ▸ ha)).frame hf.low hf.videoQueueLow,
      fun ha => (hs.audio (hf.disc ▸ ha)).frame hf.audio (hf.audioJB ▸ List.prefix_rfl)⟩
  | low _ h =>
    have hf := lowStep_frame h
    refine ⟨fun hd => ?_, fun ha => (hs.high (hf.disc ▸ ha)).frame hf.high (hf.videoJB ▸ List.prefix_rfl),
      fun ha => lowStep_stops (hs.low (hf.disc ▸ ha)) h,
      fun ha => (hs.audio (hf.disc ▸ ha)).frame hf.audio (hf.audioJB ▸ List.prefix_rfl)⟩
    rw [lowStep_done (hs.single hd)] at h
    cases h
  | listen _ h =>
    have hf := audioStep_frame h
    exact ⟨fun hd => hf.low.trans (hs.single hd),
      fun ha => (hs.high (hf.disc ▸ ha)).frame hf.high (hf.videoJB ▸ List.prefix_rfl),
      fun ha => (hs.low (hf.disc ▸ ha)).frame hf.low (hf.videoQueueLow ▸ List.prefix_rfl),
      fun ha => audioStep_stops (hs.audio (hf.disc ▸ ha)) h⟩
  | disconnect ok _ h => exact discStep_stopping hs h

theorem stopping_reachable (h : (system fl cfg).Reachable s) : Stopping cfg s := by
  refine h.invariant (fun s hinit => ?_) fun s l t hs hstep => step_stopping hs hstep
  rw [show s = Agorac.init fl cfg from hinit]
  refine ⟨fun hd => ?_, fun ha => absurd ha Bool.false_ne_true, fun ha => absurd ha Bool.false_ne_true,
    fun ha => absurd ha Bool.false_ne_true⟩
  show (if cfg.enableDual = true then LowPc.test else LowPc.done) = .done
  rw [hd, if_neg Bool.false_ne_true]

/-! ## Behind the sentinel -/

theorem Stopping.high_filled (hs : Stopping cfg s) (ha : s.disc.addedVideo = true) (hpc : s.high = .wait) :
    s.videoJB ≠ [] := by
  intro hnil
  have hq := (hs.high ha).queued (by rw [hpc]; rfl)
  rw [hnil] at hq
  exact not_hasSentinel_nil hq

theorem Stopping.low_filled (hs : Stopping cfg s) (ha : s.disc.addedLow = true) (hpc : s.low = .wait) :
    s.videoQueueLow ≠ [] := by
  intro hnil
  have hq := (hs.low ha).resolve_left (by rw [hpc]; exact LowPc.noConfusion)
  rw [hnil] at hq
  exact not_hasSentinel_nil hq

theorem Stopping.audio_filled (hs : Stopping cfg s) (ha : s.disc.addedAudio = true) (hpc : s.audio = .wait) :
    s.audioJB ≠ [] := by
  intro hnil
  have hq := (hs.audio ha).resolve_left (by rw [hpc]; exact AudioPc.noConfusion)
  rw [hnil] at hq
  exact not_hasSentinel_nil hq

theorem highStep_past (hs : s.high.stopping = true) (h : highStep fl cfg s = some t) :
    t.high.stopping = true := by
  cases highStepped h with
  | forward work hpc | top work hpc | size work _ hpc =>
    rw [hpc] at hs
    exact hs
  | stop => rfl
  | send work _ hpc hf =>
    rw [hpc] at hs
    exact absurd hs (Bool.eq_false_iff.mp hf)
  | test hpc | starve hpc _ | fed hpc _ | nap _ _ hpc _ _ _ | resize _ _ hpc _ _ | full _ _ hpc _ _ | wake _ _ _ hpc _
  | wait hpc _ | null hpc _ | take _ _ hpc _ | sleep _ hpc _ =>
    rw [hpc] at hs
    cases hs

/-- The handlers that are past their sentinel. -/
structure Past (s t : Call F) : Prop where
  high : s.high.stopping = true → t.high.stopping = true
  low : s.low = .done → t.low = .done
  audio : s.audio = .done → t.audio = .done

theorem Past.of_eq (hh : t.high = s.high) (hl : t.low = s.low) (ha : t.audio = s.audio) : Past s t :=
  ⟨fun h => hh ▸ h, fun h => hl.trans h, fun h => ha.trans h⟩

theorem touchFreed_past {l : Label} (h : touchFreed s l = some t) : Past s t := by
  cases freedTouched h with
  | stop => exact ⟨fun _ => rfl, id, id⟩
  | _ => exact .of_eq rfl rfl rfl

theorem step_past {l : Label} (h : (system fl cfg).step s l = some t) : Past s t := by
  cases stepped h with
  | deleted _ h => exact touchFreed_past h
  | tick => exact .of_eq rfl rfl rfl
  | video => exact .of_eq rfl rfl rfl
  | fps timestamp =>
    have hf : ProducerFrame s (finishVideo fl s timestamp) := finishVideo_frame timestamp
    exact .of_eq hf.high hf.low hf.audio
  | audio => exact .of_eq rfl rfl rfl
  | high _ h =>
    have hf := highStep_frame h
    exact ⟨fun hs => highStep_past hs h, fun hl => hf.low.trans hl, fun ha => hf.audio.trans ha⟩
  | low _ h =>
    have hf := lowStep_frame h
    refine ⟨fun hs => hf.high ▸ hs, fun hl => ?_, fun ha => hf.audio.trans ha⟩
    rw [lowStep_done hl] at h
    cases h
  | listen _ h =>
    have hf := audioStep_frame h
    refine ⟨fun hs => hf.high ▸ hs, fun hl => hf.low.trans hl, fun ha => ?_⟩
    rw [audioStep_done ha] at h
    cases h
  | disconnect ok _ h =>
    have hf := discStep_frame h
    exact .of_eq hf.high hf.low hf.audio

theorem run_past (h : (system fl cfg).Run (fun _ _ => True) s t) : Past s t := by
  refine h.invariant (I := fun u => Past s u) (fun u l v _ hu hstep => ?_) (.of_eq rfl rfl rfl)
  have hv : Past u v := step_past hstep
  exact ⟨fun hs => hv.high (hu.high hs), fun hl => hv.low (hu.low hl), fun ha => hv.audio (hu.audio ha)⟩

/-! ## The handlers take what is there, and the sentinel last -/

/-- What a handler at `get` is about to take. -/
def TakesSentinel (queue : List Work) : Prop := ∃ work rest, queue = work :: rest ∧ work.isFinished = true

theorem high_takes (hpc : s.high = .get) (hq : TakesSentinel s.videoJB) (h : highStep fl cfg s = some t) :
    t.high.stopping = true := by
  obtain ⟨work, rest, hq, hf⟩ := hq
  unfold highStep at h
  rw [hpc, hq] at h
  cases h
  cases cfg.enableDual <;> exact hf

theorem low_takes (hpc : s.low = .get) (hq : TakesSentinel s.videoQueueLow) (h : lowStep fl cfg s = some t) :
    t.low = .done := by
  obtain ⟨work, rest, hq, hf⟩ := hq
  unfold lowStep at h
  rw [hpc, hq] at h
  cases h
  exact if_pos hf

theorem audio_takes (hpc : s.audio = .get) (hq : TakesSentinel s.audioJB) (h : audioStep fl s = some t) :
    t.audio = .done := by
  obtain ⟨work, rest, hq, hf⟩ := hq
  unfold audioStep at h
  rw [hpc, hq] at h
  cases h
  exact if_pos hf

/-- The handler stays away from its queue for the rest of the run. -/
def NeverAgain (fl : Floats F) (cfg : Config) (t : Call F) (atQueue : Call F → Prop) : Prop :=
  ∀ u, (system fl cfg).Run (fun _ _ => True) t u → ¬ atQueue u

/-- Behind the sentinel no handler waits at an empty queue, and one that takes it does not come
back to the queue. -/
theorem no_handler_blocked (fl : Floats F) (cfg : Config) (s : Call F) (h : (system fl cfg).Reachable s) :
    (s.disc.addedVideo = true → s.high = .wait → s.videoJB ≠ []) ∧
      (s.disc.addedLow = true → s.low = .wait → s.videoQueueLow ≠ []) ∧
      (s.disc.addedAudio = true → s.audio = .wait → s.audioJB ≠ []) ∧
      ∀ l t, s.freed = false → (system fl cfg).step s l = some t →
        (l = .high → s.high = .get → TakesSentinel s.videoJB →
          NeverAgain fl cfg t fun u => u.high = .wait ∨ u.high = .get) ∧
        (l = .low → s.low = .get → TakesSentinel s.videoQueueLow →
          NeverAgain fl cfg t fun u => u.low = .wait ∨ u.low = .get) ∧
        (l = .listen → s.audio = .get → TakesSentinel s.audioJB →
          NeverAgain fl cfg t fun u => u.audio = .wait ∨ u.audio = .get) := by
  have hs := stopping_reachable h
  refine ⟨hs.high_filled, hs.low_filled, hs.audio_filled, fun l t hlive hstep => ?_⟩
  simp only [system, hlive, Bool.false_eq_true, if_false] at hstep
  refine ⟨fun hl hpc hq u hr hat => ?_, fun hl hpc hq u hr hat => ?_, fun hl hpc hq u hr hat => ?_⟩
  · subst hl
    have hpast := (run_past hr).high (high_takes hpc hq hstep)
    rcases hat with hat | hat <;> rw [hat] at hpast <;> cases hpast
  · subst hl
    have hpast := (run_past hr).low (low_takes hpc hq hstep)
    rcases hat with hat | hat <;> rw [hat] at hpast <;> cases hpast
  · subst hl
    have hpast := (run_past hr).audio (audio_takes hpc hq hstep)
    rcases hat with hat | hat <;> rw [hat] at hpast <;> cases hpast

/-- Dual mode. -/
def stoppedConfig : Config := ⟨true, 120, 8000, 15, 15, 0⟩

/-- All handlers wait, and `agora_disconnect` comes as far as its sleep. -/
def stoppedSteps : List Label :=
  [.high, .high, .low, .listen, .disconnect true, .disconnect true, .disconnect true, .disconnect true,
    .disconnect true]

def stoppedCall : Call Rat :=
  ((system rationals stoppedConfig).exec (fun _ _ => True) (init rationals stoppedConfig) stoppedSteps).getD
    (init rationals stoppedConfig)

theorem no_handler_blocked_stopped :
    (stoppedCall.high = .wait ∧ stoppedCall.low = .wait ∧ stoppedCall.audio = .wait ∧
      stoppedCall.disc = .sleep 2000) ∧
    (stoppedCall.disc.addedVideo = true → stoppedCall.high = .wait → stoppedCall.videoJB ≠ []) ∧
      (stoppedCall.disc.addedLow = true → stoppedCall.low = .wait → stoppedCall.videoQueueLow ≠ []) ∧
      (stoppedCall.disc.addedAudio = true → stoppedCall.audio = .wait → stoppedCall.audioJB ≠ []) ∧
      ∀ l t, stoppedCall.freed = false → (system rationals stoppedConfig).step stoppedCall l = some t →
        (l = .high → stoppedCall.high = .get → TakesSentinel stoppedCall.videoJB →
          NeverAgain rationals stoppedConfig t fun u => u.high = .wait ∨ u.high = .get) ∧
        (l = .low → stoppedCall.low = .get → TakesSentinel stoppedCall.videoQueueLow →
          NeverAgain rationals stoppedConfig t fun u => u.low = .wait ∨ u.low = .get) ∧
        (l = .listen → stoppedCall.audio = .get → TakesSentinel stoppedCall.audioJB →
          NeverAgain rationals stoppedConfig t fun u => u.audio = .wait ∨ u.audio = .get) := by
  refine ⟨by decide +kernel, no_handler_blocked rationals stoppedConfig stoppedCall ?_⟩
  exact LTS.reachable_of_exec rfl stoppedSteps (by decide +kernel)

end Rtmpg.Agorac
