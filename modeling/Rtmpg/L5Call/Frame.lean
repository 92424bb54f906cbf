import Rtmpg.L5Call.Steps

/-!
# What a party leaves alone

A step of a handler changes neither the clock nor what `agora_disconnect`
writes, and no other handler. Of the queues it takes from its own only; the
High handler also adds to the low one. The producer and `agora_disconnect`
move no handler, and a handler that is done stays so.

`stepped` says once what a step of the system can be. For each party there is
one equation with the fields it may write (`highStep_eq` and so on); what
another module needs to know of the others follows from it.
-/
namespace Rtmpg.Agorac

variable {F : Type} {fl : Floats F} {cfg : Config} {s t : Call F}

structure Kept (s t : Call F) : Prop where
  now : t.now = s.now
  isRunning : t.isRunning = s.isRunning
  freed : t.freed = s.freed
  disc : t.disc = s.disc
  disconnectAt : t.disconnectAt = s.disconnectAt
  uaf : t.uaf = s.uaf

structure HighFrame (s t : Call F) : Prop extends Kept s t where
  low : t.low = s.low
  audio : t.audio = s.audio
  audioJB : t.audioJB = s.audioJB
  audioNull : t.audioNull = s.audioNull
  videoQueueLow : s.videoQueueLow <+: t.videoQueueLow

structure LowFrame (s t : Call F) : Prop extends Kept s t where
  high : t.high = s.high
  audio : t.audio = s.audio
  videoJB : t.videoJB = s.videoJB
  audioJB : t.audioJB = s.audioJB
  highNull : t.highNull = s.highNull
  audioNull : t.audioNull = s.audioNull

structure AudioFrame (s t : Call F) : Prop extends Kept s t where
  high : t.high = s.high
  low : t.low = s.low
  videoJB : t.videoJB = s.videoJB
  videoQueueLow : t.videoQueueLow = s.videoQueueLow
  highNull : t.highNull = s.highNull

structure ProducerFrame (s t : Call F) : Prop extends Kept s t where
  high : t.high = s.high
  low : t.low = s.low
  audio : t.audio = s.audio
  videoJB : s.videoJB <+: t.videoJB
  audioJB : s.audioJB <+: t.audioJB
  videoQueueLow : t.videoQueueLow = s.videoQueueLow
  highNull : t.highNull = s.highNull
  audioNull : t.audioNull = s.audioNull

structure DiscFrame (s t : Call F) : Prop where
  now : t.now = s.now
  uaf : t.uaf = s.uaf
  high : t.high = s.high
  low : t.low = s.low
  audio : t.audio = s.audio
  highNull : t.highNull = s.highNull
  audioNull : t.audioNull = s.audioNull

theorem highStep_done (hpc : s.high = .done) : highStep fl cfg s = none := by
  unfold highStep
  rw [hpc]

theorem lowStep_done (hpc : s.low = .done) : lowStep fl cfg s = none := by
  unfold lowStep
  rw [hpc]

theorem audioStep_done (hpc : s.audio = .done) : audioStep fl s = none := by
  unfold audioStep
  rw [hpc]

/-! ## A step, by party -/

inductive Stepped (fl : Floats F) (cfg : Config) (s : Call F) : Label → Call F → Prop
  | deleted {l : Label} {t : Call F} : s.freed = true → touchFreed s l = some t → Stepped fl cfg s l t
  | tick : s.freed = false → Stepped fl cfg s .tick { s with now := s.now + 1 }
  | video (buffer : Bytes) (isKeyFrame : Bool) (timestamp : Int) : s.freed = false → s.producing = none →
      Stepped fl cfg s (.video buffer isKeyFrame timestamp) (addVideo s buffer isKeyFrame timestamp)
  | fps (timestamp : Int) : s.freed = false → s.producing = some timestamp →
      Stepped fl cfg s .fps (finishVideo fl s timestamp)
  | audio (buffer : Bytes) (timestamp : Int) : s.freed = false → s.producing = none →
      Stepped fl cfg s (.audio buffer timestamp) (addAudio s buffer timestamp)
  | high {t : Call F} : s.freed = false → highStep fl cfg s = some t → Stepped fl cfg s .high t
  | low {t : Call F} : s.freed = false → lowStep fl cfg s = some t → Stepped fl cfg s .low t
  | listen {t : Call F} : s.freed = false → audioStep fl s = some t → Stepped fl cfg s .listen t
  | disconnect (ok : Bool) {t : Call F} : s.freed = false → discStep cfg s ok = some t →
      Stepped fl cfg s (.disconnect ok) t

theorem stepped {l : Label} (h : (system fl cfg).step s l = some t) : Stepped fl cfg s l t := by
  unfold system at h
  dsimp only at h
  split at h
  · next hf => exact .deleted hf h
  · next hf =>
    rw [Bool.not_eq_true] at hf
    cases l with
    | tick =>
      cases h
      exact .tick hf
    | video buffer isKeyFrame timestamp =>
      unfold liveStep at h
      dsimp only at h
      split at h <;> cases h
      next hp => exact .video buffer isKeyFrame timestamp hf hp
    | fps =>
      obtain ⟨timestamp, hp, rfl⟩ := Option.map_eq_some_iff.mp h
      exact .fps timestamp hf hp
    | audio buffer timestamp =>
      unfold liveStep at h
      dsimp only at h
      split at h <;> cases h
      next hp => exact .audio buffer timestamp hf hp
    | high => exact .high hf h
    | low => exact .low hf h
    | listen => exact .listen hf h
    | disconnect ok => exact .disconnect ok hf h

/-! ## The fields a step may write -/

theorem highStep_eq (h : highStep fl cfg s = some t) : t = { s with
    isJbBuffering := t.isJbBuffering
    lastBufferingTime := t.lastBufferingTime
    jbSize := t.jbSize
    reBufferingCount := t.reBufferingCount
    lastVideoTimestamp := t.lastVideoTimestamp
    highVideoFrameCount := t.highVideoFrameCount
    videoJB := t.videoJB
    videoQueueLow := t.videoQueueLow
    high := t.high
    lastSendTime := t.lastSendTime
    tookHigh := t.tookHigh
    sentHigh := t.sentHigh
    highNull := t.highNull } := by
  cases highStepped h <;> rfl

theorem lowStep_eq (h : lowStep fl cfg s = some t) : t = { s with
    lowVideoFrameCount := t.lowVideoFrameCount
    videoQueueLow := t.videoQueueLow
    low := t.low
    lowProcessed := t.lowProcessed } := by
  cases lowStepped h <;> rfl

theorem audioStep_eq (h : audioStep fl s = some t) : t = { s with
    lastAudioTimestamp := t.lastAudioTimestamp
    audioJB := t.audioJB
    audio := t.audio
    sentAudio := t.sentAudio
    audioNull := t.audioNull } := by
  cases audioStepped h <;> rfl

theorem finishVideo_eq (timestamp : Int) : finishVideo fl s timestamp = { s with
    fps := (finishVideo fl s timestamp).fps
    predictedFps := (finishVideo fl s timestamp).predictedFps
    lastFpsPrintTime := (finishVideo fl s timestamp).lastFpsPrintTime
    lastFrameTimestamp := (finishVideo fl s timestamp).lastFrameTimestamp
    timestampPerSecond := (finishVideo fl s timestamp).timestampPerSecond
    highVideoFrameCount := (finishVideo fl s timestamp).highVideoFrameCount
    lowVideoFrameCount := (finishVideo fl s timestamp).lowVideoFrameCount
    producing := (finishVideo fl s timestamp).producing } := by
  unfold finishVideo updatePredictedFps
  dsimp only
  split <;> split <;> rfl

theorem discStep_eq {ok : Bool} (h : discStep cfg s ok = some t) : t = { s with
    isRunning := t.isRunning
    videoJB := t.videoJB
    audioJB := t.audioJB
    videoQueueLow := t.videoQueueLow
    freed := t.freed
    disc := t.disc
    disconnectAt := t.disconnectAt } := by
  cases discStepped h <;> rfl

theorem touchFreed_eq {l : Label} (h : touchFreed s l = some t) : t = { s with
    now := t.now
    high := t.high
    uaf := t.uaf } := by
  cases freedTouched h <;> rfl

/-! ## The frames -/

/-- The High handler puts into the low queue what it forwards, and takes nothing from it. -/
theorem highStep_low_queue (h : highStep fl cfg s = some t) : s.videoQueueLow <+: t.videoQueueLow := by
  cases highStepped h with
  | forward work => exact List.prefix_append ..
  | _ => exact List.prefix_rfl

theorem highStep_frame (h : highStep fl cfg s = some t) : HighFrame s t := by
  have hlow := highStep_low_queue h
  rw [highStep_eq h] at hlow ⊢
  exact ⟨⟨rfl, rfl, rfl, rfl, rfl, rfl⟩, rfl, rfl, rfl, rfl, hlow⟩

theorem lowStep_frame (h : lowStep fl cfg s = some t) : LowFrame s t := by
  rw [lowStep_eq h]
  exact ⟨⟨rfl, rfl, rfl, rfl, rfl, rfl⟩, rfl, rfl, rfl, rfl, rfl, rfl⟩

theorem audioStep_frame (h : audioStep fl s = some t) : AudioFrame s t := by
  rw [audioStep_eq h]
  exact ⟨⟨rfl, rfl, rfl, rfl, rfl, rfl⟩, rfl, rfl, rfl, rfl, rfl⟩

theorem addVideo_frame (buffer : Bytes) (isKeyFrame : Bool) (timestamp : Int) :
    ProducerFrame s (addVideo s buffer isKeyFrame timestamp) :=
  ⟨⟨rfl, rfl, rfl, rfl, rfl, rfl⟩, rfl, rfl, rfl, List.prefix_append .., List.prefix_rfl, rfl, rfl, rfl⟩

theorem addAudio_frame (buffer : Bytes) (timestamp : Int) : ProducerFrame s (addAudio s buffer timestamp) :=
  ⟨⟨rfl, rfl, rfl, rfl, rfl, rfl⟩, rfl, rfl, rfl, List.prefix_rfl, List.prefix_append .., rfl, rfl, rfl⟩

theorem finishVideo_frame (timestamp : Int) : ProducerFrame s (finishVideo fl s timestamp) := by
  rw [finishVideo_eq]
  exact ⟨⟨rfl, rfl, rfl, rfl, rfl, rfl⟩, rfl, rfl, rfl, List.prefix_rfl, List.prefix_rfl, rfl, rfl, rfl⟩

theorem discStep_frame {ok : Bool} (h : discStep cfg s ok = some t) : DiscFrame s t := by
  rw [discStep_eq h]
  exact ⟨rfl, rfl, rfl, rfl, rfl, rfl, rfl⟩

theorem touchFreed_frame {l : Label} (h : touchFreed s l = some t) :
    t.freed = s.freed ∧ t.low = s.low ∧ t.highNull = s.highNull ∧ t.audioNull = s.audioNull := by
  rw [touchFreed_eq h]
  exact ⟨rfl, rfl, rfl, rfl⟩

end Rtmpg.Agorac
