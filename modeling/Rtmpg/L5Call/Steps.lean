import Rtmpg.L5Call.Model

/-!
# What a step of a party can be

The step functions of `Rtmpg.L5Call.Model`, by what they do: one case for
each way through the code, with the tests that lead there and the state
behind it. `highStepped`, `lowStepped`, `audioStepped`, `discStepped` and
`freedTouched` say that there are no others.
-/
namespace Rtmpg.Agorac

variable {F : Type} {fl : Floats F} {cfg : Config} {s t : Call F}

inductive HighStepped (fl : Floats F) (cfg : Config) (s : Call F) : Call F → Prop
  | test : s.high = .test → HighStepped fl cfg s { s with high := if s.isRunning then .check else .done }
  | starve : s.high = .check → starved fl s = true →
      HighStepped fl cfg s { s with high := .fill s.predictedFps 0 }
  | fed : s.high = .check → starved fl s = false →
      HighStepped fl cfg s { s with lastSendTime := s.now, high := .wait }
  | nap (fps : F) (count : Nat) : s.high = .fill fps count → s.isRunning = true → count < 200 →
      short fl fps s = true →
      HighStepped fl cfg s { s with isJbBuffering := true, high := .nap fps (count + 1) (s.now + 10) }
  | resize (fps : F) (count : Nat) : s.high = .fill fps count →
      ¬ (s.isRunning = true ∧ count < 200 ∧ short fl fps s = true) → s.jbSize < cfg.maxJbSize →
      HighStepped fl cfg s
        { resizeBuffer cfg { s with isJbBuffering := false } with lastSendTime := s.now, high := .wait }
  | full (fps : F) (count : Nat) : s.high = .fill fps count →
      ¬ (s.isRunning = true ∧ count < 200 ∧ short fl fps s = true) → cfg.maxJbSize ≤ s.jbSize →
      HighStepped fl cfg s { s with isJbBuffering := false, lastSendTime := s.now, high := .wait }
  | wake (fps : F) (count wake : Nat) : s.high = .nap fps count wake → wake ≤ s.now →
      HighStepped fl cfg s { s with high := .fill fps count }
  | wait : s.high = .wait → s.videoJB ≠ [] → HighStepped fl cfg s { s with high := .get }
  | null : s.high = .get → s.videoJB = [] → HighStepped fl cfg s { s with highNull := true, high := .done }
  | take (work : Work) (rest : List Work) : s.high = .get → s.videoJB = work :: rest →
      HighStepped fl cfg s { s with
        videoJB := rest
        tookHigh := s.tookHigh ++ media [work]
        high := if cfg.enableDual then .forward work else .top work }
  | forward (work : Work) : s.high = .forward work →
      HighStepped fl cfg s { s with videoQueueLow := s.videoQueueLow ++ [work], high := .top work }
  | top (work : Work) : s.high = .top work →
      HighStepped fl cfg s
        { s with high := .size work (sleepTimeOf s.videoJB.head? work.timestamp s.lastVideoTimestamp) }
  | size (work : Work) (sleepTime : Int) : s.high = .size work sleepTime →
      HighStepped fl cfg s
        { s with high := .send work (nextSampleOf fl s.now s.videoJB.length s.jbSize sleepTime) }
  | stop (work : Work) (nextSample : Int) : s.high = .send work nextSample → work.isFinished = true →
      HighStepped fl cfg s { s with high := .done }
  | send (work : Work) (nextSample : Int) : s.high = .send work nextSample → work.isFinished = false →
      HighStepped fl cfg s { s with
        sentHigh := s.sentHigh ++ [work]
        lastVideoTimestamp := work.timestamp
        highVideoFrameCount := (s.highVideoFrameCount + 1) % 256
        high := .sleep nextSample }
  | sleep (nextSample : Int) : s.high = .sleep nextSample → nextSample ≤ s.now →
      HighStepped fl cfg s { s with high := if s.isRunning then .check else .done }

theorem highStepped (h : highStep fl cfg s = some t) : HighStepped fl cfg s t := by
  unfold highStep at h
  split at h
  · next hpc =>
    cases h
    exact .test hpc
  · next hpc =>
    split at h <;> cases h
    · next hstarved => exact .starve hpc hstarved
    · next hstarved => exact .fed hpc (Bool.eq_false_of_not_eq_true hstarved)
  · next fps count hpc =>
    split at h <;> cases h
    · next hnap => exact .nap fps count hpc hnap.1 hnap.2.1 hnap.2.2
    · next hend =>
      unfold endBuffering
      dsimp only
      split
      · next hlt => exact .resize fps count hpc hend hlt
      · next hlt => exact .full fps count hpc hend (Nat.le_of_not_lt hlt)
  · next fps count wake hpc =>
    split at h <;> cases h
    next hwake => exact .wake fps count wake hpc hwake
  · next hpc =>
    split at h <;> cases h
    next hq => exact .wait hpc hq
  · next hpc =>
    split at h <;> cases h
    · next hq => exact .null hpc hq
    · next work rest hq => exact .take work rest hpc hq
  · next work hpc =>
    cases h
    exact .forward work hpc
  · next work hpc =>
    cases h
    exact .top work hpc
  · next work sleepTime hpc =>
    cases h
    exact .size work sleepTime hpc
  · next work nextSample hpc =>
    split at h <;> cases h
    · next hf => exact .stop work nextSample hpc hf
    · next hf => exact .send work nextSample hpc (Bool.eq_false_of_not_eq_true hf)
  · next nextSample hpc =>
    split at h <;> cases h
    next hdue => exact .sleep nextSample hpc hdue
  · cases h

inductive LowStepped (fl : Floats F) (cfg : Config) (s : Call F) : Call F → Prop
  | test : s.low = .test → LowStepped fl cfg s { s with low := if s.isRunning then .wait else .done }
  | wait : s.low = .wait → s.videoQueueLow ≠ [] → LowStepped fl cfg s { s with low := .get }
  | null : s.low = .get → s.videoQueueLow = [] →
      LowStepped fl cfg s { s with low := if s.isRunning then .wait else .done }
  | take (work : Work) (rest : List Work) : s.low = .get → s.videoQueueLow = work :: rest →
      LowStepped fl cfg s
        { s with videoQueueLow := rest, low := if work.isFinished then .done else .send work }
  | send (work : Work) : s.low = .send work →
      LowStepped fl cfg s { s with
        lowProcessed := s.lowProcessed ++ [work]
        lowVideoFrameCount :=
          if lowWanted fl cfg s work then (s.lowVideoFrameCount + 1) % 256 else s.lowVideoFrameCount
        low := .test }

theorem lowStepped (h : lowStep fl cfg s = some t) : LowStepped fl cfg s t := by
  unfold lowStep at h
  split at h
  · next hpc =>
    cases h
    exact .test hpc
  · next hpc =>
    split at h <;> cases h
    next hq => exact .wait hpc hq
  · next hpc =>
    split at h <;> cases h
    · next hq => exact .null hpc hq
    · next work rest hq => exact .take work rest hpc hq
  · next work hpc =>
    cases h
    exact .send work hpc
  · cases h

inductive AudioStepped (fl : Floats F) (s : Call F) : Call F → Prop
  | test : s.audio = .test → AudioStepped fl s { s with audio := if s.isRunning then .wait else .done }
  | wait : s.audio = .wait → s.audioJB ≠ [] → AudioStepped fl s { s with audio := .get }
  | null : s.audio = .get → s.audioJB = [] →
      AudioStepped fl s { s with audioNull := true, audio := if s.isRunning then .wait else .done }
  | take (work : Work) (rest : List Work) : s.audio = .get → s.audioJB = work :: rest →
      AudioStepped fl s { s with audioJB := rest, audio := if work.isFinished then .done else .top work }
  | top (work : Work) : s.audio = .top work →
      AudioStepped fl s
        { s with audio := .size work (sleepTimeOf s.audioJB.head? work.timestamp s.lastAudioTimestamp) }
  | size (work : Work) (sleepTime : Int) : s.audio = .size work sleepTime →
      AudioStepped fl s
        { s with audio := .hold work (nextSampleOf fl s.now s.audioJB.length s.jbSize sleepTime) }
  | nap (work : Work) (nextSample : Int) : s.audio = .hold work nextSample → s.isJbBuffering = true →
      s.isRunning = true → AudioStepped fl s { s with audio := .nap work nextSample (s.now + 10) }
  | send (work : Work) (nextSample : Int) : s.audio = .hold work nextSample →
      ¬ (s.isJbBuffering = true ∧ s.isRunning = true) →
      AudioStepped fl s { s with
        sentAudio := s.sentAudio ++ [work]
        lastAudioTimestamp := work.timestamp
        audio := .sleep nextSample }
  | wake (work : Work) (nextSample : Int) (wake : Nat) : s.audio = .nap work nextSample wake → wake ≤ s.now →
      AudioStepped fl s { s with audio := .hold work nextSample }
  | sleep (nextSample : Int) : s.audio = .sleep nextSample → nextSample ≤ s.now →
      AudioStepped fl s { s with audio := if s.isRunning then .wait else .done }

theorem audioStepped (h : audioStep fl s = some t) : AudioStepped fl s t := by
  unfold audioStep at h
  split at h
  · next hpc =>
    cases h
    exact .test hpc
  · next hpc =>
    split at h <;> cases h
    next hq => exact .wait hpc hq
  · next hpc =>
    split at h <;> cases h
    · next hq => exact .null hpc hq
    · next work rest hq => exact .take work rest hpc hq
  · next work hpc =>
    cases h
    exact .top work hpc
  · next work sleepTime hpc =>
    cases h
    exact .size work sleepTime hpc
  · next work nextSample hpc =>
    split at h <;> cases h
    · next hhold => exact .nap work nextSample hpc hhold.1 hhold.2
    · next hhold => exact .send work nextSample hpc hhold
  · next work nextSample wake hpc =>
    split at h <;> cases h
    next hwake => exact .wake work nextSample wake hpc hwake
  · next nextSample hpc =>
    split at h <;> cases h
    next hdue => exact .sleep nextSample hpc hdue
  · cases h

inductive DiscStepped (cfg : Config) (s : Call F) (ok : Bool) : Call F → Prop
  | call : s.disc = .idle →
      DiscStepped cfg s ok { s with isRunning := false, disconnectAt := some s.now, disc := .addVideo }
  | addVideo : s.disc = .addVideo →
      DiscStepped cfg s ok { s with
        videoJB := s.videoJB ++ [sentinel cfg s]
        disc := if cfg.enableDual then .clearLow else .addAudio }
  | clearLow : s.disc = .clearLow → DiscStepped cfg s ok { s with videoQueueLow := [], disc := .addLow }
  | addLow : s.disc = .addLow →
      DiscStepped cfg s ok { s with videoQueueLow := s.videoQueueLow ++ [sentinel cfg s], disc := .addAudio }
  | addAudio : s.disc = .addAudio →
      DiscStepped cfg s ok { s with audioJB := s.audioJB ++ [sentinel cfg s], disc := .sleep (s.now + 2000) }
  | finish (wake : Nat) : s.disc = .sleep wake → wake ≤ s.now →
      DiscStepped cfg s ok { s with freed := ok, disc := .done }

theorem discStepped {ok : Bool} (h : discStep cfg s ok = some t) : DiscStepped cfg s ok t := by
  unfold discStep at h
  split at h
  · next hpc =>
    cases h
    exact .call hpc
  · next hpc =>
    cases h
    exact .addVideo hpc
  · next hpc =>
    cases h
    exact .clearLow hpc
  · next hpc =>
    cases h
    exact .addLow hpc
  · next hpc =>
    cases h
    exact .addAudio hpc
  · next wake hpc =>
    split at h <;> cases h
    next hwake => exact .finish wake hpc hwake
  · cases h

/-- With the context deleted. -/
inductive FreedTouched (s : Call F) : Label → Call F → Prop
  | tick : FreedTouched s .tick { s with now := s.now + 1 }
  | stop (work : Work) (nextSample : Int) : s.high = .send work nextSample → work.isFinished = true →
      FreedTouched s .high { s with high := .done }
  | high : s.high ≠ .done → (∀ work nextSample, s.high = .send work nextSample → work.isFinished = false) →
      asleep s.now s.high = false → FreedTouched s .high { s with uaf := true }
  | low : s.low ≠ .done → FreedTouched s .low { s with uaf := true }
  | listen : s.audio ≠ .done → audioAsleep s.now s.audio = false → FreedTouched s .listen { s with uaf := true }

theorem freedTouched {l : Label} (h : touchFreed s l = some t) : FreedTouched s l t := by
  unfold touchFreed at h
  split at h
  · cases h
    exact .tick
  · split at h
    · cases h
    · next hpc =>
      cases h
      exact .stop _ _ hpc rfl
    · next hdone hstop =>
      split at h <;> cases h
      next hawake =>
        refine .high hdone (fun work nextSample hpc => ?_) (Bool.eq_false_of_not_eq_true hawake)
        obtain ⟨id, buffer, isKeyFrame, isFinished, timestamp⟩ := work
        cases isFinished with
        | false => rfl
        | true => exact absurd hpc (hstop id buffer isKeyFrame timestamp nextSample)
  · split at h <;> cases h
    next hlow => exact .low hlow
  · split at h <;> cases h
    next haudio =>
      rw [not_or, Bool.not_eq_true] at haudio
      exact .listen haudio.1 haudio.2
  · cases h

end Rtmpg.Agorac
