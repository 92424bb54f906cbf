import Rtmpg.L5Call.Handover
import Rtmpg.L5Call.Held
import Rtmpg.L5Call.NoBlock

/-!
# Handlers that start before the context is ready

`agora_init` (`libagorac/agorac.cpp:203-260`) starts the High and the Audio
handler, opens the codecs of the dual stream, and only then writes the fields
the High handler reads: `predictedFps`, `lastBufferingTime`, `reBufferingCount`
and more. Here its statements are steps of their own among those of the
handlers, from whatever the memory of the context held before. The producer
and `agora_disconnect` get the context when `agora_init` returns. If a codec
does not open it returns `NULL` there, and nobody stops the handlers.

The call of `Rtmpg.L5Call.Model` starts behind all that; here is why it may.

* `started_reachable`: until `agora_init` returns no handler gets beyond its
  `waitForWork`, also if it never does.
* `early_start_harmless`: so the hand-over, the flag of the buffering and the
  shutdown are in order from the first step on.
-/
namespace Rtmpg.Agorac

variable {F : Type} {fl : Floats F} {cfg : Config} {s t : Call F}

/-- What `agora_init` does from the first thread on, as far as the handlers see it.
mirrors libagorac/agorac.cpp:209-252 -/
inductive Setup where
  | startHigh
  | startAudio
  | openCodecs
  | startLow
  | fps
  | lastFpsPrintTime
  | lastBufferingTime
  | reBufferingCount
  | lastFrameTimestamp
  | timestampPerSecond
  | predictedFps
  | isJbBuffering
  | lastVideoTimestamp
  | lastAudioTimestamp
  | highVideoFrameCount
  | lowVideoFrameCount
  deriving DecidableEq, Repr

def Setup.run (fl : Floats F) (s : Call F) : Setup → Call F
  | .startHigh | .startAudio | .openCodecs | .startLow => s
  | .fps => { s with fps := 0 }
  | .lastFpsPrintTime => { s with lastFpsPrintTime := s.now }
  | .lastBufferingTime => { s with lastBufferingTime := s.now }
  | .reBufferingCount => { s with reBufferingCount := 0 }
  | .lastFrameTimestamp => { s with lastFrameTimestamp := 0 }
  | .timestampPerSecond => { s with timestampPerSecond := 0 }
  | .predictedFps => { s with predictedFps := fl.ofInt 30 }
  | .isJbBuffering => { s with isJbBuffering := false }
  | .lastVideoTimestamp => { s with lastVideoTimestamp := 0 }
  | .lastAudioTimestamp => { s with lastAudioTimestamp := 0 }
  | .highVideoFrameCount => { s with highVideoFrameCount := 0 }
  | .lowVideoFrameCount => { s with lowVideoFrameCount := 0 }

def setups (dual : Bool) : List Setup :=
  [.startHigh, .startAudio] ++ (if dual then [.openCodecs, .startLow] else []) ++
    [.fps, .lastFpsPrintTime, .lastBufferingTime, .reBufferingCount, .lastFrameTimestamp, .timestampPerSecond,
      .predictedFps, .isJbBuffering, .lastVideoTimestamp, .lastAudioTimestamp, .highVideoFrameCount,
      .lowVideoFrameCount]

/-- What the fields hold before `agora_init` has written them. -/
structure Unwritten (F : Type) where
  fps : Nat
  lastFpsPrintTime : Nat
  lastBufferingTime : Nat
  reBufferingCount : Nat
  lastFrameTimestamp : Int
  timestampPerSecond : Int
  predictedFps : F
  isJbBuffering : Bool
  lastVideoTimestamp : Int
  lastAudioTimestamp : Int
  highVideoFrameCount : Nat
  lowVideoFrameCount : Nat

/-- The queues are there and `isRunning` is set.
mirrors libagorac/agorac.cpp:203-206 -/
def unready (fl : Floats F) (cfg : Config) (m : Unwritten F) : Call F :=
  { init fl cfg with
    fps := m.fps
    lastFpsPrintTime := m.lastFpsPrintTime
    lastBufferingTime := m.lastBufferingTime
    reBufferingCount := m.reBufferingCount
    lastFrameTimestamp := m.lastFrameTimestamp
    timestampPerSecond := m.timestampPerSecond
    predictedFps := m.predictedFps
    isJbBuffering := m.isJbBuffering
    lastVideoTimestamp := m.lastVideoTimestamp
    lastAudioTimestamp := m.lastAudioTimestamp
    highVideoFrameCount := m.highVideoFrameCount
    lowVideoFrameCount := m.lowVideoFrameCount }

/-- `entered`: the High handler has set its `lastSendTime`; `failed`: a codec did not open. -/
structure Startup (F : Type) where
  call : Call F
  todo : List Setup
  entered : Bool
  failed : Bool
  deriving DecidableEq

/-- A thread steps when it has been started, the others when `agora_init` has returned. -/
def Startup.allows (b : Startup F) : Label → Bool
  | .tick => true
  | .high => b.entered
  | .listen => decide (.startAudio ∉ b.todo)
  | .low => decide (.startLow ∉ b.todo)
  | .video _ _ _ | .fps | .audio _ _ | .disconnect _ => b.todo.isEmpty

/-- `setup ok`: the next statement of `agora_init`, `ok` says whether the codecs open. `enter`: the first
one of the High handler. -/
inductive StartLabel where
  | setup (ok : Bool)
  | enter
  | call (l : Label)
  deriving DecidableEq, Repr

def startStep (fl : Floats F) (cfg : Config) (b : Startup F) : StartLabel → Option (Startup F)
  | .setup ok =>
    match b.todo with
    | [] => none
    | next :: rest =>
      if b.failed then none
      else if next = .openCodecs ∧ ok = false then some { b with failed := true }
      else some { b with call := next.run fl b.call, todo := rest }
  | .enter =>
    if .startHigh ∉ b.todo ∧ b.entered = false then
      some { b with call := { b.call with lastSendTime := b.call.now }, entered := true }
    else none
  | .call l => if b.allows l then ((system fl cfg).step b.call l).map fun s => { b with call := s } else none

def starting (fl : Floats F) (cfg : Config) : LTS (Startup F) StartLabel where
  init b := ∃ m, b = ⟨unready fl cfg m, setups cfg.enableDual, false, false⟩
  step := startStep fl cfg

/-! ## Nobody gets beyond `waitForWork` -/

/-- Up to `waitForWork`, and within the bounds of `WaitForBuffering`. -/
def HighPc.early (now : Nat) : HighPc F → Prop
  | .test | .check | .wait => True
  | .fill _ count => count ≤ 200
  | .nap _ count wake => 1 ≤ count ∧ count ≤ 200 ∧ wake ≤ now + 10
  | _ => False

def LowPc.early : LowPc → Bool
  | .test | .wait | .done => true
  | _ => false

def AudioPc.early : AudioPc → Bool
  | .test | .wait => true
  | _ => false

structure Early (s : Call F) : Prop where
  alive : s.freed = false
  running : s.isRunning = true
  videoJB : s.videoJB = []
  videoQueueLow : s.videoQueueLow = []
  audioJB : s.audioJB = []
  acceptedVideo : s.acceptedVideo = []
  acceptedAudio : s.acceptedAudio = []
  high : s.high.early s.now
  low : s.low.early = true
  audio : s.audio.early = true

theorem early_unready (m : Unwritten F) : Early (unready fl cfg m) where
  alive := rfl
  running := rfl
  videoJB := rfl
  videoQueueLow := rfl
  audioJB := rfl
  acceptedVideo := rfl
  acceptedAudio := rfl
  high := trivial
  low := by
    simp only [unready, init]
    cases cfg.enableDual <;> rfl
  audio := rfl

theorem highStep_early (hs : Early s) (h : highStep fl cfg s = some t) : Early t := by
  have hhigh := hs.high
  cases highStepped h with
  | test =>
    rw [hs.running]
    exact { hs with running := rfl, high := trivial }
  | starve => exact { hs with high := Nat.zero_le 200 }
  | nap fps count _ _ hlt _ => exact { hs with high := ⟨Nat.succ_pos count, hlt, le_refl _⟩ }
  | wake fps count wake hpc _ =>
    rw [hpc] at hhigh
    exact { hs with high := hhigh.2.1 }
  | fed | resize | full => exact { hs with high := trivial }
  | wait _ hq => exact absurd hs.videoJB hq
  | null hpc | take _ _ hpc _ | forward _ hpc | top _ hpc | size _ _ hpc | stop _ _ hpc _ | send _ _ hpc _
  | sleep _ hpc _ =>
    rw [hpc] at hhigh
    cases hhigh

theorem lowStep_early (hs : Early s) (h : lowStep fl cfg s = some t) : Early t := by
  have hlow := hs.low
  cases lowStepped h with
  | test =>
    rw [hs.running]
    exact { hs with running := rfl, low := rfl }
  | wait _ hq => exact absurd hs.videoQueueLow hq
  | null hpc | take _ _ hpc _ | send _ hpc =>
    rw [hpc] at hlow
    cases hlow

theorem audioStep_early (hs : Early s) (h : audioStep fl s = some t) : Early t := by
  have haudio := hs.audio
  cases audioStepped h with
  | test =>
    rw [hs.running]
    exact { hs with running := rfl, audio := rfl }
  | wait _ hq => exact absurd hs.audioJB hq
  | null hpc | take _ _ hpc _ | top _ hpc | size _ _ hpc | nap _ _ hpc _ _ | send _ _ hpc _ | wake _ _ _ hpc _
  | sleep _ hpc _ =>
    rw [hpc] at haudio
    cases haudio

theorem HighPc.early_tick {now : Nat} {pc : HighPc F} (h : pc.early now) : pc.early (now + 1) := by
  cases pc with
  | nap fps count wake => exact ⟨h.1, h.2.1, Nat.le_succ_of_le h.2.2⟩
  | _ => exact h

theorem step_early (hs : Early s) {l : Label} (hl : l = .tick ∨ l = .high ∨ l = .low ∨ l = .listen)
    (h : (system fl cfg).step s l = some t) : Early t := by
  cases stepped h with
  | deleted hf =>
    rw [hs.alive] at hf
    cases hf
  | tick => exact { hs with high := HighPc.early_tick hs.high }
  | high _ h => exact highStep_early hs h
  | low _ h => exact lowStep_early hs h
  | listen _ h => exact audioStep_early hs h
  | video | fps | audio | disconnect => simp at hl

theorem Setup.run_early (hs : Early s) (next : Setup) : Early (next.run fl s) := by
  cases next <;> exact { hs with }

/-! ## From the first step on -/

/-- `isJbBuffering` means something once it has been written. -/
structure Started (cfg : Config) (b : Startup F) : Prop where
  relayed : Relayed cfg b.call
  stopping : Stopping cfg b.call
  early : b.todo ≠ [] → Early b.call
  filling : .isJbBuffering ∉ b.todo → Filling b.call
  failed : b.failed = true → b.todo ≠ []

theorem Setup.run_relayed (hs : Relayed cfg s) (next : Setup) : Relayed cfg (next.run fl s) := by
  cases next <;> exact ⟨hs.handover, hs.lowOff, hs.highNull, hs.audioNull⟩

theorem Setup.run_stopping (hs : Stopping cfg s) (next : Setup) : Stopping cfg (next.run fl s) := by
  cases next <;> exact ⟨hs.single, hs.high, hs.low, hs.audio⟩

theorem Early.filling (hs : Early s) (hflag : s.isJbBuffering = false) : Filling s := by
  have hhigh := hs.high
  refine ⟨fun hset => ?_, ?_, fun fps count wake hpc => ?_⟩
  · rw [hflag] at hset
    cases hset
  · cases hpc : s.high with
    | fill =>
      rw [hpc] at hhigh
      exact hhigh
    | nap =>
      rw [hpc] at hhigh
      exact hhigh.2.1
    | _ => exact Nat.zero_le _
  · rw [hpc] at hhigh
    exact ⟨hhigh.1, hhigh.2.2⟩

theorem Setup.run_filling (hs : Early s) (next : Setup) (hfilling : next ≠ .isJbBuffering → Filling s) :
    Filling (next.run fl s) := by
  cases next with
  | isJbBuffering => exact Early.filling (Setup.run_early hs .isJbBuffering) rfl
  | _ => exact (hfilling Setup.noConfusion).of_kept rfl rfl (le_refl _)

theorem started_init (m : Unwritten F) :
    Started cfg (⟨unready fl cfg m, setups cfg.enableDual, false, false⟩ : Startup F) where
  relayed := by
    have hs : Relayed cfg (init fl cfg) := relayed_init
    exact ⟨hs.handover, hs.lowOff, hs.highNull, hs.audioNull⟩
  stopping := by
    have hs : Stopping cfg (init fl cfg) := stopping_reachable ⟨init fl cfg, rfl, .refl⟩
    exact ⟨hs.single, hs.high, hs.low, hs.audio⟩
  early _ := early_unready m
  filling hmem := by
    refine absurd ?_ hmem
    dsimp only
    cases cfg.enableDual <;> decide
  failed := nofun

/-- Who may step before `agora_init` has returned. -/
theorem Startup.allows_early {b : Startup F} {l : Label} (htodo : b.todo ≠ []) (h : b.allows l = true) :
    l = .tick ∨ l = .high ∨ l = .low ∨ l = .listen := by
  have hne : b.todo.isEmpty = false := by simpa using htodo
  cases l with
  | tick => exact .inl rfl
  | high => exact .inr (.inl rfl)
  | low => exact .inr (.inr (.inl rfl))
  | listen => exact .inr (.inr (.inr rfl))
  | video | fps | audio | disconnect =>
    unfold Startup.allows at h
    rw [hne] at h
    cases h

theorem step_started {b c : Startup F} {l : StartLabel} (hb : Started cfg b) (h : startStep fl cfg b l = some c) :
    Started cfg c := by
  obtain ⟨hrelayed, hstopping, hearly, hfilling, hfailed⟩ := hb
  unfold startStep at h
  split at h
  · next ok =>
    cases htodo : b.todo with
    | nil =>
      rw [htodo] at h
      cases h
    | cons next rest =>
      rw [htodo] at h hearly hfilling
      have hs := hearly (List.cons_ne_nil next rest)
      dsimp only at h
      split at h
      · cases h
      · next hgoes =>
        split at h <;> cases h
        · exact ⟨hrelayed, hstopping, fun _ => hs, fun hmem => hfilling (htodo ▸ hmem),
            fun _ => List.cons_ne_nil next rest⟩
        · refine ⟨next.run_relayed hrelayed, next.run_stopping hstopping, fun _ => next.run_early hs,
            fun hmem => next.run_filling hs fun hflag => hfilling ?_, fun hf => absurd hf hgoes⟩
          rw [List.mem_cons, not_or]
          exact ⟨Ne.symm hflag, hmem⟩
  · split at h <;> cases h
    exact ⟨⟨hrelayed.handover, hrelayed.lowOff, hrelayed.highNull, hrelayed.audioNull⟩,
      ⟨hstopping.single, hstopping.high, hstopping.low, hstopping.audio⟩, fun htodo => { hearly htodo with },
      fun hmem => (hfilling hmem).of_kept rfl rfl (le_refl _), hfailed⟩
  · split at h
    · next hallows =>
      obtain ⟨t, hstep, rfl⟩ := Option.map_eq_some_iff.mp h
      exact ⟨relayed_step hrelayed hstep, step_stopping hstopping hstep,
        fun htodo => step_early (hearly htodo) (Startup.allows_early htodo hallows) hstep,
        fun hmem => step_filling (hfilling hmem) hstep, hfailed⟩
    · cases h

theorem started_reachable {b : Startup F} (h : (starting fl cfg).Reachable b) : Started cfg b := by
  refine h.invariant (fun b hinit => ?_) fun _ _ _ => step_started
  obtain ⟨m, rfl⟩ := hinit
  exact started_init m

/-- The handlers are up to `waitForWork`, and there is nothing for them. -/
def Waits (s : Call F) : Prop :=
  s.high.early s.now ∧ s.low.early = true ∧ s.audio.early = true ∧
    s.videoJB = [] ∧ s.videoQueueLow = [] ∧ s.audioJB = []

/-- Nothing is lost, reordered or null between the queues. -/
def HandsOver (s : Call F) : Prop :=
  s.sentHigh <+: s.acceptedVideo ∧ s.sentAudio <+: s.acceptedAudio ∧ s.tookHigh <+: s.acceptedVideo ∧
    s.lowProcessed.Sublist s.tookHigh ∧ s.highNull = false ∧ s.audioNull = false

/-- A handler at `waitForWork` finds something once `agora_disconnect` has been there. -/
def Unblocked (s : Call F) : Prop :=
  (s.disc.addedVideo = true → s.high = .wait → s.videoJB ≠ []) ∧
    (s.disc.addedLow = true → s.low = .wait → s.videoQueueLow ≠ []) ∧
    (s.disc.addedAudio = true → s.audio = .wait → s.audioJB ≠ [])

theorem Relayed.handsOver (hs : Relayed cfg s) : HandsOver s := by
  have htook : s.tookHigh = s.sentHigh ++ s.high.hand := hs.handover.took
  have hvideo : s.acceptedVideo = s.sentHigh ++ s.high.hand ++ media s.videoJB := hs.handover.video
  exact ⟨hs.handover.video.prefix_accepted, hs.handover.audio.prefix_accepted,
    ⟨media s.videoJB, by rw [htook]; exact hvideo.symm⟩, hs.handover.low.sublist_accepted, hs.highNull,
    hs.audioNull⟩

theorem Stopping.unblocked (hs : Stopping cfg s) : Unblocked s := by
  refine ⟨fun ha hpc hnil => ?_, fun ha hpc hnil => ?_, fun ha hpc hnil => ?_⟩
  · have hq := (hs.high ha).queued (by rw [hpc]; rfl)
    rw [hnil] at hq
    exact not_hasSentinel_nil hq
  · have hq := (hs.low ha).resolve_left (by rw [hpc]; exact LowPc.noConfusion)
    rw [hnil] at hq
    exact not_hasSentinel_nil hq
  · have hq := (hs.audio ha).resolve_left (by rw [hpc]; exact AudioPc.noConfusion)
    rw [hnil] at hq
    exact not_hasSentinel_nil hq

/-- Before `agora_init` has written its last field no handler gets beyond its `waitForWork`; and
from the first thread on the queues hand over what they got and no handler is left waiting. -/
theorem early_start_harmless (fl : Floats F) (cfg : Config) (b : Startup F) (h : (starting fl cfg).Reachable b) :
    (b.todo ≠ [] ∨ b.failed = true → Waits b.call) ∧ HandsOver b.call ∧ Unblocked b.call ∧
      (b.todo = [] → b.call.isJbBuffering = true → 1 ≤ b.call.high.naps) := by
  have hb := started_reachable h
  refine ⟨fun hnot => ?_, hb.relayed.handsOver, hb.stopping.unblocked, fun hdone => ?_⟩
  · have hs := hb.early (hnot.elim id hb.failed)
    exact ⟨hs.high, hs.low, hs.audio, hs.videoJB, hs.videoQueueLow, hs.audioJB⟩
  · exact (hb.filling (by rw [hdone]; exact List.not_mem_nil)).flag

/-- What was on the heap. -/
def heap : Unwritten Rat := ⟨200, 0, 0, 3, 7, 9, 0, true, 5000, 5000, 99, 98⟩

/-- With a `predictedFps` of 0 the High handler naps before `agora_init` has returned; then come the first
frame and `agora_disconnect`. -/
def earlySteps : List StartLabel :=
  List.flatten [[.setup true, .enter, .call .tick, .call .high, .call .high, .call .high],
    List.replicate 13 (.setup true),
    [.call (.video [1] true 0), .call .fps, .call .listen, .call (.disconnect true), .call (.disconnect true),
      .call (.disconnect true)]]

def earlyStart : Startup Rat :=
  ((starting rationals bufferedConfig).exec (fun _ _ => True)
    ⟨unready rationals bufferedConfig heap, setups false, false, false⟩ earlySteps).getD
      ⟨unready rationals bufferedConfig heap, setups false, false, false⟩

theorem early_start_harmless_nap :
    (earlyStart.todo = [] ∧ earlyStart.call.high = .nap 0 1 11 ∧ earlyStart.call.isJbBuffering = false ∧
      earlyStart.call.audio = .wait ∧ earlyStart.call.disc = .sleep 2001) ∧
    (earlyStart.todo ≠ [] ∨ earlyStart.failed = true → Waits earlyStart.call) ∧
      HandsOver earlyStart.call ∧ Unblocked earlyStart.call ∧
      (earlyStart.todo = [] → earlyStart.call.isJbBuffering = true → 1 ≤ earlyStart.call.high.naps) := by
  refine ⟨by decide +kernel, early_start_harmless rationals bufferedConfig earlyStart ?_⟩
  exact LTS.reachable_of_exec ⟨heap, rfl⟩ earlySteps (by decide +kernel)

end Rtmpg.Agorac
