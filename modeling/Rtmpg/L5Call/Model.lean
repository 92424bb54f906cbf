import Rtmpg.Core.LTS
import Rtmpg.Core.Bytes

/-!
# One call: the producer, the handlers and the disconnect

`libagorac/agorac.cpp:337-625`, `libagorac/helpers/utilities.cpp:28-54,85-135`
and `libagorac/workqueue.h`. The state starts when `agora_init` has returned
and no handler has tested its loop condition yet. A label is the next step of
one party:

* `video` and `audio`: the `add` of `agora_send_video` / `agora_send_audio`;
  `fps`: the rest of `agora_send_video`;
* `high`, `low`, `listen`: the next step of the High, Low and Audio handler;
* `disconnect ok`: the next step of `agora_disconnect`, the first of them its
  call. In the last one `ok` says that `connection->disconnect()` returns 0;
  otherwise `agora_disconnect` returns there and deletes nothing;
* `tick`: a millisecond passes.

A step holds at most one queue operation; `waitForWork` returns in a step of
its own, enabled while the queue is not empty. `Rtmpg.L5Call.WorkQueue` has
these operations over the mutex and the condition variable, and
`Rtmpg.L5Call.Queues` that the steps here are made of them. To hand a frame to
the SDK and to count it is one step here; `Rtmpg.L5Call.Quota` takes it apart.
Steps of a party that is blocked or asleep are not enabled. A handler that
touches a deleted context sets `uaf` and is not followed further. `highNull`
and `audioNull` say that a `get` gave null; the High handler dereferences it
and is not followed further.

The queues keep their content in the state when the context is deleted; no
step reads them any more. `Floats` is the arithmetic on `float`. Timestamps
have 32 bits in RTMP, so `long` is `Int`. The state has ghost lists of what
was accepted, taken and handed to the SDK. Logging, the fields only logging
reads, and `lastVideoSampingInterval` are left out.
-/
namespace Rtmpg.Agorac

/-- `float`, and the scaling of a sleep by 0.95 with its conversion to `long`. -/
structure Floats (F : Type) where
  ofInt : Int → F
  mul : F → F → F
  div : F → F → F
  lt : F → F → Bool
  scale095 : Int → Int

/-- Exact arithmetic. It is that of `float` and `double` as long as no result has to be
rounded and nothing is divided by zero: that gives 0 here, and an infinity or a NaN there,
for a `dfps` of 0 as well. -/
def rationals : Floats Rat where
  ofInt := fun n => n
  mul := (· * ·)
  div := (· / ·)
  lt := fun a b => decide (a < b)
  scale095 := fun n => (n * 95).tdiv 100

/-- `Work`, with the identity of the object. `timestamp` of the shutdown sentinel is
not initialised. -/
structure Work where
  id : Nat
  buffer : Bytes
  isKeyFrame : Bool
  isFinished : Bool
  timestamp : Int
  deriving DecidableEq, Repr

/-- Without the sentinels. -/
def media (l : List Work) : List Work := l.filter fun work => !work.isFinished

/-- What does not change during a call. -/
structure Config where
  enableDual : Bool
  initialJbSize : Nat
  maxJbSize : Nat
  timeToIncreaseJbSize : Nat
  dfps : Nat
  sentinelTimestamp : Int
  deriving DecidableEq, Repr

/-- The High handler; `fps` is the `predictedFps` its buffering started with.
mirrors libagorac/agorac.cpp:432-504 and helpers/utilities.cpp:85-116 -/
inductive HighPc (F : Type) where
  | test
  | check
  | fill (fps : F) (count : Nat)
  | nap (fps : F) (count wake : Nat)
  | wait
  | get
  | forward (work : Work)
  | top (work : Work)
  | size (work : Work) (sleepTime : Int)
  | send (work : Work) (nextSample : Int)
  | sleep (nextSample : Int)
  | done
  deriving DecidableEq, Repr

/-- mirrors libagorac/agorac.cpp:506-528 -/
inductive LowPc where
  | test
  | wait
  | get
  | send (work : Work)
  | done
  deriving DecidableEq, Repr

/-- `hold` is the test of the inner loop, `nap` its sleep.
mirrors libagorac/agorac.cpp:530-563 -/
inductive AudioPc where
  | test
  | wait
  | get
  | top (work : Work)
  | size (work : Work) (sleepTime : Int)
  | hold (work : Work) (nextSample : Int)
  | nap (work : Work) (nextSample : Int) (wake : Nat)
  | sleep (nextSample : Int)
  | done
  deriving DecidableEq, Repr

/-- `agora_disconnect`.
mirrors libagorac/agorac.cpp:564-625 -/
inductive DiscPc where
  | idle
  | addVideo
  | clearLow
  | addLow
  | addAudio
  | sleep (wake : Nat)
  | done
  deriving DecidableEq, Repr

structure Call (F : Type) where
  now : Nat
  -- `agora_context_t`
  isRunning : Bool
  isJbBuffering : Bool
  fps : Nat
  predictedFps : F
  lastFpsPrintTime : Nat
  lastBufferingTime : Nat
  jbSize : Nat
  reBufferingCount : Nat
  lastFrameTimestamp : Int
  timestampPerSecond : Int
  lastVideoTimestamp : Int
  lastAudioTimestamp : Int
  highVideoFrameCount : Nat
  lowVideoFrameCount : Nat
  videoJB : List Work
  audioJB : List Work
  videoQueueLow : List Work
  freed : Bool
  -- the parties
  producing : Option Int
  nextId : Nat
  high : HighPc F
  lastSendTime : Nat
  low : LowPc
  audio : AudioPc
  disc : DiscPc
  disconnectAt : Option Nat
  -- ghosts
  acceptedVideo : List Work
  acceptedAudio : List Work
  tookHigh : List Work
  sentHigh : List Work
  lowProcessed : List Work
  sentAudio : List Work
  highNull : Bool
  audioNull : Bool
  uaf : Bool
  deriving DecidableEq

inductive Label where
  | tick
  | video (buffer : Bytes) (isKeyFrame : Bool) (timestamp : Int)
  | fps
  | audio (buffer : Bytes) (timestamp : Int)
  | high
  | low
  | listen
  | disconnect (ok : Bool)
  deriving DecidableEq, Repr

variable {F : Type}

/-- mirrors libagorac/agorac.cpp:203-260 -/
def init (fl : Floats F) (cfg : Config) : Call F where
  now := 0
  isRunning := true
  isJbBuffering := false
  fps := 0
  predictedFps := fl.ofInt 30
  lastFpsPrintTime := 0
  lastBufferingTime := 0
  jbSize := cfg.initialJbSize
  reBufferingCount := 0
  lastFrameTimestamp := 0
  timestampPerSecond := 0
  lastVideoTimestamp := 0
  lastAudioTimestamp := 0
  highVideoFrameCount := 0
  lowVideoFrameCount := 0
  videoJB := []
  audioJB := []
  videoQueueLow := []
  freed := false
  producing := none
  nextId := 0
  high := .test
  lastSendTime := 0
  low := if cfg.enableDual then .test else .done
  audio := .test
  disc := .idle
  disconnectAt := none
  acceptedVideo := []
  acceptedAudio := []
  tookHigh := []
  sentHigh := []
  lowProcessed := []
  sentAudio := []
  highNull := false
  audioNull := false
  uaf := false

/-! ## The producer -/

/-- mirrors libagorac/agorac.cpp:337-360 -/
def updatePredictedFps (fl : Floats F) (s : Call F) (timestamp : Int) : Call F :=
  let fps := (s.fps + 1) % 256
  let perSecond :=
    if s.lastFrameTimestamp ≠ 0 then s.timestampPerSecond + (timestamp - s.lastFrameTimestamp)
    else s.timestampPerSecond
  let s := { s with fps := fps, timestampPerSecond := perSecond, lastFrameTimestamp := timestamp }
  if 1000 ≤ (s.now : Int) - s.lastFpsPrintTime then
    let average := fl.div (fl.ofInt perSecond) (fl.ofInt fps)
    { s with
      predictedFps := if fl.lt (fl.div (fl.ofInt 1000) (fl.ofInt 255)) average then
        fl.div (fl.ofInt 1000) average else s.predictedFps
      timestampPerSecond := 0 }
  else s

/-- The rest of `agora_send_video`.
mirrors libagorac/agorac.cpp:374-398 -/
def finishVideo (fl : Floats F) (s : Call F) (timestamp : Int) : Call F :=
  let s := { updatePredictedFps fl s timestamp with producing := none }
  if 1000 ≤ (s.now : Int) - s.lastFpsPrintTime then
    { s with highVideoFrameCount := 0, lowVideoFrameCount := 0, lastFpsPrintTime := s.now, fps := 0 }
  else s

/-- mirrors libagorac/agorac.cpp:362-372 -/
def addVideo (s : Call F) (buffer : Bytes) (isKeyFrame : Bool) (timestamp : Int) : Call F :=
  let work : Work := ⟨s.nextId, buffer, isKeyFrame, false, timestamp⟩
  { s with
    videoJB := s.videoJB ++ [work]
    acceptedVideo := s.acceptedVideo ++ [work]
    nextId := s.nextId + 1
    producing := some timestamp }

/-- mirrors libagorac/agorac.cpp:400-411 -/
def addAudio (s : Call F) (buffer : Bytes) (timestamp : Int) : Call F :=
  let work : Work := ⟨s.nextId, buffer, false, false, timestamp⟩
  { s with
    audioJB := s.audioJB ++ [work]
    acceptedAudio := s.acceptedAudio ++ [work]
    nextId := s.nextId + 1 }

/-! ## `GetNextSamplingPoint` -/

/-- `threadsleepTime` before the speed-up, from what `q->top()` returned.
mirrors helpers/utilities.cpp:34-40 -/
def sleepTimeOf (next : Option Work) (currentTimestamp lastTimestamp : Int) : Int :=
  let nextTs := match next with
    | none => currentTimestamp
    | some work => work.timestamp
  let currentTs := if currentTimestamp = nextTs then lastTimestamp else currentTimestamp
  nextTs - currentTs

/-- `nextSample`, from what `q->size()` returned.
mirrors helpers/utilities.cpp:42-53 -/
def nextSampleOf (fl : Floats F) (now size jbSize : Nat) (sleepTime : Int) : Int :=
  now + if (jbSize : Int) < size * sleepTime then fl.scale095 sleepTime else sleepTime

/-! ## The handlers -/

/-- `diff>3*ctx->predictedFps && ctx->videoJB->isEmpty()`
mirrors libagorac/agorac.cpp:436-442 -/
def starved (fl : Floats F) (s : Call F) : Bool :=
  fl.lt (fl.mul (fl.ofInt 3) s.predictedFps) (fl.ofInt ((s.now : Int) - s.lastSendTime)) && s.videoJB.isEmpty

/-- `(ctx->videoJB->size()*timePerFrame)<ctx->jb_size`
mirrors helpers/utilities.cpp:93-98 -/
def short (fl : Floats F) (fps : F) (s : Call F) : Bool :=
  fl.lt (fl.mul (fl.ofInt s.videoJB.length) (fl.div (fl.ofInt 1000) fps)) (fl.ofInt s.jbSize)

/-- mirrors helpers/utilities.cpp:118-135 -/
def resizeBuffer (cfg : Config) (s : Call F) : Call F :=
  { s with
    jbSize := if 1 ≤ s.reBufferingCount ∧
        (s.now : Int) - s.lastBufferingTime < cfg.timeToIncreaseJbSize * 1000 then
      (s.jbSize * 2) % 2 ^ 16 else s.jbSize
    lastBufferingTime := s.now
    reBufferingCount := s.reBufferingCount + 1 }

/-- The end of `WaitForBuffering`, and the resize behind it.
mirrors helpers/utilities.cpp:111-116 and libagorac/agorac.cpp:445-451 -/
def endBuffering (cfg : Config) (s : Call F) : Call F :=
  let s := { s with isJbBuffering := false }
  if s.jbSize < cfg.maxJbSize then resizeBuffer cfg s else s

/-- A step of the High handler, from a context that exists.
mirrors libagorac/agorac.cpp:432-504 -/
def highStep (fl : Floats F) (cfg : Config) (s : Call F) : Option (Call F) :=
  match s.high with
  | .test => some { s with high := if s.isRunning then .check else .done }
  | .check =>
    if starved fl s then some { s with high := .fill s.predictedFps 0 }
    else some { s with lastSendTime := s.now, high := .wait }
  | .fill fps count =>
    if s.isRunning = true ∧ count < 200 ∧ short fl fps s = true then
      some { s with isJbBuffering := true, high := .nap fps (count + 1) (s.now + 10) }
    else some { endBuffering cfg s with lastSendTime := s.now, high := .wait }
  | .nap fps count wake => if wake ≤ s.now then some { s with high := .fill fps count } else none
  | .wait => if s.videoJB = [] then none else some { s with high := .get }
  | .get =>
    match s.videoJB with
    | [] => some { s with highNull := true, high := .done }
    | work :: rest =>
      some { s with
        videoJB := rest
        tookHigh := s.tookHigh ++ media [work]
        high := if cfg.enableDual then .forward work else .top work }
  | .forward work => some { s with videoQueueLow := s.videoQueueLow ++ [work], high := .top work }
  | .top work =>
    some { s with high := .size work (sleepTimeOf s.videoJB.head? work.timestamp s.lastVideoTimestamp) }
  | .size work sleepTime =>
    some { s with high := .send work (nextSampleOf fl s.now s.videoJB.length s.jbSize sleepTime) }
  | .send work nextSample =>
    if work.isFinished then some { s with high := .done }
    else
      some { s with
        sentHigh := s.sentHigh ++ [work]
        lastVideoTimestamp := work.timestamp
        highVideoFrameCount := (s.highVideoFrameCount + 1) % 256
        high := .sleep nextSample }
  | .sleep nextSample =>
    if nextSample ≤ s.now then some { s with high := if s.isRunning then .check else .done } else none
  | .done => none

/-- `ctx->lowVideoFrameCount*lowHeighRatio<ctx->highVideoFrameCount`, or a key frame.
mirrors libagorac/agorac.cpp:274-281 -/
def lowWanted (fl : Floats F) (cfg : Config) (s : Call F) (work : Work) : Bool :=
  fl.lt (fl.mul (fl.ofInt s.lowVideoFrameCount) (fl.div s.predictedFps (fl.ofInt cfg.dfps)))
    (fl.ofInt s.highVideoFrameCount) || work.isKeyFrame

/-- mirrors libagorac/agorac.cpp:506-528 -/
def lowStep (fl : Floats F) (cfg : Config) (s : Call F) : Option (Call F) :=
  match s.low with
  | .test => some { s with low := if s.isRunning then .wait else .done }
  | .wait => if s.videoQueueLow = [] then none else some { s with low := .get }
  | .get =>
    match s.videoQueueLow with
    | [] => some { s with low := if s.isRunning then .wait else .done }
    | work :: rest =>
      some { s with videoQueueLow := rest, low := if work.isFinished then .done else .send work }
  | .send work =>
    some { s with
      lowProcessed := s.lowProcessed ++ [work]
      lowVideoFrameCount :=
        if lowWanted fl cfg s work then (s.lowVideoFrameCount + 1) % 256 else s.lowVideoFrameCount
      low := .test }
  | .done => none

/-- mirrors libagorac/agorac.cpp:530-563 -/
def audioStep (fl : Floats F) (s : Call F) : Option (Call F) :=
  match s.audio with
  | .test => some { s with audio := if s.isRunning then .wait else .done }
  | .wait => if s.audioJB = [] then none else some { s with audio := .get }
  | .get =>
    match s.audioJB with
    | [] => some { s with audioNull := true, audio := if s.isRunning then .wait else .done }
    | work :: rest => some { s with audioJB := rest, audio := if work.isFinished then .done else .top work }
  | .top work =>
    some { s with audio := .size work (sleepTimeOf s.audioJB.head? work.timestamp s.lastAudioTimestamp) }
  | .size work sleepTime =>
    some { s with audio := .hold work (nextSampleOf fl s.now s.audioJB.length s.jbSize sleepTime) }
  | .hold work nextSample =>
    if s.isJbBuffering = true ∧ s.isRunning = true then
      some { s with audio := .nap work nextSample (s.now + 10) }
    else
      some { s with
        sentAudio := s.sentAudio ++ [work]
        lastAudioTimestamp := work.timestamp
        audio := .sleep nextSample }
  | .nap work nextSample wake => if wake ≤ s.now then some { s with audio := .hold work nextSample } else none
  | .sleep nextSample =>
    if nextSample ≤ s.now then some { s with audio := if s.isRunning then .wait else .done } else none
  | .done => none

/-! ## `agora_disconnect` -/

def sentinel (cfg : Config) (s : Call F) : Work := ⟨s.nextId, [], false, true, cfg.sentinelTimestamp⟩

/-- mirrors libagorac/agorac.cpp:564-625 -/
def discStep (cfg : Config) (s : Call F) (ok : Bool) : Option (Call F) :=
  match s.disc with
  | .idle => some { s with isRunning := false, disconnectAt := some s.now, disc := .addVideo }
  | .addVideo =>
    some { s with
      videoJB := s.videoJB ++ [sentinel cfg s]
      disc := if cfg.enableDual then .clearLow else .addAudio }
  | .clearLow => some { s with videoQueueLow := [], disc := .addLow }
  | .addLow => some { s with videoQueueLow := s.videoQueueLow ++ [sentinel cfg s], disc := .addAudio }
  | .addAudio => some { s with audioJB := s.audioJB ++ [sentinel cfg s], disc := .sleep (s.now + 2000) }
  | .sleep wake =>
    if wake ≤ s.now then some { s with freed := ok, disc := .done } else none
  | .done => none

/-! ## The system -/

/-- A handler asleep does not notice that the context is gone before it wakes. -/
def asleep (now : Nat) : HighPc F → Bool
  | .nap _ _ wake => decide (now < wake)
  | .sleep nextSample => decide ((now : Int) < nextSample)
  | _ => false

def audioAsleep (now : Nat) : AudioPc → Bool
  | .nap _ _ wake => decide (now < wake)
  | .sleep nextSample => decide ((now : Int) < nextSample)
  | _ => false

/-- With the context deleted. A handler that reaches for it stays where it is; the
only step that does not is the `break` of the High handler.
mirrors libagorac/agorac.cpp:584-622 -/
def touchFreed (s : Call F) : Label → Option (Call F)
  | .tick => some { s with now := s.now + 1 }
  | .high =>
    match s.high with
    | .done => none
    | .send ⟨_, _, _, true, _⟩ _ => some { s with high := .done }
    | pc => if asleep s.now pc then none else some { s with uaf := true }
  | .low => if s.low = .done then none else some { s with uaf := true }
  | .listen =>
    if s.audio = .done ∨ audioAsleep s.now s.audio = true then none else some { s with uaf := true }
  | _ => none

def liveStep (fl : Floats F) (cfg : Config) (s : Call F) : Label → Option (Call F)
  | .tick => some { s with now := s.now + 1 }
  | .video buffer isKeyFrame timestamp =>
    if s.producing = none then some (addVideo s buffer isKeyFrame timestamp) else none
  | .fps => s.producing.map (finishVideo fl s)
  | .audio buffer timestamp => if s.producing = none then some (addAudio s buffer timestamp) else none
  | .high => highStep fl cfg s
  | .low => lowStep fl cfg s
  | .listen => audioStep fl s
  | .disconnect ok => discStep cfg s ok

def system (fl : Floats F) (cfg : Config) : LTS (Call F) Label where
  init := (· = init fl cfg)
  step s l := if s.freed then touchFreed s l else liveStep fl cfg s l

end Rtmpg.Agorac
