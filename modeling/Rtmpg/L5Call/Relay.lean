import Rtmpg.Core.Fifo
import Rtmpg.L5Call.Model

/-!
# The hand-over of a call

A call as its queues see it: frames are accepted, wait, are in the hands of a
handler and are handed to the SDK. When and why a handler moves is not part of
it. `Relay.Move` is one queue operation or one hand-over; `waitForWork` and
`get` are separate moves, and so are the `clear` and the refill of the low
queue.

Results:
* `Handover.move`: every move keeps the frames in order and loses none but
  those `clear` drops.
* `step_relay` (`Handover.lean`): every step of a call is a move or none.
-/
namespace Rtmpg.Agorac

@[simp] theorem media_nil : media [] = [] := rfl

@[simp] theorem media_append (l l' : List Work) : media (l ++ l') = media l ++ media l' :=
  List.filter_append ..

theorem media_cons (work : Work) (l : List Work) : media (work :: l) = media [work] ++ media l :=
  media_append [work] l

theorem media_frame {work : Work} (h : work.isFinished = false) : media [work] = [work] := by
  simp [media, h]

theorem media_sentinel {work : Work} (h : work.isFinished = true) : media [work] = [] := by simp [media, h]

/-- Frames with rising ids below `n`. -/
def Numbered (n : Nat) (l : List Work) : Prop :=
  l.Pairwise (fun a b => a.id < b.id) ∧ ∀ work ∈ l, work.id < n ∧ work.isFinished = false

theorem Numbered.mono {n : Nat} {l : List Work} (h : Numbered n l) : Numbered (n + 1) l :=
  ⟨h.1, fun work hmem => ⟨Nat.lt_succ_of_lt (h.2 work hmem).1, (h.2 work hmem).2⟩⟩

theorem Numbered.add {n : Nat} {l : List Work} {work : Work} (h : Numbered n l)
    (hid : work.id = n) (hf : work.isFinished = false) : Numbered (n + 1) (l ++ [work]) := by
  constructor
  · rw [List.pairwise_append]
    refine ⟨h.1, List.pairwise_singleton .., fun a ha b hb => ?_⟩
    rw [List.mem_singleton.mp hb, hid]
    exact (h.2 a ha).1
  · intro a ha
    rcases List.mem_append.mp ha with ha | ha
    · exact h.mono.2 a ha
    · rw [List.mem_singleton.mp ha]
      exact ⟨by omega, hf⟩

structure Relay where
  called : Bool
  nextId : Nat
  videoJB : List Work
  audioJB : List Work
  videoQueueLow : List Work
  /-- `waitForWork` of the High handler has returned, its `get` is next. -/
  highReady : Bool
  audioReady : Bool
  toForward : List Work
  highHand : List Work
  lowHand : List Work
  audioHand : List Work
  acceptedVideo : List Work
  acceptedAudio : List Work
  tookHigh : List Work
  sentHigh : List Work
  lowProcessed : List Work
  sentAudio : List Work

inductive Move (dual : Bool) (v : Relay) : Relay → Prop
  | addVideo (work : Work) : work.isFinished = false → work.id = v.nextId → Move dual v { v with
      nextId := v.nextId + 1, videoJB := v.videoJB ++ [work], acceptedVideo := v.acceptedVideo ++ [work] }
  | addAudio (work : Work) : work.isFinished = false → work.id = v.nextId → Move dual v { v with
      nextId := v.nextId + 1, audioJB := v.audioJB ++ [work], acceptedAudio := v.acceptedAudio ++ [work] }
  | call : Move dual v { v with called := true }
  | stopVideo (work : Work) : work.isFinished = true →
      Move dual v { v with videoJB := v.videoJB ++ [work] }
  | clearLow : v.called = true → Move dual v { v with videoQueueLow := [] }
  | stopLow (work : Work) : work.isFinished = true →
      Move dual v { v with videoQueueLow := v.videoQueueLow ++ [work] }
  | stopAudio (work : Work) : work.isFinished = true →
      Move dual v { v with audioJB := v.audioJB ++ [work] }
  | waitHigh : v.videoJB ≠ [] → Move dual v { v with highReady := true }
  | takeHigh (work : Work) (rest : List Work) : v.videoJB = work :: rest → v.highHand = [] →
      v.toForward = [] → Move dual v { v with
        videoJB := rest, highReady := false, tookHigh := v.tookHigh ++ media [work],
        highHand := media [work], toForward := if dual then [work] else [] }
  | forward : Move dual v { v with videoQueueLow := v.videoQueueLow ++ v.toForward, toForward := [] }
  | sendHigh : Move dual v { v with sentHigh := v.sentHigh ++ v.highHand, highHand := [] }
  | takeLow (work : Work) (rest : List Work) : dual = true → v.videoQueueLow = work :: rest →
      v.lowHand = [] → Move dual v { v with videoQueueLow := rest, lowHand := media [work] }
  | processLow : Move dual v { v with lowProcessed := v.lowProcessed ++ v.lowHand, lowHand := [] }
  | waitAudio : v.audioJB ≠ [] → Move dual v { v with audioReady := true }
  | takeAudio (work : Work) (rest : List Work) : v.audioJB = work :: rest → v.audioHand = [] →
      Move dual v { v with audioJB := rest, audioReady := false, audioHand := media [work] }
  | sendAudio : Move dual v { v with sentAudio := v.sentAudio ++ v.audioHand, audioHand := [] }

structure Handover (dual : Bool) (v : Relay) : Prop where
  video : Fifo v.acceptedVideo v.sentHigh v.highHand (media v.videoJB)
  took : v.tookHigh = v.sentHigh ++ v.highHand
  audio : Fifo v.acceptedAudio v.sentAudio v.audioHand (media v.audioJB)
  low : Lossy v.tookHigh v.lowProcessed v.lowHand (media v.videoQueueLow ++ media v.toForward)
  lowKept : dual = true → v.called = false →
    Fifo v.tookHigh v.lowProcessed v.lowHand (media v.videoQueueLow ++ media v.toForward)
  lowOff : dual = false → v.lowProcessed = [] ∧ v.lowHand = []
  highReady : v.highReady = true → v.videoJB ≠ []
  audioReady : v.audioReady = true → v.audioJB ≠ []
  numberedVideo : Numbered v.nextId v.acceptedVideo
  numberedAudio : Numbered v.nextId v.acceptedAudio

theorem Handover.takeHigh {dual : Bool} {v : Relay} (hs : Handover dual v) {work : Work} {rest : List Work}
    (hq : v.videoJB = work :: rest) (hh : v.highHand = []) (hf : v.toForward = []) :
    Handover dual { v with
      videoJB := rest, highReady := false, tookHigh := v.tookHigh ++ media [work],
      highHand := media [work], toForward := if dual then [work] else [] } := by
  have hv := hs.video
  have ht := hs.took
  have hl := hs.low
  rw [hq, media_cons, hh] at hv
  rw [hh, List.append_nil] at ht
  rw [hf, media_nil, List.append_nil] at hl
  refine { hs with
    video := hv.take
    took := by rw [ht]
    low := ?_
    lowKept := ?_
    highReady := fun h => by cases h }
  · cases dual with
    | true => exact hl.add (media [work])
    | false =>
      simp only [Bool.false_eq_true, if_false, media_nil, List.append_nil]
      exact hl.skip (media [work])
  · intro hd hc
    have hk := hs.lowKept hd hc
    rw [hf, media_nil, List.append_nil] at hk
    subst hd
    exact hk.add (media [work])

theorem Handover.move {dual : Bool} {v w : Relay} (hs : Handover dual v) (h : Move dual v w) :
    Handover dual w := by
  cases h with
  | addVideo work hf hid =>
    refine { hs with
      video := ?_
      highReady := fun _ => by simp
      numberedVideo := hs.numberedVideo.add hid hf
      numberedAudio := hs.numberedAudio.mono }
    rw [media_append, media_frame hf]
    exact hs.video.add [work]
  | addAudio work hf hid =>
    refine { hs with
      audio := ?_
      audioReady := fun _ => by simp
      numberedVideo := hs.numberedVideo.mono
      numberedAudio := hs.numberedAudio.add hid hf }
    rw [media_append, media_frame hf]
    exact hs.audio.add [work]
  | call => exact { hs with lowKept := fun _ hc => by cases hc }
  | stopVideo work hf =>
    refine { hs with video := ?_, highReady := fun _ => by simp }
    rw [media_append, media_sentinel hf, List.append_nil]
    exact hs.video
  | clearLow hc =>
    -- what waited is lost, what the High handler is about to forward is not
    exact { hs with low := hs.low.drop, lowKept := fun _ hn => by rw [hc] at hn; cases hn }
  | stopLow work hf =>
    refine { hs with low := ?_, lowKept := ?_ } <;> rw [media_append, media_sentinel hf, List.append_nil]
    · exact hs.low
    · exact hs.lowKept
  | stopAudio work hf =>
    refine { hs with audio := ?_, audioReady := fun _ => by simp }
    rw [media_append, media_sentinel hf, List.append_nil]
    exact hs.audio
  | waitHigh hq => exact { hs with highReady := fun _ => hq }
  | takeHigh work rest hq hh hf => exact hs.takeHigh hq hh hf
  | forward =>
    refine { hs with low := ?_, lowKept := ?_ } <;> rw [media_append, media_nil, List.append_nil]
    · exact hs.low
    · exact hs.lowKept
  | sendHigh =>
    exact { hs with video := hs.video.deliver, took := by rw [hs.took, List.append_nil] }
  | takeLow work rest hd hq hh =>
    have hl := hs.low
    have hk := hs.lowKept
    rw [hq, media_cons, List.append_assoc, hh] at hl hk
    refine { hs with low := hl.take, lowKept := fun hd hc => (hk hd hc).take, lowOff := fun hn => ?_ }
    rw [hd] at hn
    cases hn
  | processLow =>
    refine { hs with low := hs.low.deliver, lowKept := fun hd hc => (hs.lowKept hd hc).deliver, lowOff := ?_ }
    intro hn
    obtain ⟨hp, hh⟩ := hs.lowOff hn
    exact ⟨by rw [hp, hh, List.append_nil], rfl⟩
  | waitAudio hq => exact { hs with audioReady := fun _ => hq }
  | takeAudio work rest hq hh =>
    have ha := hs.audio
    rw [hq, media_cons, hh] at ha
    exact { hs with audio := ha.take, audioReady := fun h => by cases h }
  | sendAudio => exact { hs with audio := hs.audio.deliver }

end Rtmpg.Agorac
