import Rtmpg.L5Call.Relay
import Rtmpg.L5Call.Frame

/-!
# Queue hand-over keeps every frame once and in order

`libagorac/workqueue.h` and the handlers of `libagorac/agorac.cpp:432-582`.
`relay` forgets the pacing of a call; a step of any party is then a move of
the hand-over or none of its business (`step_relay`).

Results:
* `call_keeps_frames`: in every reachable state of a call, whatever the order of steps,
  high video and audio sent are prefixes of what was accepted, the frames of
  the Low handler are a subsequence of those the High handler took, a prefix
  until `agora_disconnect` is called; `get` gave null to neither the High nor
  the Audio handler; no sentinel went out as media.
-/
namespace Rtmpg.Agorac

variable {F : Type} {fl : Floats F} {cfg : Config} {s t : Call F}

def HighPc.ready : HighPc F → Bool
  | .get => true
  | _ => false

def HighPc.toForward : HighPc F → List Work
  | .forward work => [work]
  | _ => []

def HighPc.hand : HighPc F → List Work
  | .forward work | .top work | .size work _ | .send work _ => media [work]
  | _ => []

def LowPc.hand : LowPc → List Work
  | .send work => [work]
  | _ => []

def AudioPc.ready : AudioPc → Bool
  | .get => true
  | _ => false

def AudioPc.hand : AudioPc → List Work
  | .top work | .size work _ | .hold work _ | .nap work _ _ => [work]
  | _ => []

def relay (s : Call F) : Relay where
  called := decide (s.disc ≠ .idle)
  nextId := s.nextId
  videoJB := s.videoJB
  audioJB := s.audioJB
  videoQueueLow := s.videoQueueLow
  highReady := s.high.ready
  audioReady := s.audio.ready
  toForward := s.high.toForward
  highHand := s.high.hand
  lowHand := s.low.hand
  audioHand := s.audio.hand
  acceptedVideo := s.acceptedVideo
  acceptedAudio := s.acceptedAudio
  tookHigh := s.tookHigh
  sentHigh := s.sentHigh
  lowProcessed := s.lowProcessed
  sentAudio := s.sentAudio

/-- No move, or one. -/
def Moves (dual : Bool) (v w : Relay) : Prop := w = v ∨ Move dual v w

theorem Handover.moves {dual : Bool} {v w : Relay} (hs : Handover dual v) (h : Moves dual v w) :
    Handover dual w := by
  rcases h with rfl | h
  · exact hs
  · exact hs.move h

/-! ## One party at a time -/

theorem finishVideo_relay (timestamp : Int) : relay (finishVideo fl s timestamp) = relay s := by
  rw [finishVideo_eq]
  rfl

theorem relay_of_high {pc : HighPc F} (h : s.high = pc) :
    relay s = { relay s with highReady := pc.ready, toForward := pc.toForward, highHand := pc.hand } := by
  subst h
  rfl

theorem relay_of_low {pc : LowPc} (h : s.low = pc) : relay s = { relay s with lowHand := pc.hand } := by
  subst h
  rfl

theorem relay_of_audio {pc : AudioPc} (h : s.audio = pc) :
    relay s = { relay s with audioReady := pc.ready, audioHand := pc.hand } := by
  subst h
  rfl

theorem relay_of_disc {pc : DiscPc} (h : s.disc = pc) :
    relay s = { relay s with called := decide (pc ≠ .idle) } := by
  subst h
  rfl

/-- Nobody else takes from the queue between `waitForWork` and `get`. -/
theorem videoJB_ne_nil {dual : Bool} (hs : Handover dual (relay s)) (hpc : s.high = .get) : s.videoJB ≠ [] := by
  have hready := hs.highReady
  rw [relay_of_high hpc] at hready
  exact hready rfl

theorem audioJB_ne_nil {dual : Bool} (hs : Handover dual (relay s)) (hpc : s.audio = .get) : s.audioJB ≠ [] := by
  have hready := hs.audioReady
  rw [relay_of_audio hpc] at hready
  exact hready rfl

theorem highStep_relay (hs : Handover cfg.enableDual (relay s)) (h : highStep fl cfg s = some t) :
    Moves cfg.enableDual (relay s) (relay t) := by
  cases highStepped h with
  | test hpc | sleep _ hpc _ =>
    refine .inl ((relay_of_high hpc).symm ▸ ?_)
    cases s.isRunning <;> rfl
  | starve hpc _ | fed hpc _ | nap _ _ hpc _ _ _ | resize _ _ hpc _ _ | full _ _ hpc _ _ | wake _ _ _ hpc _
  | top _ hpc | size _ _ hpc => exact .inl (relay_of_high hpc).symm
  | wait hpc hq =>
    have hm : Move cfg.enableDual (relay s) _ := .waitHigh hq
    rw [relay_of_high hpc] at hm ⊢
    exact .inr hm
  | null hpc hq => exact absurd hq (videoJB_ne_nil hs hpc)
  | take work rest hpc hq =>
    have hm : Move cfg.enableDual (relay s) _ :=
      .takeHigh work rest hq (by rw [relay_of_high hpc]; rfl) (by rw [relay_of_high hpc]; rfl)
    rw [relay_of_high hpc] at hm ⊢
    refine .inr ?_
    cases hd : cfg.enableDual <;> rw [hd] at hm <;> exact hm
  | forward work hpc =>
    have hm : Move cfg.enableDual (relay s) _ := .forward
    rw [relay_of_high hpc] at hm ⊢
    exact .inr hm
  | stop work nextSample hpc hf =>
    refine .inl ((relay_of_high hpc).symm ▸ ?_)
    simp only [HighPc.hand, media_sentinel hf]
    rfl
  | send work nextSample hpc hf =>
    have hm : Move cfg.enableDual (relay s) _ := .sendHigh
    rw [relay_of_high hpc] at hm ⊢
    simp only [HighPc.hand, media_frame hf] at hm ⊢
    exact .inr hm

theorem lowStep_relay (hdual : cfg.enableDual = false → s.low = .done)
    (h : lowStep fl cfg s = some t) : Moves cfg.enableDual (relay s) (relay t) := by
  cases lowStepped h with
  | test hpc | null hpc _ =>
    refine .inl ((relay_of_low hpc).symm ▸ ?_)
    cases s.isRunning <;> rfl
  | wait hpc _ => exact .inl (relay_of_low hpc).symm
  | take work rest hpc hq =>
    have hd : cfg.enableDual = true := by
      cases hd : cfg.enableDual with
      | true => rfl
      | false => rw [hdual hd] at hpc; cases hpc
    have hm : Move cfg.enableDual (relay s) _ := .takeLow work rest hd hq (by rw [relay_of_low hpc]; rfl)
    rw [relay_of_low hpc] at hm ⊢
    refine .inr ?_
    cases hf : work.isFinished with
    | true => rw [media_sentinel hf] at hm; exact hm
    | false => rw [media_frame hf] at hm; exact hm
  | send work hpc =>
    have hm : Move cfg.enableDual (relay s) _ := .processLow
    rw [relay_of_low hpc] at hm ⊢
    exact .inr hm

theorem audioStep_relay (hs : Handover cfg.enableDual (relay s)) (h : audioStep fl s = some t) :
    Moves cfg.enableDual (relay s) (relay t) := by
  cases audioStepped h with
  | test hpc | sleep _ hpc _ =>
    refine .inl ((relay_of_audio hpc).symm ▸ ?_)
    cases s.isRunning <;> rfl
  | top _ hpc | size _ _ hpc | nap _ _ hpc _ _ | wake _ _ _ hpc _ => exact .inl (relay_of_audio hpc).symm
  | wait hpc hq =>
    have hm : Move cfg.enableDual (relay s) _ := .waitAudio hq
    rw [relay_of_audio hpc] at hm ⊢
    exact .inr hm
  | null hpc hq => exact absurd hq (audioJB_ne_nil hs hpc)
  | take work rest hpc hq =>
    have hm : Move cfg.enableDual (relay s) _ := .takeAudio work rest hq (by rw [relay_of_audio hpc]; rfl)
    rw [relay_of_audio hpc] at hm ⊢
    refine .inr ?_
    cases hf : work.isFinished with
    | true => rw [media_sentinel hf] at hm; exact hm
    | false => rw [media_frame hf] at hm; exact hm
  | send work nextSample hpc _ =>
    have hm : Move cfg.enableDual (relay s) _ := .sendAudio
    rw [relay_of_audio hpc] at hm ⊢
    exact .inr hm

theorem discStep_relay {ok : Bool} (h : discStep cfg s ok = some t) :
    Moves cfg.enableDual (relay s) (relay t) := by
  cases discStepped h with
  | call => exact .inr .call
  | addVideo hpc =>
    have hm : Move cfg.enableDual (relay s) _ := .stopVideo (sentinel cfg s) rfl
    rw [relay_of_disc hpc] at hm ⊢
    refine .inr ?_
    cases hd : cfg.enableDual <;> rw [hd] at hm <;> exact hm
  | clearLow hpc =>
    have hm : Move cfg.enableDual (relay s) _ := .clearLow (by rw [relay_of_disc hpc]; rfl)
    rw [relay_of_disc hpc] at hm ⊢
    exact .inr hm
  | addLow hpc =>
    have hm : Move cfg.enableDual (relay s) _ := .stopLow (sentinel cfg s) rfl
    rw [relay_of_disc hpc] at hm ⊢
    exact .inr hm
  | addAudio hpc =>
    have hm : Move cfg.enableDual (relay s) _ := .stopAudio (sentinel cfg s) rfl
    rw [relay_of_disc hpc] at hm ⊢
    exact .inr hm
  | finish wake hpc _ => exact .inl (relay_of_disc hpc).symm

theorem touchFreed_relay {l : Label} (h : touchFreed s l = some t) : relay t = relay s := by
  cases freedTouched h with
  | stop work nextSample hpc hf =>
    rw [relay_of_high hpc, HighPc.hand, media_sentinel hf]
    rfl
  | _ => rfl

/-- One step of a call is at most one move of its hand-over. -/
theorem step_relay {l : Label} (hdual : cfg.enableDual = false → s.low = .done)
    (hs : Handover cfg.enableDual (relay s)) (h : (system fl cfg).step s l = some t) :
    Moves cfg.enableDual (relay s) (relay t) := by
  cases stepped h with
  | deleted _ h => exact .inl (touchFreed_relay h)
  | tick => exact .inl rfl
  | video => exact .inr (.addVideo _ rfl rfl)
  | fps timestamp => exact .inl (finishVideo_relay timestamp)
  | audio => exact .inr (.addAudio _ rfl rfl)
  | high _ h => exact highStep_relay hs h
  | low _ h => exact lowStep_relay hdual h
  | listen _ h => exact audioStep_relay hs h
  | disconnect ok _ h => exact discStep_relay h

/-! ## Every reachable state -/

theorem highStep_null (hs : Handover cfg.enableDual (relay s)) (h : highStep fl cfg s = some t) :
    t.highNull = s.highNull := by
  cases highStepped h with
  | null hpc hq => exact absurd hq (videoJB_ne_nil hs hpc)
  | _ => rfl

theorem audioStep_null (hs : Handover cfg.enableDual (relay s)) (h : audioStep fl s = some t) :
    t.audioNull = s.audioNull := by
  cases audioStepped h with
  | null hpc hq => exact absurd hq (audioJB_ne_nil hs hpc)
  | _ => rfl

structure Relayed (cfg : Config) (s : Call F) : Prop where
  handover : Handover cfg.enableDual (relay s)
  lowOff : cfg.enableDual = false → s.low = .done
  highNull : s.highNull = false
  audioNull : s.audioNull = false

theorem relayed_init : Relayed cfg (init fl cfg) where
  handover := by
    have hlow : (init fl cfg).low.hand = [] := by
      simp only [init]
      split <;> rfl
    have hnum : Numbered 0 [] := ⟨.nil, fun _ hmem => absurd hmem (List.not_mem_nil)⟩
    constructor <;> simp only [relay, hlow]
    · rfl
    · rfl
    · rfl
    · exact List.Sublist.refl _
    · exact fun _ _ => rfl
    · exact fun _ => ⟨rfl, trivial⟩
    · exact fun h => by cases h
    · exact fun h => by cases h
    · exact hnum
    · exact hnum
  lowOff h := by
    simp only [init, h]
    rfl
  highNull := rfl
  audioNull := rfl

theorem relayed_step {l : Label} (hs : Relayed cfg s) (h : (system fl cfg).step s l = some t) :
    Relayed cfg t := by
  have hto := hs.handover.moves (step_relay hs.lowOff hs.handover h)
  obtain ⟨hhand, hoff, hhigh, haudio⟩ := hs
  cases stepped h with
  | deleted _ h =>
    obtain ⟨-, hl, hh, ha⟩ := touchFreed_frame h
    exact ⟨hto, hl ▸ hoff, hh ▸ hhigh, ha ▸ haudio⟩
  | tick => exact ⟨hto, hoff, hhigh, haudio⟩
  | video => exact ⟨hto, hoff, hhigh, haudio⟩
  | fps timestamp =>
    have hf : ProducerFrame s (finishVideo fl s timestamp) := finishVideo_frame timestamp
    exact ⟨hto, hf.low ▸ hoff, hf.highNull ▸ hhigh, hf.audioNull ▸ haudio⟩
  | audio => exact ⟨hto, hoff, hhigh, haudio⟩
  | high _ h =>
    have hf := highStep_frame h
    exact ⟨hto, hf.low ▸ hoff, (highStep_null hhand h).trans hhigh, hf.audioNull ▸ haudio⟩
  | low _ h =>
    have hf := lowStep_frame h
    refine ⟨hto, fun hd => ?_, hf.highNull ▸ hhigh, hf.audioNull ▸ haudio⟩
    rw [lowStep_done (hoff hd)] at h
    cases h
  | listen _ h =>
    have hf := audioStep_frame h
    exact ⟨hto, hf.low ▸ hoff, hf.highNull ▸ hhigh, (audioStep_null hhand h).trans haudio⟩
  | disconnect ok _ h =>
    have hf := discStep_frame h
    exact ⟨hto, hf.low ▸ hoff, hf.highNull ▸ hhigh, hf.audioNull ▸ haudio⟩

theorem relayed_reachable (h : (system fl cfg).Reachable s) : Relayed cfg s :=
  h.invariant (fun _ h0 => h0 ▸ relayed_init) fun _ _ _ => relayed_step

/-- Whatever the order in which the producer, the handlers and `agora_disconnect` step. -/
theorem call_keeps_frames (h : (system fl cfg).Reachable s) :
    s.sentHigh <+: s.acceptedVideo ∧ s.sentAudio <+: s.acceptedAudio ∧
    s.tookHigh <+: s.acceptedVideo ∧ s.lowProcessed.Sublist s.tookHigh ∧
    (s.disc = .idle → s.lowProcessed <+: s.tookHigh) ∧
    s.highNull = false ∧ s.audioNull = false ∧
    (∀ work ∈ s.sentHigh ++ s.lowProcessed ++ s.sentAudio, work.isFinished = false) ∧
    s.acceptedVideo.Pairwise (fun a b => a.id < b.id) ∧
    s.acceptedAudio.Pairwise (fun a b => a.id < b.id) := by
  obtain ⟨hs, -, hhigh, haudio⟩ := relayed_reachable h
  have hsent : s.sentHigh <+: s.acceptedVideo := hs.video.prefix_accepted
  have haud : s.sentAudio <+: s.acceptedAudio := hs.audio.prefix_accepted
  have hlow : s.lowProcessed.Sublist s.tookHigh := hs.low.sublist_accepted
  have htook : s.tookHigh <+: s.acceptedVideo := by
    have ht : s.tookHigh = s.sentHigh ++ s.high.hand := hs.took
    exact ⟨media s.videoJB, by rw [ht]; exact hs.video.symm⟩
  refine ⟨hsent, haud, htook, hlow, fun hidle => ?_, hhigh, haudio, fun work hmem => ?_,
    hs.numberedVideo.1, hs.numberedAudio.1⟩
  · cases hd : cfg.enableDual with
    | true => exact (hs.lowKept hd (by simp only [relay, hidle]; rfl)).prefix_accepted
    | false =>
      have hnil : s.lowProcessed = [] := (hs.lowOff hd).1
      rw [hnil]
      exact List.nil_prefix
  · rw [List.mem_append, List.mem_append] at hmem
    rcases hmem with (hmem | hmem) | hmem
    · exact (hs.numberedVideo.2 work (hsent.subset hmem)).2
    · exact (hs.numberedVideo.2 work (htook.subset (hlow.subset hmem))).2
    · exact (hs.numberedAudio.2 work (haud.subset hmem)).2

/-- Dual mode, and no jitter buffer. -/
def sampleConfig : Config := ⟨true, 0, 0, 0, 10, 0⟩

/-- A frame of each kind, through its handler. -/
def sampleRound : List Label :=
  List.flatten [List.replicate 8 .high, List.replicate 4 .low, List.replicate 6 .listen]

/-- Two frames of each kind, then `agora_disconnect` up to its sleep. -/
def sampleSteps : List Label :=
  List.flatten [[.video [1] true 10, .fps, .audio [2] 10, .video [3] false 50, .fps, .audio [4] 50], sampleRound,
    List.replicate 40 .tick, sampleRound, List.replicate 5 (.disconnect true)]

def sampleCall : Call Rat :=
  ((system rationals sampleConfig).exec (fun _ _ => True) (init rationals sampleConfig) sampleSteps).getD
    (init rationals sampleConfig)

theorem call_keeps_frames_sample :
    sampleCall.sentHigh.length = 2 ∧ sampleCall.lowProcessed.length = 2 ∧ sampleCall.sentAudio.length = 2 ∧
    sampleCall.sentHigh <+: sampleCall.acceptedVideo ∧ sampleCall.sentAudio <+: sampleCall.acceptedAudio := by
  have hreach : (system rationals sampleConfig).Reachable sampleCall :=
    LTS.reachable_of_exec rfl sampleSteps (by decide +kernel)
  have h := call_keeps_frames hreach
  exact ⟨by decide +kernel, by decide +kernel, by decide +kernel, h.1, h.2.1⟩

end Rtmpg.Agorac
