import Rtmpg.L5Call.Handover
import Rtmpg.L5Call.Packets

/-!
# From the publisher to the SDK

A session with what it was given and what it made of it: the video messages
nginx handed to `ngx_agora_send_video`, the audio messages and the decodings
of `ngx_agora_send_audio`, in order (`watch`). A step of a session is one of
its call or leaves the call alone (`session_call`), so what holds of every
reachable call holds here.

* `ran_accepts`: what was added to the queues is what the
  messages make, frame by frame.
* `sent_is_published`: what goes out is a prefix of it, whatever the order of
  steps; in dual mode the Low handler gets a subsequence.
-/
namespace Rtmpg.Stream

open Rtmpg.Chain Rtmpg.Opus Rtmpg.Adts Rtmpg.Agorac Rtmpg.Packets

variable {F G : Type} {R : NginxRtmp} {q : FloatFormat G} {fl : Floats F} {cfg : Config}

/-! ## The history -/

deriving instance DecidableEq for RtmpHeader

structure VideoMessage where
  codec : Option CodecCtx
  header : RtmpHeader
  chain : Chain
  deriving DecidableEq

/-- `calls` are those of `opus_encode`: the packet it was handed, and its answer. -/
structure History where
  video : List VideoMessage
  audio : List AudioInput
  decodings : List Decoding
  calls : List (Bytes × OpusResult)

def History.none : History := ⟨[], [], [], []⟩

/-- A block is encoded with one call of `opus_encode`, and with a second one if it fills up a
second packet. -/
def opusCalls (env : DecodeEnv) (d : Decoding) : List (Bytes × OpusResult) :=
  d.packets.zip [env.opus, env.flushOpus]

def watch (R : NginxRtmp) (q : FloatFormat G) (s : Session F) (e : Event) (past : History) : History :=
  match e with
  | .video codec h msg => { past with video := past.video ++ [⟨codec, h, msg⟩] }
  | .audio m =>
    let decodings := ((sendAndDecode R q s.audio m).map Prod.snd).getD []
    { past with
      audio := past.audio ++ [m]
      decodings := past.decodings ++ decodings
      calls := past.calls ++ decodings.flatMap (opusCalls m.env) }
  | _ => past

/-- Every order of steps, from a started session and without a past. -/
def Ran (R : NginxRtmp) (q : FloatFormat G) (fl : Floats F) (cfg : Config) (s₀ s : Session F) (past : History) :
    Prop :=
  ((sessionSystem R q fl cfg).watched (watch R q) .none).Run (fun _ _ => True) (s₀, .none) (s, past)

/-! ## Frames -/

/-- What a `Work` is made of. -/
structure Sample where
  buffer : Bytes
  isKeyFrame : Bool
  timestamp : Int
  deriving DecidableEq, Repr

def sampleOf (work : Work) : Sample := ⟨work.buffer, work.isKeyFrame, work.timestamp⟩

/-- The frame `ngx_agora_send_video` makes of a message, if any. -/
def VideoMessage.sample (R : NginxRtmp) (m : VideoMessage) : Option Sample :=
  (Video.ngxAgoraSendVideo R true m.codec m.header m.chain).bind fun r =>
    r.2.map fun v => ⟨v.buffer, v.isKeyFrame, v.timestamp⟩

/-- The packet of a call of `agora_send_audio`. -/
def packetOf (v : SendAudio) : Sample := ⟨v.buffer.take v.len.toNat, false, v.timestamp⟩

/-! ## A session and its call -/

theorem sendVideo_call {s t : Session F} {v : Video.SendVideo} (h : agoraSendVideo fl cfg s v = some t) :
    ∃ buffer, newWork v.buffer v.len = some buffer ∧
      (system fl cfg).step s.call (.video buffer v.isKeyFrame v.timestamp) = some t.call ∧
      t = { s with call := addVideo s.call buffer v.isKeyFrame v.timestamp } := by
  obtain ⟨buffer, hnew, hmap⟩ := Option.bind_eq_some_iff.mp h
  obtain ⟨call, hcall, rfl⟩ := Option.map_eq_some_iff.mp hmap
  exact ⟨buffer, hnew, hcall, by rw [video_step hcall]⟩

theorem sendAudio_call {s t : Session F} {v : SendAudio} (h : agoraSendAudio fl cfg s v = some t) :
    ∃ buffer, newWork v.buffer v.len = some buffer ∧
      (system fl cfg).step s.call (.audio buffer v.timestamp) = some t.call ∧
      t = { s with call := addAudio s.call buffer v.timestamp } := by
  obtain ⟨buffer, hnew, hmap⟩ := Option.bind_eq_some_iff.mp h
  obtain ⟨call, hcall, rfl⟩ := Option.map_eq_some_iff.mp hmap
  exact ⟨buffer, hnew, hcall, by rw [audio_step hcall]⟩

/-- What a step of a session can be. -/
inductive SessionStepped (R : NginxRtmp) (q : FloatFormat G) (fl : Floats F) (cfg : Config) (s : Session F) :
    Event → Session F → Prop
  | ignored (codec : Option CodecCtx) (h : RtmpHeader) (msg : Chain) (ret : Int) :
      Video.ngxAgoraSendVideo R true codec h msg = some (ret, none) →
      SessionStepped R q fl cfg s (.video codec h msg) s
  | video (codec : Option CodecCtx) (h : RtmpHeader) (msg : Chain) (ret : Int) (v : Video.SendVideo)
      (t : Session F) : Video.ngxAgoraSendVideo R true codec h msg = some (ret, some v) →
      agoraSendVideo fl cfg s v = some t → SessionStepped R q fl cfg s (.video codec h msg) t
  | audio (m : AudioInput) (audio : AudioState) (decodings : List Decoding) : s.outbox = [] →
      sendAndDecode R q s.audio m = some (audio, decodings) →
      SessionStepped R q fl cfg s (.audio m) { s with audio := audio, outbox := decodings.flatMap (·.sends) }
  | send (v : SendAudio) (rest : List SendAudio) (t : Session F) : s.outbox = v :: rest →
      agoraSendAudio fl cfg s v = some t → SessionStepped R q fl cfg s .send { t with outbox := rest }
  | party (l : Label) (call : Call F) : adds l = false → (system fl cfg).step s.call l = some call →
      SessionStepped R q fl cfg s (.party l) { s with call := call }

theorem sessionStepped {s t : Session F} {e : Event} (h : (sessionSystem R q fl cfg).step s e = some t) :
    SessionStepped R q fl cfg s e t := by
  unfold sessionSystem at h
  cases e with
  | video codec hdr msg =>
    dsimp only at h
    split at h
    · obtain ⟨⟨ret, sent⟩, hv, hsent⟩ := Option.bind_eq_some_iff.mp h
      cases sent with
      | none =>
        cases hsent
        exact .ignored codec hdr msg ret hv
      | some v => exact .video codec hdr msg ret v t hv hsent
    · cases h
  | audio m =>
    dsimp only at h
    split at h
    · next hr =>
      obtain ⟨⟨audio, decodings⟩, hd, rfl⟩ := Option.map_eq_some_iff.mp h
      exact .audio m audio decodings hr.1 hd
    · cases h
  | send =>
    dsimp only at h
    split at h
    · cases h
    · next v rest hout =>
      obtain ⟨u, hu, rfl⟩ := Option.map_eq_some_iff.mp h
      exact .send v rest u hout hu
  | party l =>
    dsimp only at h
    split at h
    · cases h
    · next hl =>
      obtain ⟨call, hcall, rfl⟩ := Option.map_eq_some_iff.mp h
      exact .party l call (Bool.eq_false_of_not_eq_true hl) hcall

theorem session_call {s t : Session F} {e : Event} (h : (sessionSystem R q fl cfg).step s e = some t) :
    t.call = s.call ∨ ∃ l, (system fl cfg).step s.call l = some t.call := by
  cases sessionStepped h with
  | ignored => exact .inl rfl
  | video _ _ _ _ v _ _ hsend =>
    obtain ⟨buffer, -, hcall, -⟩ := sendVideo_call hsend
    exact .inr ⟨_, hcall⟩
  | audio => exact .inl rfl
  | send v rest u _ hsend =>
    obtain ⟨buffer, -, hcall, -⟩ := sendAudio_call hsend
    exact .inr ⟨_, hcall⟩
  | party l call _ hcall => exact .inr ⟨l, hcall⟩

/-- What every step of a call keeps, every step of a session keeps. -/
theorem ran_invariant {I : Call F → Prop} (hinit : I (init fl cfg))
    (hstep : ∀ s l t, I s → (system fl cfg).step s l = some t → I t) {s₀ s : Session F} {past : History}
    (h₀ : (sessionSystem R q fl cfg).init s₀) (h : Ran R q fl cfg s₀ s past) : I s.call := by
  refine h.invariant (I := fun p : Session F × History => I p.1.call) (fun p e p' _ hp hst => ?_) (h₀.1 ▸ hinit)
  obtain ⟨u, hu, rfl⟩ := Option.map_eq_some_iff.mp hst
  rcases session_call hu with hsame | ⟨l, hl⟩
  · exact hsame ▸ hp
  · exact hstep _ l _ hp hl

theorem ran_relayed {s₀ s : Session F} {past : History} (h₀ : (sessionSystem R q fl cfg).init s₀)
    (h : Ran R q fl cfg s₀ s past) : Relayed cfg s.call :=
  ran_invariant relayed_init (fun _ _ _ hs hstep => relayed_step hs hstep) h₀ h

/-! ## What is accepted -/

/-- Nobody but a producer adds to the accepted frames. -/
theorem step_accepted {s t : Call F} {l : Label} (hl : adds l = false) (h : (system fl cfg).step s l = some t) :
    t.acceptedVideo = s.acceptedVideo ∧ t.acceptedAudio = s.acceptedAudio := by
  cases stepped h with
  | deleted _ h =>
    rw [touchFreed_eq h]
    exact ⟨rfl, rfl⟩
  | tick => exact ⟨rfl, rfl⟩
  | video | audio => cases hl
  | fps timestamp =>
    rw [finishVideo_eq]
    exact ⟨rfl, rfl⟩
  | high _ h =>
    rw [highStep_eq h]
    exact ⟨rfl, rfl⟩
  | low _ h =>
    rw [lowStep_eq h]
    exact ⟨rfl, rfl⟩
  | listen _ h =>
    rw [audioStep_eq h]
    exact ⟨rfl, rfl⟩
  | disconnect ok _ h =>
    rw [discStep_eq h]
    exact ⟨rfl, rfl⟩

/-- `Work` copies the whole frame. -/
theorem sendVideo_sample {codec : Option CodecCtx} {h : RtmpHeader} {msg : Chain} {ret : Int} {v : Video.SendVideo}
    (hv : Video.ngxAgoraSendVideo R true codec h msg = some (ret, some v)) :
    newWork v.buffer v.len = some v.buffer := by
  obtain ⟨hlen, hfit, -, -⟩ := Video.sendVideo_frame hv
  have hcap : Video.bufSize = 1048576 := rfl
  rw [hlen, newWork_pos (by omega) (by omega) (by omega), Int.toNat_natCast, List.take_of_length_le (le_refl _)]

theorem sample_ignored {codec : Option CodecCtx} {h : RtmpHeader} {msg : Chain} {ret : Int}
    (hv : Video.ngxAgoraSendVideo R true codec h msg = some (ret, none)) :
    VideoMessage.sample R ⟨codec, h, msg⟩ = none := by
  simp only [VideoMessage.sample, hv, Option.bind_some, Option.map_none]

theorem sample_sent {codec : Option CodecCtx} {h : RtmpHeader} {msg : Chain} {ret : Int} {v : Video.SendVideo}
    (hv : Video.ngxAgoraSendVideo R true codec h msg = some (ret, some v)) :
    VideoMessage.sample R ⟨codec, h, msg⟩ = some ⟨v.buffer, v.isKeyFrame, v.timestamp⟩ := by
  simp only [VideoMessage.sample, hv, Option.bind_some, Option.map_some]

/-- A packet of negative length is not copied at all. -/
theorem sendAudio_sample {v : SendAudio} {buffer : Bytes} (hlen : -2 ^ 31 ≤ v.len ∧ v.len ≤ 1000)
    (hsize : v.buffer.length = 1000) (h : newWork v.buffer v.len = some buffer) :
    buffer = v.buffer.take v.len.toNat := by
  have hpos : 0 ≤ v.len := by
    by_contra hneg
    rw [newWork_neg (by omega) hlen.1 (by omega)] at h
    cases h
  rw [newWork_pos hpos (by omega) (by omega)] at h
  exact (Option.some.inj h).symm

structure Accepts (R : NginxRtmp) (q : FloatFormat G) (s₀ : Session F) (s : Session F) (past : History) : Prop where
  video : s.call.acceptedVideo.map sampleOf = past.video.filterMap (·.sample R)
  audio : s.call.acceptedAudio.map sampleOf ++ s.outbox.map packetOf =
    (past.decodings.flatMap (·.sends)).map packetOf
  stream : runStream R q s₀.audio past.audio = some (s.audio, past.decodings)
  buffered : ∀ a, s.audio.ctx = some a → Buffered a
  outbox : ∀ v ∈ s.outbox, (-2 ^ 31 ≤ v.len ∧ v.len ≤ 1000) ∧ v.buffer.length = 1000

theorem runStream_concat {s u v : AudioState} {ms : List AudioInput} {m : AudioInput} {ds es : List Decoding}
    (h : runStream R q s ms = some (u, ds)) (hm : sendAndDecode R q u m = some (v, es)) :
    runStream R q s (ms ++ [m]) = some (v, ds ++ es) := by
  induction ms generalizing s ds with
  | nil =>
    cases h
    simp [runStream, hm]
  | cons m' ms ih =>
    obtain ⟨⟨w, first⟩, hfirst, hrest⟩ := Option.bind_eq_some_iff.mp h
    obtain ⟨⟨w', more⟩, hmore, hpair⟩ := Option.map_eq_some_iff.mp hrest
    cases hpair
    rw [List.cons_append, runStream, hfirst, Option.bind_some]
    dsimp only
    rw [ih hmore, Option.map_some, List.append_assoc]

theorem accepts_start {s₀ : Session F} (h₀ : (sessionSystem R q fl cfg).init s₀) : Accepts R q s₀ s₀ .none := by
  obtain ⟨hcall, hout, hctx⟩ := h₀
  refine ⟨by rw [hcall]; rfl, by rw [hcall, hout]; rfl, rfl, fun a ha => ?_, fun v hv => ?_⟩
  · rcases hctx with hn | hf
    · rw [hn] at ha
      cases ha
    · rw [hf] at ha
      cases ha
      exact buffered_fresh
  · rw [hout] at hv
    cases hv

theorem watch_audio {s : Session F} {past : History} {m : AudioInput} {audio : AudioState}
    {decodings : List Decoding} (hd : sendAndDecode R q s.audio m = some (audio, decodings)) :
    watch R q s (.audio m) past = { past with
      audio := past.audio ++ [m]
      decodings := past.decodings ++ decodings
      calls := past.calls ++ decodings.flatMap (opusCalls m.env) } := by
  simp only [watch, hd, Option.map_some, Option.getD_some]

theorem audio_accepts {s₀ s : Session F} {past : History} {m : AudioInput} {audio : AudioState}
    {decodings : List Decoding} (hs : Accepts R q s₀ s past) (hout : s.outbox = [])
    (hd : sendAndDecode R q s.audio m = some (audio, decodings)) :
    Accepts R q s₀ { s with audio := audio, outbox := decodings.flatMap (·.sends) }
      (watch R q s (.audio m) past) := by
  rw [watch_audio hd]
  obtain ⟨hb, hyes, hno⟩ := sendAndDecode_sends hs.buffered hd
  refine ⟨hs.video, ?_, runStream_concat hs.stream hd, hb, fun v hv => ?_⟩
  · have ha := hs.audio
    rw [hout, List.map_nil, List.append_nil] at ha
    rw [List.flatMap_append, List.map_append, ← ha]
  · by_cases hdec : Packets.Decodes R s.audio m
    · obtain ⟨flushed, ht, hflat⟩ := hyes hdec
      dsimp only at hv
      rw [hflat] at hv
      rcases List.mem_cons.mp hv with rfl | hv
      · exact ⟨⟨m.env.opus.ret_ge, m.env.opus.ret_le⟩, m.env.opus.out_length⟩
      · obtain ⟨hpos, hle, hsize⟩ := ht v hv
        exact ⟨⟨by omega, hle⟩, hsize⟩
    · dsimp only at hv
      rw [hno hdec] at hv
      cases hv

theorem step_accepts {s₀ s t : Session F} {past : History} {e : Event} (hs : Accepts R q s₀ s past)
    (h : (sessionSystem R q fl cfg).step s e = some t) : Accepts R q s₀ t (watch R q s e past) := by
  cases sessionStepped h with
  | ignored codec hdr msg ret hv =>
    refine ⟨?_, hs.audio, hs.stream, hs.buffered, hs.outbox⟩
    simp only [watch, List.filterMap_append, List.filterMap_cons, List.filterMap_nil, sample_ignored hv,
      List.append_nil]
    exact hs.video
  | video codec hdr msg ret v _ hv hsend =>
    obtain ⟨buffer, hnew, -, rfl⟩ := sendVideo_call hsend
    rw [sendVideo_sample hv, Option.some.injEq] at hnew
    subst hnew
    refine ⟨?_, hs.audio, hs.stream, hs.buffered, hs.outbox⟩
    simp only [watch, List.filterMap_append, List.filterMap_cons, List.filterMap_nil, sample_sent hv, addVideo,
      List.map_append, hs.video]
    rfl
  | audio m audio decodings hout hd => exact audio_accepts hs hout hd
  | send v rest u hout hsend =>
    obtain ⟨hlen, hsize⟩ := hs.outbox v (hout ▸ List.mem_cons_self)
    obtain ⟨buffer, hnew, -, rfl⟩ := sendAudio_call hsend
    have hbuf := sendAudio_sample hlen hsize hnew
    subst hbuf
    refine ⟨hs.video, ?_, hs.stream, hs.buffered, fun w hw => hs.outbox w (hout ▸ List.mem_cons_of_mem _ hw)⟩
    have ha := hs.audio
    rw [hout, List.map_cons] at ha
    rw [show (watch R q s .send past) = past from rfl, ← ha]
    simp only [addAudio, List.map_append, List.map_cons, List.map_nil, List.append_assoc, List.singleton_append]
    rfl
  | party l call hl hcall =>
    obtain ⟨hvideo, haudio⟩ := step_accepted hl hcall
    refine ⟨?_, ?_, hs.stream, hs.buffered, hs.outbox⟩
    · dsimp only
      rw [hvideo]
      exact hs.video
    · dsimp only
      rw [haudio]
      exact hs.audio

theorem ran_accepts {s₀ s : Session F} {past : History} (h₀ : (sessionSystem R q fl cfg).init s₀)
    (h : Ran R q fl cfg s₀ s past) : Accepts R q s₀ s past := by
  refine h.invariant (I := fun p : Session F × History => Accepts R q s₀ p.1 p.2) (fun p e p' _ hp hst => ?_)
    (accepts_start h₀)
  obtain ⟨u, hu, rfl⟩ := Option.map_eq_some_iff.mp hst
  exact step_accepts hp hu

/-! ## What goes out -/

theorem sent_is_published (R : NginxRtmp) (q : FloatFormat G) (fl : Floats F) (cfg : Config) (s₀ s : Session F)
    (past : History) (h₀ : (sessionSystem R q fl cfg).init s₀) (h : Ran R q fl cfg s₀ s past) :
    s.call.sentHigh.map sampleOf <+: past.video.filterMap (·.sample R) ∧
      (s.call.lowProcessed.map sampleOf).Sublist (past.video.filterMap (·.sample R)) ∧
      s.call.sentAudio.map sampleOf <+: (past.decodings.flatMap (·.sends)).map packetOf := by
  have ha := ran_accepts h₀ h
  have hr := (ran_relayed h₀ h).handover
  have hsent : s.call.sentHigh <+: s.call.acceptedVideo := hr.video.prefix_accepted
  have haud : s.call.sentAudio <+: s.call.acceptedAudio := hr.audio.prefix_accepted
  have hlow : s.call.lowProcessed.Sublist s.call.tookHigh := hr.low.sublist_accepted
  have htook : s.call.tookHigh <+: s.call.acceptedVideo := by
    have ht : s.call.tookHigh = s.call.sentHigh ++ s.call.high.hand := hr.took
    exact ⟨media s.call.videoJB, by rw [ht]; exact hr.video.symm⟩
  refine ⟨ha.video ▸ hsent.map sampleOf, ha.video ▸ (hlow.trans htook.sublist).map sampleOf, ?_⟩
  exact (haud.map sampleOf).trans ⟨_, ha.audio⟩

end Rtmpg.Stream
