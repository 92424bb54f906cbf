import Rtmpg.L2Audio.Framed
import Rtmpg.L2Audio.Timestamps
import Rtmpg.L2Video.Empty
import Rtmpg.L5Call.Frame

/-!
# What stands in the queues

A `Session` is a call together with the part of nginx that feeds it: an RTMP
message goes through `ngx_agora_send_video` or `ngx_agora_send_audio`, and what
these hand on becomes a `Work` (`ngx_agora_helper.c:403-430,594-661,755-861`,
`libagorac/agorac.cpp:362-411`, `helpers/context.h:82-115`). The outbox holds the
calls of `agora_send_audio` a message still has to make; nginx takes the next
message when it has made them. Between any two of these steps the handlers and
`agora_disconnect` may run.

The length travels as `ngx_int_t` and `unsigned long`. For an error code `new`
asks for almost 2^64 bytes and throws; nothing catches that, and the step is
not enabled (`newWork`).

* `step_holding`: the handlers and `agora_disconnect` put nothing into a queue
  but what they took from one, and sentinels.
* `sendAndDecode_sends`: what one audio message hands on.
* `queues_hold_packets`: every run, and which messages break it.
* `queues_hold_empty_frame`: an SPS and a PPS in a message of their own.
-/
namespace Rtmpg.Packets

open Rtmpg.Chain Rtmpg.Opus Rtmpg.Adts Rtmpg.Agorac

variable {F : Type}

/-! ## Works -/

/-- `buffer` of a `Work` made of `len` bytes at `b`.
mirrors helpers/context.h:86-101 -/
def newWork (b : Bytes) (len : Int) : Option Bytes :=
  if Mem.sizeT len ≤ b.length then some (b.take (Mem.sizeT len)) else none

theorem newWork_pos {b : Bytes} {len : Int} (h0 : 0 ≤ len) (hle : len ≤ b.length) (hlt : len < 2 ^ 32) :
    newWork b len = some (b.take len.toNat) := by
  have hsize : Mem.sizeT len = len.toNat := by
    unfold Mem.sizeT
    omega
  rw [newWork, hsize, if_pos (by omega)]

theorem newWork_neg {b : Bytes} {len : Int} (hneg : len < 0) (hge : -2 ^ 31 ≤ len) (hb : b.length < 2 ^ 32) :
    newWork b len = none := by
  refine if_neg ?_
  unfold Mem.sizeT
  omega

def RealVideo (work : Work) : Prop :=
  work.isFinished = true ∨
    1 ≤ work.buffer.length ∧ work.buffer.length ≤ Video.bufSize ∧ [0, 0, 0, 1] <+: work.buffer

def RealAudio (work : Work) : Prop :=
  work.isFinished = true ∨ 1 ≤ work.buffer.length ∧ work.buffer.length ≤ 1000

structure Real (s : Call F) : Prop where
  videoJB : ∀ work ∈ s.videoJB, RealVideo work
  videoQueueLow : ∀ work ∈ s.videoQueueLow, RealVideo work
  audioJB : ∀ work ∈ s.audioJB, RealAudio work

/-! ## The handlers and the disconnect -/

section
variable {fl : Floats F} {cfg : Config} {s t : Call F} {P Q : Work → Prop}

/-- The queues, and what the High handler has in hand on its way from one to the other. -/
structure Holding (P Q : Work → Prop) (s : Call F) : Prop where
  videoJB : ∀ work ∈ s.videoJB, P work
  hand : ∀ work, s.high = .forward work → P work
  videoQueueLow : ∀ work ∈ s.videoQueueLow, P work
  audioJB : ∀ work ∈ s.audioJB, Q work

theorem forall_mem_concat {l : List Work} {work : Work} (hl : ∀ w ∈ l, P w) (hw : P work) :
    ∀ w ∈ l ++ [work], P w := by
  intro w hmem
  rcases List.mem_append.mp hmem with hmem | hmem
  · exact hl w hmem
  · rw [List.mem_singleton.mp hmem]
    exact hw

theorem highStep_holding (hs : Holding P Q s) (h : highStep fl cfg s = some t) : Holding P Q t := by
  cases highStepped h with
  | test | sleep =>
    refine ⟨hs.videoJB, fun w hw => ?_, hs.videoQueueLow, hs.audioJB⟩
    dsimp only at hw
    split at hw <;> cases hw
  | take work rest _ hq =>
    refine ⟨fun w hw => hs.videoJB w (hq ▸ List.mem_cons_of_mem _ hw), fun w hw => ?_, hs.videoQueueLow, hs.audioJB⟩
    dsimp only at hw
    split at hw <;> cases hw
    exact hs.videoJB work (hq ▸ List.mem_cons_self)
  | forward work hpc =>
    exact ⟨hs.videoJB, nofun, forall_mem_concat hs.videoQueueLow (hs.hand work hpc), hs.audioJB⟩
  | _ => exact ⟨hs.videoJB, nofun, hs.videoQueueLow, hs.audioJB⟩

theorem lowStep_holding (hs : Holding P Q s) (h : lowStep fl cfg s = some t) : Holding P Q t := by
  cases lowStepped h with
  | take work rest _ hq =>
    exact ⟨hs.videoJB, hs.hand, fun w hw => hs.videoQueueLow w (hq ▸ List.mem_cons_of_mem _ hw), hs.audioJB⟩
  | _ => exact ⟨hs.videoJB, hs.hand, hs.videoQueueLow, hs.audioJB⟩

theorem audioStep_holding (hs : Holding P Q s) (h : audioStep fl s = some t) : Holding P Q t := by
  cases audioStepped h with
  | take work rest _ hq =>
    exact ⟨hs.videoJB, hs.hand, hs.videoQueueLow, fun w hw => hs.audioJB w (hq ▸ List.mem_cons_of_mem _ hw)⟩
  | _ => exact ⟨hs.videoJB, hs.hand, hs.videoQueueLow, hs.audioJB⟩

theorem discStep_holding (hP : ∀ work, work.isFinished = true → P work)
    (hQ : ∀ work, work.isFinished = true → Q work) (hs : Holding P Q s) {ok : Bool}
    (h : discStep cfg s ok = some t) : Holding P Q t := by
  cases discStepped h with
  | addVideo => exact ⟨forall_mem_concat hs.videoJB (hP _ rfl), hs.hand, hs.videoQueueLow, hs.audioJB⟩
  | clearLow => exact ⟨hs.videoJB, hs.hand, fun _ hw => absurd hw List.not_mem_nil, hs.audioJB⟩
  | addLow => exact ⟨hs.videoJB, hs.hand, forall_mem_concat hs.videoQueueLow (hP _ rfl), hs.audioJB⟩
  | addAudio => exact ⟨hs.videoJB, hs.hand, hs.videoQueueLow, forall_mem_concat hs.audioJB (hQ _ rfl)⟩
  | _ => exact ⟨hs.videoJB, hs.hand, hs.videoQueueLow, hs.audioJB⟩

theorem touchFreed_holding (hs : Holding P Q s) {l : Label} (h : touchFreed s l = some t) : Holding P Q t := by
  cases freedTouched h with
  | stop => exact ⟨hs.videoJB, nofun, hs.videoQueueLow, hs.audioJB⟩
  | _ => exact ⟨hs.videoJB, hs.hand, hs.videoQueueLow, hs.audioJB⟩

theorem finishVideo_holding (hs : Holding P Q s) (timestamp : Int) : Holding P Q (finishVideo fl s timestamp) := by
  rw [finishVideo_eq]
  exact ⟨hs.videoJB, hs.hand, hs.videoQueueLow, hs.audioJB⟩

/-- The `add` of a producer. -/
def adds : Label → Bool
  | .video _ _ _ => true
  | .audio _ _ => true
  | _ => false

theorem step_holding (hP : ∀ work, work.isFinished = true → P work) (hQ : ∀ work, work.isFinished = true → Q work)
    {l : Label} (hl : adds l = false) (hs : Holding P Q s) (h : (system fl cfg).step s l = some t) :
    Holding P Q t := by
  cases stepped h with
  | deleted _ h => exact touchFreed_holding hs h
  | tick => exact ⟨hs.videoJB, hs.hand, hs.videoQueueLow, hs.audioJB⟩
  | video => cases hl
  | fps timestamp => exact finishVideo_holding hs timestamp
  | audio => cases hl
  | high _ h => exact highStep_holding hs h
  | low _ h => exact lowStep_holding hs h
  | listen _ h => exact audioStep_holding hs h
  | disconnect ok _ h => exact discStep_holding hP hQ hs h

end

/-! ## The messages -/

structure Session (F : Type) where
  call : Call F
  audio : AudioState
  outbox : List SendAudio

inductive Event where
  | video (codec : Option CodecCtx) (h : RtmpHeader) (msg : Chain)
  | audio (m : AudioInput)
  | send
  | party (l : Label)

/-- nginx is free to take the next message of a connected stream. -/
def Session.Ready (s : Session F) : Prop := s.outbox = [] ∧ s.call.producing = none ∧ s.call.freed = false

instance (s : Session F) : Decidable s.Ready := inferInstanceAs (Decidable (_ ∧ _ ∧ _))

/-- mirrors libagorac/agorac.cpp:362-372 -/
def agoraSendVideo (fl : Floats F) (cfg : Config) (s : Session F) (v : Video.SendVideo) : Option (Session F) :=
  (newWork v.buffer v.len).bind fun buffer =>
  ((system fl cfg).step s.call (.video buffer v.isKeyFrame v.timestamp)).map fun call => { s with call := call }

/-- mirrors libagorac/agorac.cpp:400-411 -/
def agoraSendAudio (fl : Floats F) (cfg : Config) (s : Session F) (v : SendAudio) : Option (Session F) :=
  (newWork v.buffer v.len).bind fun buffer =>
  ((system fl cfg).step s.call (.audio buffer v.timestamp)).map fun call => { s with call := call }

def sessionSystem {G : Type} (R : NginxRtmp) (q : FloatFormat G) (fl : Floats F) (cfg : Config) :
    LTS (Session F) Event where
  init s := s.call = init fl cfg ∧ s.outbox = [] ∧ (s.audio.ctx = none ∨ s.audio.ctx = some ⟨none⟩)
  step s
    | .video codec h msg =>
      if s.Ready then
        (Video.ngxAgoraSendVideo R true codec h msg).bind fun
          | (_, none) => some s
          | (_, some v) => agoraSendVideo fl cfg s v
      else none
    | .audio m =>
      if s.Ready then
        (sendAndDecode R q s.audio m).map fun (audio, decodings) =>
          { s with audio := audio, outbox := decodings.flatMap (·.sends) }
      else none
    | .send =>
      match s.outbox with
      | [] => none
      | v :: rest => (agoraSendAudio fl cfg s v).map fun s => { s with outbox := rest }
    | .party l =>
      if adds l then none else ((system fl cfg).step s.call l).map fun call => { s with call := call }

variable {G : Type} {R : NginxRtmp} {q : FloatFormat G} {fl : Floats F} {cfg : Config}

/-- The message starts a decoding, and the decoder has a frame. -/
def Decodes (R : NginxRtmp) (s : AudioState) (m : AudioInput) : Prop :=
  (∃ a, s.ctx = some a ∧ Flushes R a m.message) ∧ m.env.frame.isSome

/-- What follows the first packet has been tested. -/
def Tested (flushed : List SendAudio) : Prop :=
  ∀ v ∈ flushed, 0 < v.len ∧ v.len ≤ 1000 ∧ v.buffer.length = 1000

theorem sendAndDecode_sends {s s' : AudioState} {m : AudioInput} {decodings : List Decoding}
    (hb : ∀ a, s.ctx = some a → Buffered a) (h : sendAndDecode R q s m = some (s', decodings)) :
    (∀ a, s'.ctx = some a → Buffered a) ∧
      (Decodes R s m → ∃ flushed, Tested flushed ∧ decodings.flatMap (·.sends) =
        ⟨m.env.opus.out, m.env.opus.ret, m.message.h.timestamp⟩ :: flushed) ∧
      (¬ Decodes R s m → decodings.flatMap (·.sends) = []) := by
  obtain ⟨⟨ctx, calls⟩, hsend, hdec⟩ := Option.bind_eq_some_iff.mp h
  obtain ⟨⟨opus, ds⟩, hcalls, hpair⟩ := Option.map_eq_some_iff.mp hdec
  cases hpair
  cases hctx : s.ctx with
  | none =>
    rw [hctx] at hsend
    cases hsend
    cases hcalls
    refine ⟨nofun, fun hd => ?_, fun _ => rfl⟩
    obtain ⟨⟨a, ha, -⟩, -⟩ := hd
    rw [hctx] at ha
    cases ha
  | some a =>
    rw [hctx] at hsend
    obtain ⟨a', rfl, hb', hyes, hno⟩ := sendAudio_calls (hb a hctx) hsend
    refine ⟨fun b hb => Option.some.inj hb ▸ hb', ?_⟩
    by_cases hf : Flushes R a m.message
    · rw [hyes hf] at hcalls
      obtain ⟨⟨o, packets, sends⟩, hd, hnil⟩ := Option.bind_eq_some_iff.mp hcalls
      cases hnil
      obtain ⟨hnone, hsome⟩ := decodeAccAudio_lengths q hd
      have hflat : [(⟨a.content, packets, sends⟩ : Decoding)].flatMap (·.sends) = sends := List.append_nil sends
      refine ⟨fun hdec => ?_, fun hdec => ?_⟩
      · obtain ⟨flushed, hs, ht⟩ := hsome hdec.2
        exact ⟨flushed, ht, hflat.trans hs⟩
      · refine hflat.trans (hnone ?_)
        by_contra hne
        exact hdec ⟨⟨a, hctx, hf⟩, Option.isSome_iff_ne_none.mpr hne⟩
    · rw [hno hf] at hcalls
      cases hcalls
      refine ⟨fun hdec => ?_, fun _ => rfl⟩
      obtain ⟨⟨b, hb, hfb⟩, -⟩ := hdec
      rw [hctx] at hb
      cases hb
      exact absurd hfb hf

/-! ## One step -/

/-- A message that does not make a frame of no bytes. -/
def Careful (R : NginxRtmp) (s : Session F) : Event → Prop
  | .video codec h msg => ∀ c fmt cts us, codec = some c → ¬ Video.EmptyFrame R c h msg fmt cts us
  | .audio m => Decodes R s.audio m → m.env.opus.ret ≠ 0
  | _ => True

structure Sound (s : Session F) : Prop where
  works : Holding RealVideo RealAudio s.call
  buffered : ∀ a, s.audio.ctx = some a → Buffered a
  outbox : ∀ v ∈ s.outbox, v.len ≠ 0 ∧ -2 ^ 31 ≤ v.len ∧ v.len ≤ 1000 ∧ v.buffer.length = 1000

theorem Sound.real {s : Session F} (h : Sound s) : Real s.call :=
  ⟨h.works.videoJB, h.works.videoQueueLow, h.works.audioJB⟩

theorem realVideo_sentinel (work : Work) (h : work.isFinished = true) : RealVideo work := .inl h

theorem realAudio_sentinel (work : Work) (h : work.isFinished = true) : RealAudio work := .inl h

/-- The `add` of a producer. -/
theorem video_step {s t : Call F} {buffer : Bytes} {isKeyFrame : Bool} {timestamp : Int}
    (h : (system fl cfg).step s (.video buffer isKeyFrame timestamp) = some t) :
    t = addVideo s buffer isKeyFrame timestamp := by
  cases stepped h with
  | deleted _ h => cases h
  | video => rfl

theorem audio_step {s t : Call F} {buffer : Bytes} {timestamp : Int}
    (h : (system fl cfg).step s (.audio buffer timestamp) = some t) : t = addAudio s buffer timestamp := by
  cases stepped h with
  | deleted _ h => cases h
  | audio => rfl

theorem sendVideo_sound {s t : Session F} {codec : Option CodecCtx} {h : RtmpHeader} {msg : Chain} {ret : Int}
    {v : Video.SendVideo} (hs : Sound s) (hok : Careful R s (.video codec h msg))
    (hv : Video.ngxAgoraSendVideo R true codec h msg = some (ret, some v))
    (hstep : agoraSendVideo fl cfg s v = some t) : Sound t := by
  obtain ⟨hlen, hfit, hstart, hempty⟩ := Video.sendVideo_frame hv
  obtain ⟨buffer, hnew, hmap⟩ := Option.bind_eq_some_iff.mp hstep
  obtain ⟨call, hcall, rfl⟩ := Option.map_eq_some_iff.mp hmap
  have hne : v.buffer ≠ [] := by
    intro he
    obtain ⟨c, fmt, cts, us, hc, hm⟩ := hempty he
    exact hok c fmt cts us hc hm
  have hcap : Video.bufSize = 1048576 := rfl
  rw [hlen, newWork_pos (by omega) (by omega) (by omega), Option.some.injEq] at hnew
  rw [Int.toNat_natCast, List.take_of_length_le (le_refl _)] at hnew
  rw [video_step hcall]
  refine ⟨⟨forall_mem_concat hs.works.videoJB (.inr ?_), hs.works.hand, hs.works.videoQueueLow, hs.works.audioJB⟩,
    hs.buffered, hs.outbox⟩
  rw [← hnew]
  exact ⟨List.length_pos_iff.mpr hne, hfit, hstart.resolve_left hne⟩

theorem sendAudio_sound {s t : Session F} {v : SendAudio} {rest : List SendAudio} (hs : Sound s)
    (hout : s.outbox = v :: rest) (hstep : agoraSendAudio fl cfg s v = some t) :
    Sound { t with outbox := rest } := by
  obtain ⟨hne, hge, hle, hsize⟩ := hs.outbox v (hout ▸ List.mem_cons_self)
  obtain ⟨buffer, hnew, hmap⟩ := Option.bind_eq_some_iff.mp hstep
  obtain ⟨call, hcall, rfl⟩ := Option.map_eq_some_iff.mp hmap
  have hpos : 0 ≤ v.len := by
    by_contra hneg
    rw [newWork_neg (by omega) hge (by omega)] at hnew
    cases hnew
  rw [newWork_pos hpos (by omega) (by omega), Option.some.injEq] at hnew
  rw [audio_step hcall]
  refine ⟨⟨hs.works.videoJB, hs.works.hand, hs.works.videoQueueLow, forall_mem_concat hs.works.audioJB (.inr ?_)⟩,
    hs.buffered, fun w hw => hs.outbox w (hout ▸ List.mem_cons_of_mem _ hw)⟩
  dsimp only
  rw [← hnew, List.length_take]
  omega

theorem step_sound {s t : Session F} {e : Event} (hs : Sound s) (hok : Careful R s e)
    (h : (sessionSystem R q fl cfg).step s e = some t) : Sound t := by
  unfold sessionSystem at h
  cases e with
  | video codec hdr msg =>
    dsimp only at h
    split at h
    · obtain ⟨⟨ret, sent⟩, hv, hsent⟩ := Option.bind_eq_some_iff.mp h
      cases sent with
      | none =>
        cases hsent
        exact hs
      | some v => exact sendVideo_sound hs hok hv hsent
    · cases h
  | audio m =>
    dsimp only at h
    split at h
    · obtain ⟨⟨audio, decodings⟩, hd, rfl⟩ := Option.map_eq_some_iff.mp h
      obtain ⟨hb, hyes, hno⟩ := sendAndDecode_sends hs.buffered hd
      refine ⟨hs.works, hb, fun v hv => ?_⟩
      dsimp only at hv
      by_cases hdec : Decodes R s.audio m
      · obtain ⟨flushed, ht, hflat⟩ := hyes hdec
        rw [hflat] at hv
        rcases List.mem_cons.mp hv with rfl | hv
        · exact ⟨hok hdec, m.env.opus.ret_ge, m.env.opus.ret_le, m.env.opus.out_length⟩
        · obtain ⟨hpos, hle, hsize⟩ := ht v hv
          exact ⟨by omega, by omega, hle, hsize⟩
      · rw [hno hdec] at hv
        cases hv
    · cases h
  | send =>
    dsimp only at h
    split at h
    · cases h
    · next v rest hout =>
      obtain ⟨u, hu, rfl⟩ := Option.map_eq_some_iff.mp h
      exact sendAudio_sound hs hout hu
  | party l =>
    dsimp only at h
    split at h
    · cases h
    · next hl =>
      obtain ⟨call, hcall, rfl⟩ := Option.map_eq_some_iff.mp h
      rw [Bool.not_eq_true] at hl
      exact ⟨step_holding realVideo_sentinel realAudio_sentinel hl hs.works hcall, hs.buffered, hs.outbox⟩

theorem init_sound {s : Session F} (h : (sessionSystem R q fl cfg).init s) : Sound s := by
  obtain ⟨hcall, hout, hctx⟩ := h
  refine ⟨?_, fun a ha => ?_, fun v hv => ?_⟩
  · rw [hcall]
    exact ⟨fun w hw => absurd hw List.not_mem_nil, nofun, fun w hw => absurd hw List.not_mem_nil,
      fun w hw => absurd hw List.not_mem_nil⟩
  · rcases hctx with hn | hf
    · rw [hn] at ha
      cases ha
    · rw [hf] at ha
      cases ha
      exact buffered_fresh
  · rw [hout] at hv
    cases hv

/-! ## The messages that break it -/

theorem newWork_zero (b : Bytes) : newWork b 0 = some [] := by
  rw [newWork_pos (le_refl 0) (by omega) (by omega), Int.toNat_zero, List.take_zero]

theorem not_real_video {s : Call F} {isKeyFrame : Bool} {timestamp : Int} :
    ¬ Real (addVideo s [] isKeyFrame timestamp) := by
  intro h
  rcases h.videoJB _ (List.mem_append_right _ List.mem_cons_self) with hf | hb
  · cases hf
  · exact Nat.not_succ_le_zero 0 hb.1

theorem not_real_audio {s : Call F} {timestamp : Int} : ¬ Real (addAudio s [] timestamp) := by
  intro h
  rcases h.audioJB _ (List.mem_append_right _ List.mem_cons_self) with hf | hb
  · cases hf
  · exact Nat.not_succ_le_zero 0 hb.1

theorem emptyFrame_step {s : Session F} (hr : s.Ready) {codec : CodecCtx} {h : RtmpHeader} {msg : Chain}
    {fmt : UInt8} {cts : Bytes} {us : List Bytes} (hm : Video.EmptyFrame R codec h msg fmt cts us) :
    (sessionSystem R q fl cfg).step s (.video (some codec) h msg) =
      some { s with call := addVideo s.call [] (R.isKeyFrame msg) h.timestamp } := by
  have hcall : (system fl cfg).step s.call (.video [] (R.isKeyFrame msg) h.timestamp) =
      some (addVideo s.call [] (R.isKeyFrame msg) h.timestamp) := by
    simp only [system, liveStep, hr.2.1, hr.2.2, Bool.false_eq_true, if_false, if_true]
  simp only [sessionSystem]
  rw [if_pos hr, Video.sendVideo_empty hm, Option.bind_some]
  simp only [agoraSendVideo, newWork_zero, hcall, Option.bind_some, Option.map_some]

theorem emptyPacket_step {s t : Session F} {m : AudioInput} (hs : Sound s) (hdec : Decodes R s.audio m)
    (hret : m.env.opus.ret = 0) (h : (sessionSystem R q fl cfg).step s (.audio m) = some t) :
    ∃ u, (sessionSystem R q fl cfg).step t .send = some u ∧ ¬ Real u.call := by
  unfold sessionSystem at h
  dsimp only at h
  split at h
  · next hr =>
    obtain ⟨⟨audio, decodings⟩, hd, rfl⟩ := Option.map_eq_some_iff.mp h
    obtain ⟨flushed, -, hflat⟩ := (sendAndDecode_sends hs.buffered hd).2.1 hdec
    have hcall : (system fl cfg).step s.call (.audio [] m.message.h.timestamp) =
        some (addAudio s.call [] m.message.h.timestamp) := by
      simp only [system, liveStep, hr.2.1, hr.2.2, Bool.false_eq_true, if_false, if_true]
    refine ⟨⟨addAudio s.call [] m.message.h.timestamp, audio, flushed⟩, ?_, not_real_audio⟩
    simp only [sessionSystem, hflat, hret, agoraSendAudio, newWork_zero, hcall, Option.bind_some, Option.map_some]
  · cases h

/-! ## Every run -/

theorem queues_hold_packets (R : NginxRtmp) (q : FloatFormat G) (fl : Floats F) (cfg : Config) (s₀ : Session F)
    (h₀ : (sessionSystem R q fl cfg).init s₀) :
    (∀ s, (sessionSystem R q fl cfg).Run (Careful R) s₀ s → Real s.call) ∧
      ∀ s e t, (sessionSystem R q fl cfg).Run (Careful R) s₀ s → ¬ Careful R s e →
        (sessionSystem R q fl cfg).step s e = some t →
        ¬ Real t.call ∨ ∃ u, (sessionSystem R q fl cfg).step t .send = some u ∧ ¬ Real u.call := by
  have hrun : ∀ s, (sessionSystem R q fl cfg).Run (Careful R) s₀ s → Sound s := fun s hr =>
    hr.invariant (fun _ _ _ hok hs hstep => step_sound hs hok hstep) (init_sound h₀)
  refine ⟨fun s hr => (hrun s hr).real, fun s e t hr hno hstep => ?_⟩
  cases e with
  | video codec h msg =>
    unfold Careful at hno
    push Not at hno
    obtain ⟨c, fmt, cts, us, rfl, hm⟩ := hno
    have hready : s.Ready := by
      by_contra hnot
      simp only [sessionSystem, if_neg hnot] at hstep
      cases hstep
    rw [emptyFrame_step hready hm] at hstep
    cases hstep
    exact .inl not_real_video
  | audio m =>
    unfold Careful at hno
    push Not at hno
    exact .inr (emptyPacket_step (hrun s hr) hno.1 hno.2 hstep)
  | send => exact absurd trivial hno
  | party l => exact absurd trivial hno

/-- An SPS and a PPS in a message of their own. -/
def parameterSets : List Bytes := [[0x67, 0x42], [0x68, 0xce]]

def parameterSetsMsg : Chain := [Video.encodeMessage 4 0x17 [0, 0, 0] parameterSets]

theorem parameterSets_empty :
    Video.EmptyFrame .released Video.sampleCodec ⟨17, 40, by decide⟩ parameterSetsMsg 0x17 [0, 0, 0] parameterSets :=
  ⟨rfl, by decide, by decide, rfl, rfl, by decide, .inr Video.sampleCodec_nalBytes, by decide, by decide, by decide⟩

def idleConfig : Config := ⟨true, 120, 8000, 15, 15, 0⟩

def idleSession : Session Rat := ⟨init rationals idleConfig, ⟨some ⟨none⟩, monoContext⟩, []⟩

theorem idleSession_init : (sessionSystem .released exactFormat rationals idleConfig).init idleSession :=
  ⟨rfl, rfl, .inr rfl⟩

theorem queues_hold_packets_idle :
    (∀ s, (sessionSystem .released exactFormat rationals idleConfig).Run (Careful .released) idleSession s →
        Real s.call) ∧
      ∀ s e t, (sessionSystem .released exactFormat rationals idleConfig).Run (Careful .released) idleSession s →
        ¬ Careful .released s e → (sessionSystem .released exactFormat rationals idleConfig).step s e = some t →
        ¬ Real t.call ∨ ∃ u, (sessionSystem .released exactFormat rationals idleConfig).step t .send = some u ∧
          ¬ Real u.call :=
  queues_hold_packets .released exactFormat rationals idleConfig idleSession idleSession_init

theorem queues_hold_empty_frame :
    ∃ s, (sessionSystem .released exactFormat rationals idleConfig).Reachable s ∧
      s.call.videoJB = [⟨0, [], true, false, 40⟩] ∧ ¬ Real s.call := by
  have hstep : (sessionSystem .released exactFormat rationals idleConfig).step idleSession
      (.video (some Video.sampleCodec) ⟨17, 40, by decide⟩ parameterSetsMsg) = some _ :=
    emptyFrame_step ⟨rfl, rfl, rfl⟩ parameterSets_empty
  exact ⟨_, ⟨idleSession, idleSession_init, .tail _ .refl trivial hstep⟩, rfl, not_real_video⟩

end Rtmpg.Packets
