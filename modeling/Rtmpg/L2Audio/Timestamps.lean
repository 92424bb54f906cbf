import Rtmpg.L2Audio.Decode
import Rtmpg.L2Audio.Frames
import Rtmpg.L2Video.Convert

/-!
# Whose timestamp a decoded frame gets

`ngx_flush_audio` hands the header of the message that is being appended to
`decode_acc_audio`, not that of the message whose frame it flushes
(`ngx_agora_helper.c:663-680,810-823`). So what is decoded of one accepted
message carries the timestamp of the next one.

`ngx_agora_send_audio` with the decoding it starts is `sendAndDecode`. An
`AudioInput` is a delivered message together with what `decode_acc_audio`
meets if it is called for the frame pending at that moment; there is at most
one such call in a message.

* `runStream_decodes`: which message a decoding is of, and which timestamp it
  carries, over any number of messages.
* `runStream_timestamps`: every decoding carries the timestamp of its own
  message exactly when no message is decoded during a message of another
  timestamp.
* `runStream_returns`: with frames that fit the conversion the run returns.
-/
namespace Rtmpg.Adts

open Rtmpg.Bytes Rtmpg.Chain Rtmpg.Opus

structure AudioInput where
  message : AudioMessage
  env : DecodeEnv

/-- A call of `decode_acc_audio`: its data, the Opus packets and the calls of
`agora_send_audio`. -/
structure Decoding where
  data : Bytes
  packets : List Bytes
  sends : List SendAudio
  deriving DecidableEq, Repr

/-- `agora_audio_context_t`, with the part of `ngx_flush_audio` and that of Opus. -/
structure AudioState where
  ctx : Option AudioCtx
  opus : AgoraAudioContext

variable {F : Type}

def decodeCalls (q : FloatFormat F) (env : DecodeEnv) (a : AgoraAudioContext) :
    List DecodeCall → Option (AgoraAudioContext × List Decoding)
  | [] => some (a, [])
  | call :: calls =>
    (decodeAccAudio q a env call.timestamp).bind fun (a, packets, sends) =>
    (decodeCalls q env a calls).map fun (a, more) => (a, ⟨call.data, packets, sends⟩ :: more)

/-- mirrors ngx_agora_helper.c:755-861, with ngx_flush_audio and decode_acc_audio -/
def sendAndDecode (R : NginxRtmp) (q : FloatFormat F) (s : AudioState) (m : AudioInput) :
    Option (AudioState × List Decoding) :=
  (ngxAgoraSendAudio R m.message.alloc m.message.codec m.message.h m.message.chain s.ctx).bind
    fun (ctx, calls) =>
  (decodeCalls q m.env s.opus calls).map fun (a, decodings) => (⟨ctx, a⟩, decodings)

def runStream (R : NginxRtmp) (q : FloatFormat F) (s : AudioState) :
    List AudioInput → Option (AudioState × List Decoding)
  | [] => some (s, [])
  | m :: ms =>
    (sendAndDecode R q s m).bind fun (s, decodings) =>
    (runStream R q s ms).map fun (s, more) => (s, decodings ++ more)

/-! ## Which message is decoded when -/

/-- The neighbours in a list. -/
def consecutive {α : Type} : List α → List (α × α)
  | x :: y :: l => (x, y) :: consecutive (y :: l)
  | _ => []

/-- The frame of the first message, decoded during the second one. -/
structure Decodes (pair : AudioInput × AudioInput) (d : Decoding) : Prop where
  frame : IsAdtsFrame pair.1.message d.data
  timestamp : ∀ send ∈ d.sends, send.timestamp = pair.2.message.h.timestamp
  sends : pair.2.env.frame.isSome ↔ d.sends ≠ []

/-- The message whose frame is pending. -/
def Owns (owner : Option AudioInput) (content : Bytes) : Prop :=
  match owner with
  | none => content = []
  | some m => content ≠ [] ∧ IsAdtsFrame m.message content

theorem runStream_decodes (R : NginxRtmp) (q : FloatFormat F) : ∀ (ms : List AudioInput) (ctx : AudioCtx)
    (a : AgoraAudioContext) (content : Bytes) (owner : Option AudioInput) (s : AudioState)
    (decodings : List Decoding), Holds ctx content → Owns owner content →
    (∀ m ∈ ms, Delivered R m.message) → runStream R q ⟨some ctx, a⟩ ms = some (s, decodings) →
    List.Forall₂ Decodes
      (consecutive (owner.toList ++ ms.filter fun m => decide (Accepted R m.message))) decodings := by
  intro ms
  induction ms with
  | nil =>
    intro ctx a content owner s decodings _ _ _ hrun
    cases hrun
    cases owner <;> exact .nil
  | cons m ms ih =>
    intro ctx a content owner s decodings h ho hms hrun
    have hm := hms m (by simp)
    have htl : ∀ m ∈ ms, Delivered R m.message := fun m hm => hms m (by simp [hm])
    obtain ⟨⟨s₁, first⟩, hstep, hrest⟩ := Option.bind_eq_some_iff.mp hrun
    obtain ⟨⟨s₂, more⟩, hmore, hpair⟩ := Option.map_eq_some_iff.mp hrest
    cases hpair
    obtain ⟨⟨ctx₁, calls⟩, hsend, hdec⟩ := Option.bind_eq_some_iff.mp hstep
    obtain ⟨⟨a₁, ds⟩, hcalls, hpair⟩ := Option.map_eq_some_iff.mp hdec
    cases hpair
    by_cases hacc : Accepted R m.message
    · obtain ⟨ctx', frame, hs, h', hne, hframe⟩ := sendAudio_accepts h hm hacc
      rw [hs, Option.some.injEq, Prod.mk.injEq] at hsend
      obtain ⟨rfl, rfl⟩ := hsend
      have hlater := ih ctx' a₁ frame (some m) s more h' ⟨hne, hframe⟩ htl hmore
      rw [List.filter_cons_of_pos (by simpa using hacc)]
      cases owner with
      | none =>
        -- nothing is pending, so nothing is decoded
        rw [show content = [] from ho, if_pos rfl] at hcalls
        cases hcalls
        exact hlater
      | some m₀ =>
        obtain ⟨hcne, hcframe⟩ := ho
        rw [if_neg hcne] at hcalls
        obtain ⟨⟨a₂, packets, sends⟩, hd, htail⟩ := Option.bind_eq_some_iff.mp hcalls
        cases htail
        obtain ⟨hts, hsome⟩ := decodeAccAudio_sends q hd
        exact .cons ⟨hcframe, hts, hsome⟩ hlater
    · obtain ⟨ctx', hs, h'⟩ := sendAudio_rejects h hm hacc
      rw [hs, Option.some.injEq, Prod.mk.injEq] at hsend
      obtain ⟨rfl, rfl⟩ := hsend
      cases hcalls
      rw [List.filter_cons_of_neg (by simpa using hacc)]
      exact ih ctx' a content owner s more h' ho htl hmore

/-! ## Its own timestamp -/

/-- What is enqueued while the frame of `m` is being decoded carries the timestamp of `m`. -/
def KeepsTimestamp (m : AudioInput) (d : Decoding) : Prop :=
  ∀ send ∈ d.sends, send.timestamp = m.message.h.timestamp

/-- If the decoder has a frame while `next` is sent, `next` has the timestamp of the
message `m` that frame is of. -/
def SameTimestamp (m next : AudioInput) : Prop :=
  next.env.frame.isSome → next.message.h.timestamp = m.message.h.timestamp

theorem decodes_keeps {m next : AudioInput} {d : Decoding} (h : Decodes (m, next) d) :
    KeepsTimestamp m d ↔ SameTimestamp m next := by
  constructor
  · intro hk hsome
    obtain ⟨send, hmem⟩ := List.exists_mem_of_ne_nil d.sends (h.sends.mp hsome)
    exact (h.timestamp send hmem).symm.trans (hk send hmem)
  · intro hs send hmem
    exact (h.timestamp send hmem).trans (hs (h.sends.mpr (List.ne_nil_of_mem hmem)))

theorem decodes_frames : ∀ (l : List AudioInput) (ds : List Decoding), List.Forall₂ Decodes (consecutive l) ds →
    List.Forall₂ (fun m d => IsAdtsFrame m.message d.data) l.dropLast ds
  | [], _, h => by
    cases h
    exact .nil
  | [_], _, h => by
    cases h
    exact .nil
  | m :: next :: l, _, .cons hd htl => .cons hd.frame (decodes_frames (next :: l) _ htl)

theorem decodes_timestamps : ∀ (l : List AudioInput) (ds : List Decoding),
    List.Forall₂ Decodes (consecutive l) ds →
    (List.Forall₂ KeepsTimestamp l.dropLast ds ↔ l.IsChain SameTimestamp)
  | [], _, h => by
    cases h
    exact iff_of_true .nil .nil
  | [m], _, h => by
    cases h
    exact iff_of_true .nil (.singleton m)
  | m :: next :: l, _, .cons hd htl => by
    rw [List.dropLast_cons_cons, List.forall₂_cons, List.isChain_cons_cons, decodes_keeps hd,
      decodes_timestamps (next :: l) _ htl]

theorem ngxAgoraSendVideo_timestamp {R : NginxRtmp} {connected : Bool} {codec : Option CodecCtx}
    {h : RtmpHeader} {msg : Chain} {ret : Int} {v : Video.SendVideo}
    (hv : Video.ngxAgoraSendVideo R connected codec h msg = some (ret, some v)) : v.timestamp = h.timestamp := by
  unfold Video.ngxAgoraSendVideo at hv
  split at hv
  · cases hv
  · split at hv <;> cases hv
    rfl

/-- The decoded frames keep their timestamps exactly when all accepted messages have the same;
then audio and video sent with one timestamp were published with one. -/
theorem runStream_timestamps (R : NginxRtmp) (q : FloatFormat F) (a : AgoraAudioContext) (ms : List AudioInput)
    (hms : ∀ m ∈ ms, Delivered R m.message) (s : AudioState) (decodings : List Decoding)
    (hrun : runStream R q ⟨some ⟨none⟩, a⟩ ms = some (s, decodings)) :
    let accepted := ms.filter fun m => decide (Accepted R m.message)
    List.Forall₂ (fun m d => IsAdtsFrame m.message d.data) accepted.dropLast decodings ∧
      (List.Forall₂ KeepsTimestamp accepted.dropLast decodings ↔ accepted.IsChain SameTimestamp) ∧
      (accepted.IsChain SameTimestamp → ∀ codec h msg ret v,
        Video.ngxAgoraSendVideo R true codec h msg = some (ret, some v) →
        ∀ p ∈ accepted.dropLast.zip decodings, ∀ send ∈ p.2.sends, send.timestamp = v.timestamp →
          p.1.message.h.timestamp = h.timestamp) := by
  intro accepted
  have hd : List.Forall₂ Decodes (consecutive accepted) decodings :=
    runStream_decodes R q ms ⟨none⟩ a [] none s decodings holds_fresh rfl hms hrun
  have hiff := decodes_timestamps accepted decodings hd
  refine ⟨decodes_frames accepted decodings hd, hiff, ?_⟩
  intro hchain codec h msg ret v hv p hp send hsend heq
  have hkeeps := (List.forall₂_iff_zip.mp (hiff.mpr hchain)).2 hp send hsend
  rw [← hkeeps, heq, ngxAgoraSendVideo_timestamp hv]

/-! ## The run returns -/

theorem runStream_returns (R : NginxRtmp) (q : FloatFormat F) {ch : Nat} : ∀ (ms : List AudioInput)
    (ctx : AudioCtx) (content : Bytes) (a : AgoraAudioContext) (n : Nat), Holds ctx content → Carry ch n a →
    n < 15 → (∀ m ∈ ms, Delivered R m.message) → (∀ m ∈ ms, ∀ f ∈ m.env.frame, f.Fits ch) →
    ∃ s decodings, runStream R q ⟨some ctx, a⟩ ms = some (s, decodings) := by
  intro ms
  induction ms with
  | nil => exact fun ctx _ a _ _ _ _ _ _ => ⟨⟨some ctx, a⟩, [], rfl⟩
  | cons m ms ih =>
    intro ctx content a n h hc hn hms hfit
    have hm := hms m (by simp)
    have htl : ∀ m ∈ ms, Delivered R m.message := fun m hm => hms m (by simp [hm])
    have hfl : ∀ m ∈ ms, ∀ f ∈ m.env.frame, f.Fits ch := fun m hm => hfit m (by simp [hm])
    by_cases hacc : Accepted R m.message
    · obtain ⟨ctx', frame, hs, h', -, -⟩ := sendAudio_accepts h hm hacc
      obtain ⟨a₁, k, first, hdec, hk, hc₁⟩ : ∃ a₁ k first,
          decodeCalls q m.env a (if content = [] then [] else [⟨content, m.message.h.timestamp⟩]) =
            some (a₁, first) ∧ k < 15 ∧ Carry ch k a₁ := by
        by_cases hnil : content = []
        · exact ⟨a, n, [], by rw [if_pos hnil]; rfl, hn, hc⟩
        · rw [if_neg hnil]
          cases he : m.env.frame with
          | none =>
            refine ⟨a, n, [⟨content, [], []⟩], ?_, hn, hc⟩
            simp only [decodeCalls, decodeAccAudio, he, Option.bind_some, Option.map_some]
          | some f =>
            obtain ⟨a₁, packets, sends, k, hd, hk, hc₁, -⟩ :=
              decodeAccAudio_carry q hc hn m.env he (hfit m (by simp) f he) m.message.h.timestamp
            refine ⟨a₁, k, [⟨content, packets, sends⟩], ?_, hk, hc₁⟩
            simp only [decodeCalls, hd, Option.bind_some, Option.map_some]
      obtain ⟨s, more, hrun⟩ := ih ctx' frame a₁ k h' hc₁ hk htl hfl
      refine ⟨s, first ++ more, ?_⟩
      simp only [runStream, sendAndDecode, hs, hdec, hrun, Option.bind_some, Option.map_some]
    · obtain ⟨ctx', hs, h'⟩ := sendAudio_rejects h hm hacc
      obtain ⟨s, more, hrun⟩ := ih ctx' content a n h' hc hn htl hfl
      refine ⟨s, more, ?_⟩
      simp only [runStream, sendAndDecode, hs, decodeCalls, hrun, Option.bind_some, Option.map_some,
        List.nil_append]

/-- An AAC message; a frame of silence is decoded while it is sent. -/
def stampedInput (timestamp : Nat) : AudioInput where
  message := { monoMessage [0xaf, 1, 0x21, 0x10] frame_lt with h := ⟨4, timestamp, by decide⟩ }
  env := filledEnv 0 (silentFrame 1024)

theorem stampedInput_delivered (timestamp : Nat) : Delivered .released (stampedInput timestamp).message :=
  ⟨rfl, ⟨monoCodec, rfl, rfl, by decide⟩, ⟨_, _, rfl⟩⟩

theorem stampedInput_accepted (timestamp : Nat) : Accepted .released (stampedInput timestamp).message :=
  ⟨show 2 ≤ 4 by decide, rfl, show 4 + 5 ≤ 2 * 1024 by decide⟩

theorem stamped_returns (ms : List Nat) : ∃ s decodings,
    runStream .released exactFormat ⟨some ⟨none⟩, monoContext⟩ (ms.map stampedInput) = some (s, decodings) := by
  refine runStream_returns .released exactFormat (ms.map stampedInput) ⟨none⟩ [] monoContext 0 holds_fresh
    ⟨.inl rfl, rfl, List.length_replicate, rfl⟩ (by decide) (fun m hm => ?_) fun m hm f hf => ?_
  · obtain ⟨timestamp, -, rfl⟩ := List.mem_map.mp hm
    exact stampedInput_delivered timestamp
  · obtain ⟨timestamp, -, rfl⟩ := List.mem_map.mp hm
    cases hf
    exact silentFrame_fits 1024 (by decide) (by decide)

theorem runStream_timestamps_same :
    ∃ s decodings, runStream .released exactFormat ⟨some ⟨none⟩, monoContext⟩ ([0, 0].map stampedInput) =
        some (s, decodings) ∧
      let accepted := ([0, 0].map stampedInput).filter fun m => decide (Accepted .released m.message)
      List.Forall₂ (fun m d => IsAdtsFrame m.message d.data) accepted.dropLast decodings ∧
        (List.Forall₂ KeepsTimestamp accepted.dropLast decodings ↔ accepted.IsChain SameTimestamp) ∧
        (accepted.IsChain SameTimestamp → ∀ codec h msg ret v,
          Video.ngxAgoraSendVideo .released true codec h msg = some (ret, some v) →
          ∀ p ∈ accepted.dropLast.zip decodings, ∀ send ∈ p.2.sends, send.timestamp = v.timestamp →
            p.1.message.h.timestamp = h.timestamp) := by
  obtain ⟨s, decodings, hrun⟩ := stamped_returns [0, 0]
  refine ⟨s, decodings, hrun, runStream_timestamps .released exactFormat monoContext _ (fun m hm => ?_) s
    decodings hrun⟩
  obtain ⟨timestamp, -, rfl⟩ := List.mem_map.mp hm
  exact stampedInput_delivered timestamp

/-- The frame of the message at 0 ms is enqueued with the 23 ms of the next one. -/
theorem runStream_late :
    ∃ s decodings, runStream .released exactFormat ⟨some ⟨none⟩, monoContext⟩ ([0, 23].map stampedInput) =
        some (s, decodings) ∧
      ¬ List.Forall₂ KeepsTimestamp
        (([0, 23].map stampedInput).filter fun m => decide (Accepted .released m.message)).dropLast decodings := by
  obtain ⟨s, decodings, hrun⟩ := stamped_returns [0, 23]
  refine ⟨s, decodings, hrun, ?_⟩
  have hd := runStream_decodes .released exactFormat _ ⟨none⟩ monoContext [] none s decodings holds_fresh rfl
    (fun m hm => by
      obtain ⟨timestamp, -, rfl⟩ := List.mem_map.mp hm
      exact stampedInput_delivered timestamp) hrun
  have hall : ([0, 23].map stampedInput).filter (fun m => decide (Accepted .released m.message)) =
      [stampedInput 0, stampedInput 23] := by
    refine List.filter_eq_self.mpr fun m hm => ?_
    obtain ⟨timestamp, -, rfl⟩ := List.mem_map.mp hm
    exact decide_eq_true (stampedInput_accepted timestamp)
  rw [hall] at hd ⊢
  intro hkeeps
  have hchain := (decodes_timestamps [stampedInput 0, stampedInput 23] _ hd).mp hkeeps
  rw [List.isChain_cons_cons] at hchain
  exact absurd (hchain.1 rfl) (by decide)

end Rtmpg.Adts
