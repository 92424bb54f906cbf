import Rtmpg.L2Video.Message

/-!
# Which valid frames are delivered

A message whose units are non-empty, one of them kept, and whose translation
leaves a byte of the buffer free should reach `agora_send_video`. The reads
of the loop ask for the type byte of a unit and then for the `len - 1` bytes
behind it; after a one-byte unit at the very end of the chain the second read
asks a `NULL` chain for zero bytes, which `ngx_custom_copy` answers with
`NGX_ERROR`, and the whole frame is discarded.

* `avccToAnnexb_complete`: the frame is delivered exactly when its last unit
  is at least two bytes long.
* `avccToAnnexb_end_of_sequence`: an IDR slice followed by an end-of-sequence
  unit is discarded.
-/
namespace Rtmpg.Video

open Rtmpg.Bytes Rtmpg.Chain Rtmpg.AnnexB

theorem translateFrom_ne_nil (c : AvcConfig) : ∀ (us : List Bytes) (e : Emitted),
    (∃ u ∈ us, ¬ Dropped u) → translateFrom c e us ≠ []
  | [], _, ⟨_, h, _⟩ => by cases h
  | u :: us, e, ⟨v, hv, hk⟩ => by
    by_cases hu : Dropped u
    · rw [translateFrom_dropped c e us hu]
      rcases List.mem_cons.mp hv with rfl | hv
      · exact absurd hu hk
      · exact translateFrom_ne_nil c us e ⟨v, hv, hk⟩
    · rw [translateFrom_kept c e us hu]
      simp [emittedFor]

/-- `ngx_agora_send_video` calls `agora_send_video`. -/
def ReachesSdk (R : NginxRtmp) (codec : Option CodecCtx) (h : RtmpHeader) (msg : Chain) : Prop :=
  ∃ len call, ngxAgoraSendVideo R true codec h msg = some (len, some call)

theorem reachesSdk_of_some (R : NginxRtmp) {codec : Option CodecCtx} {h : RtmpHeader} {msg : Chain}
    {len : Int} {buf : Bytes} (ha : avccToAnnexb R codec h msg = some ⟨len, some buf⟩) :
    ReachesSdk R codec h msg :=
  ⟨len, ⟨buf, len, R.isKeyFrame msg, h.timestamp⟩, by
    simp only [ngxAgoraSendVideo, ha, Bool.true_eq_false, if_false]⟩

theorem not_reachesSdk_of_none (R : NginxRtmp) {codec : Option CodecCtx} {h : RtmpHeader} {msg : Chain}
    {rc : Int} (ha : avccToAnnexb R codec h msg = some ⟨rc, none⟩) : ¬ ReachesSdk R codec h msg := by
  rintro ⟨len, call, hs⟩
  simp [ngxAgoraSendVideo, ha] at hs

/-- A message of kept units that fit reaches the SDK, exactly when its last unit is not a
single byte. -/
theorem avccToAnnexb_complete (R : NginxRtmp) (codec : CodecCtx) (hnb : NalBytesOk codec) (c : AvcConfig)
    (hc : HoldsConfig codec c) (hid : codec.videoCodecId = R.videoH264) (h : RtmpHeader) (hmlen : 1 ≤ h.mlen)
    (msg : Chain) (fmt : UInt8) (cts : Bytes) (us : List Bytes) (h3 : cts.length = 3)
    (hmsg : flat msg = encodeMessage codec.avcNalBytes fmt cts us)
    (hus : ∀ u ∈ us, u ≠ [] ∧ u.length < 256 ^ codec.avcNalBytes) (hkept : ∃ u ∈ us, ¬ Dropped u)
    (hfit : (translation c us).length < bufSize) :
    ReachesSdk R (some codec) h msg ↔ 2 ≤ (us.getLastD []).length := by
  have hne : msg ≠ [] := by rintro rfl; cases hmsg
  have hmsg' : flat msg = fmt :: 1 :: cts ++ frames codec.avcNalBytes us := hmsg
  have hconv := avccToAnnexb_message R hc.1 hmlen hid hne h3 hmsg'
  have hfuel : us.length ≤ (flat msg).length := by
    have := length_le_frames codec.avcNalBytes hnb.pos us
    rw [hmsg', List.length_append]
    omega
  rw [convLoop_units R codec hnb us _ (Conv.start _) hfuel (fun u hu => (hus u hu).2) rfl] at hconv
  have hroom : (Conv.start (frames codec.avcNalBytes us)).out.data.length + (translation c us).length <
      bufSize := by rwa [start_data, List.length_nil, Nat.zero_add]
  -- the last unit decides
  obtain ⟨init, u, rfl⟩ : ∃ init u, us = init ++ [u] := by
    rcases List.eq_nil_or_concat us with rfl | ⟨init, u, e⟩
    · obtain ⟨u, hu, -⟩ := hkept
      cases hu
    · exact ⟨init, u, e.trans (List.concat_eq_append ..)⟩
  have hu : u ≠ [] := (hus u (by simp)).1
  have hpos : 0 < u.length := List.length_pos_iff.mpr hu
  obtain ⟨hone, hmore⟩ := unitLoop_ends R hnb.pos hc init u (start_inSync _) hroom
  have hlast : (init ++ [u]).getLastD [] = u := by simp
  rw [hlast]
  constructor
  · intro hs
    by_contra hlt
    rw [hone (by omega)] at hconv
    exact not_reachesSdk_of_none R hconv hs
  · intro hlen
    obtain ⟨o, ho⟩ := hmore (by omega)
    have hdata : o.data = translation c (init ++ [u]) := by
      have := unitLoop_translate R hc o _ _ _ (start_inSync _) (Nat.le_of_lt hroom) ho
      rwa [start_data, List.nil_append] at this
    have hser : o.data ≠ [] := by
      rw [hdata, translation, ne_eq, serialize_eq_nil]
      exact translateFrom_ne_nil c _ _ hkept
    rw [ho] at hconv
    simp only [finish, deliver, hser, false_and, if_false] at hconv
    exact reachesSdk_of_some R hconv

/-- A slice in the last place is delivered, also behind a one-byte unit. -/
theorem avccToAnnexb_complete_slice :
    ReachesSdk .released (some sampleCodec) ⟨16, 40, by decide⟩
      [[0x17, 1], [0, 0, 0, 0], [0, 0, 1, 0x0a, 0, 0, 0], [2, 0x65, 0x88]] ↔
      2 ≤ ([[0x0a], [0x65, 0x88]].getLastD []).length :=
  avccToAnnexb_complete .released sampleCodec sampleCodec_nalBytes sampleConfig sampleCodec_config rfl
    ⟨16, 40, by decide⟩ (by decide) _ 0x17 [0, 0, 0] [[0x0a], [0x65, 0x88]] rfl (by decide) (by decide)
    (by decide) (by decide)

/-- The units of an IDR picture that ends its sequence. -/
def endOfSequence : List Bytes := [[0x65, 0x88], [0x0a]]

def endOfSequenceMsg : Chain := [encodeMessage 4 0x17 [0, 0, 0] endOfSequence]

theorem avccToAnnexb_end_of_sequence :
    flat endOfSequenceMsg = encodeMessage sampleCodec.avcNalBytes 0x17 [0, 0, 0] endOfSequence ∧
      (∀ u ∈ endOfSequence, u ≠ [] ∧ u.length < 256 ^ sampleCodec.avcNalBytes) ∧
      (∃ u ∈ endOfSequence, ¬ Dropped u) ∧ (translation sampleConfig endOfSequence).length < bufSize ∧
      avccToAnnexb .released (some sampleCodec) ⟨16, 40, by decide⟩ endOfSequenceMsg = some ⟨-1, none⟩ ∧
      ngxAgoraSendVideo .released true (some sampleCodec) ⟨16, 40, by decide⟩ endOfSequenceMsg =
        some (0, none) :=
  ⟨by decide, by decide, by decide, by decide, by decide, by decide⟩

end Rtmpg.Video
