import Rtmpg.L2Video.Bounds
import Rtmpg.L2Video.Translate

/-!
# A whole video message

`avcc_to_annexb` on an arbitrary chain, in terms of the bytes it holds:

* `avccToAnnexb_message`: on `fmt`, 1, three `cts` bytes and a payload the
  result is that of the conversion loop on the payload.
* `avccToAnnexb_delivers`: a call that sets `*out_buffer` has read such a
  message, and its payload splits into units.
* `delivered_translation`: what it delivers is the reference translation,
  provided that fits the buffer.
-/
namespace Rtmpg.Video

open Rtmpg.Bytes Rtmpg.Chain Rtmpg.AnnexB

/-- The loop's variables before the first unit. -/
def Conv.start (payload : Bytes) : Conv := ⟨one payload, Out.empty bufSize, false, false⟩

@[simp] theorem start_data (payload : Bytes) : (Conv.start payload).out.data = [] := rfl
@[simp] theorem start_cap (payload : Bytes) : (Conv.start payload).out.cap = bufSize := rfl

theorem start_inSync (payload : Bytes) : InSync (Conv.start payload) .none :=
  ⟨rfl, rfl, by simp [Emitted.none]⟩

/-- The end of `avcc_to_annexb`, after the loop. -/
def finish (R : NginxRtmp) : Option Done → Option Annexb
  | none => none
  | some (.ret rc) => some ⟨rc.toInt, none⟩
  | some (.filled o) => some (deliver R o)

theorem sameBytes_joined {c : Chain} (h : c ≠ []) : SameBytes c [flat c] :=
  sameBytes_of_ne h (List.cons_ne_nil _ _) (by simp [flat])

theorem sameCodec_refl (codec : CodecCtx) : SameCodec? (some codec) (some codec) :=
  ⟨rfl, rfl, rfl, sameBytes_refl _, sameBytes_refl _⟩

theorem avccToAnnexb_message (R : NginxRtmp) {codec : CodecCtx} {h : RtmpHeader} {msg : Chain}
    {fmt : UInt8} {cts payload : Bytes} (hhdr : codec.avcHeader ≠ []) (hlen : 1 ≤ h.mlen)
    (hid : codec.videoCodecId = R.videoH264) (hne : msg ≠ []) (hcts : cts.length = 3)
    (hmsg : flat msg = fmt :: 1 :: cts ++ payload) :
    avccToAnnexb R (some codec) h msg =
      finish R (convLoop R codec (flat msg).length (Conv.start payload)) := by
  have h1 : ngxCustomCopy 1 [fmt :: 1 :: cts ++ payload] = ⟨.ok, [fmt], one (1 :: cts ++ payload)⟩ :=
    ngxCustomCopy_single _ 1 (by simp)
  have h2 := ngxCustomCopy_one [1] (cts ++ payload) (by simp)
  have h3 := ngxCustomCopy_one cts payload (by intro e; simp at e; simp [e.1] at hcts)
  rw [hcts] at h3
  simp only [List.length_singleton, List.singleton_append, ← List.cons_append] at h2
  rw [avccToAnnexb_congr R (sameCodec_refl codec) h (sameBytes_joined hne), hmsg]
  have hflat : flat [fmt :: 1 :: cts ++ payload] = fmt :: 1 :: cts ++ payload := List.append_nil _
  simp only [avccToAnnexb, if_neg (not_or.mpr ⟨hhdr, Nat.not_lt.mpr hlen⟩), hid, ne_eq, not_true_eq_false,
    List.cons_ne_nil, h1, h2, h3, reduceCtorEq, if_false, hflat]
  unfold finish Conv.start
  rfl

/-- The shape of a message that makes it to the end. -/
theorem avccToAnnexb_delivers (R : NginxRtmp) {codec : CodecCtx} {h : RtmpHeader} {msg : Chain}
    {r : Annexb} {buf : Bytes} (hr : avccToAnnexb R (some codec) h msg = some r)
    (hb : r.outBuffer = some buf) :
    codec.avcHeader ≠ [] ∧ 1 ≤ h.mlen ∧ codec.videoCodecId = R.videoH264 ∧ msg ≠ [] ∧
      ∃ fmt cts payload, cts.length = 3 ∧ flat msg = fmt :: 1 :: cts ++ payload := by
  have hnone : ∀ rc : Int, some (⟨rc, none⟩ : Annexb) ≠ some r := by
    rintro rc ⟨⟩
    cases hb
  by_cases hg : codec.avcHeader = [] ∨ h.mlen < 1
  · simp only [avccToAnnexb, if_pos hg] at hr
    exact absurd hr (hnone _)
  by_cases hid : codec.videoCodecId = R.videoH264
  swap
  · simp only [avccToAnnexb, if_neg hg, ne_eq, hid, not_false_eq_true, if_true] at hr
    exact absurd hr (hnone _)
  by_cases hne : msg = []
  · simp only [avccToAnnexb, if_neg hg, ne_eq, hid, not_true_eq_false, if_false, hne, if_true] at hr
    cases hr
  rw [not_or, Nat.not_lt] at hg
  refine ⟨hg.1, hg.2, hid, hne, ?_⟩
  rw [avccToAnnexb_congr R (sameCodec_refl codec) h (sameBytes_joined hne)] at hr
  generalize flat msg = bs at hr ⊢
  simp only [avccToAnnexb, if_neg (not_or.mpr ⟨hg.1, Nat.not_lt.mpr hg.2⟩), hid, ne_eq,
    not_true_eq_false, List.cons_ne_nil, if_false] at hr
  -- the three reads of the message header
  cases bs with
  | nil => exact absurd hr (hnone _)
  | cons fmt bs =>
    have h1 : ngxCustomCopy 1 [fmt :: bs] = ⟨.ok, [fmt], one bs⟩ := ngxCustomCopy_single _ 1 (by simp)
    simp only [h1, reduceCtorEq, if_false] at hr
    cases bs with
    | nil => exact absurd hr (hnone _)
    | cons t bs =>
      have h2 := ngxCustomCopy_one [t] bs (by simp)
      simp only [List.length_singleton, List.singleton_append] at h2
      simp only [h2, reduceCtorEq, if_false] at hr
      by_cases ht : t = 1
      swap
      · rw [if_pos (by simpa using ht)] at hr
        exact absurd hr (hnone _)
      subst ht
      by_cases h3 : 3 ≤ bs.length
      · exact ⟨fmt, bs.take 3, bs.drop 3, List.length_take_of_le h3, by simp⟩
      · have hrd := ngxCustomCopy_error (one bs) 3 (.inr (by rw [flat_one]; omega))
        simp only [not_true_eq_false, if_false, hrd, if_true] at hr
        exact absurd hr (hnone _)

/-- A delivered frame is what the loop has filled the buffer with. -/
theorem finish_delivers (R : NginxRtmp) {d : Option Done} {r : Annexb} {buf : Bytes}
    (hr : finish R d = some r) (hb : r.outBuffer = some buf) :
    ∃ o, d = some (.filled o) ∧ o.data = buf ∧ r.ret = buf.length := by
  match d, hr with
  | some (.ret rc), hr =>
    simp only [finish, Option.some.injEq] at hr
    rw [← hr] at hb
    cases hb
  | some (.filled o), hr =>
    simp only [finish, deliver, Option.some.injEq] at hr
    rw [← hr] at hb
    dsimp only at hb
    split at hb
    · cases hb
    · simp only [Option.some.injEq] at hb
      exact ⟨o, rfl, hb, by rw [← hr, hb]⟩

/-- A delivered frame: the message it was made from, and its bytes. -/
theorem delivered_translation (R : NginxRtmp) {codec : CodecCtx} (hnb : NalBytesOk codec) {c : AvcConfig}
    (hc : HoldsConfig codec c) {h : RtmpHeader} {msg : Chain} {r : Annexb} {buf : Bytes}
    (hr : avccToAnnexb R (some codec) h msg = some r) (hb : r.outBuffer = some buf) :
    ∃ fmt cts us, cts.length = 3 ∧ flat msg = encodeMessage codec.avcNalBytes fmt cts us ∧
      (∀ u ∈ us, u.length < 256 ^ codec.avcNalBytes) ∧ r.ret = buf.length ∧ buf.length ≤ bufSize ∧
      ((translation c us).length ≤ bufSize → buf = translation c us) := by
  obtain ⟨hhdr, hlen, hid, hne, fmt, cts, payload, hcts, hmsg⟩ := avccToAnnexb_delivers R hr hb
  rw [avccToAnnexb_message R hhdr hlen hid hne hcts hmsg] at hr
  obtain ⟨o, hloop, rfl, hret⟩ := finish_delivers R hr hb
  obtain ⟨us, rfl, hus⟩ := convLoop_filled R codec o _ payload _ rfl hloop
  have hw := convLoop_within R codec o _ (Conv.start _) empty_within hloop
  refine ⟨fmt, cts, us, hcts, hmsg, hus, hret, ?_, fun hfit => ?_⟩
  · exact hw.cap ▸ hw.last
  · have hfuel : us.length ≤ (flat msg).length := by
      have := length_le_frames codec.avcNalBytes hnb.pos us
      rw [hmsg, List.length_append]
      omega
    rw [convLoop_units R codec hnb us _ _ hfuel hus rfl, Option.some.injEq] at hloop
    have hroom : (Conv.start (frames codec.avcNalBytes us)).out.data.length + (translation c us).length ≤
        bufSize := by rwa [start_data, List.length_nil, Nat.zero_add]
    exact unitLoop_translate R hc o us _ _ (start_inSync _) hroom hloop

/-! ## A small stream -/

/-- One SPS and one PPS. -/
def sampleConfig : AvcConfig where
  skipped := [0x17, 0, 0, 0, 0, 1, 0x42, 0, 0x1f, 0xff]
  spsCount := 0xe1
  sps := [[0x67, 0x42]]
  pps := [[0x68, 0xce]]
  trailing := []
  skipped_length := rfl
  spsCount_eq := rfl
  sps_ok := by decide
  pps_length := by decide
  pps_ok := by decide

/-- Its header arrives in two buffers, the cut inside a length field. -/
def sampleCodec : CodecCtx where
  videoCodecId := 7
  audioCodecId := 10
  avcNalBytes := 4
  avcHeader := [sampleConfig.encode.take 12, [], sampleConfig.encode.drop 12]
  aacHeader := [[0xaf, 0, 0x11, 0x88]]

theorem sampleCodec_nalBytes : NalBytesOk sampleCodec := ⟨by decide, by decide⟩

theorem sampleCodec_config : HoldsConfig sampleCodec sampleConfig := ⟨by decide, by decide⟩

end Rtmpg.Video
