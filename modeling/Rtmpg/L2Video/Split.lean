import Mathlib.Data.List.Infix
import Rtmpg.L2Video.Message

/-!
# The delivered stream splits back into its units

When the units of the message and of the `avc_header` are emulation free, an
Annex B splitter run on the delivered bytes returns the bodies of
`translate c us`: the kept units, unmodified and in order, with the delimiter
and the parameter sets at their places.

Every body of the translation is one of the message, one of the header or the
delimiter (`translateFrom_bodies`), so `split_serialize` applies.
-/
namespace Rtmpg.Video

open Rtmpg.Bytes Rtmpg.Chain Rtmpg.AnnexB

theorem audUnit_emulationFree : EmulationFree audUnit.body :=
  ⟨by decide, by decide, by decide, by decide⟩

theorem inserted_bodies (c : AvcConfig) (e : Emitted) (u : Bytes) {v : Nalu} (hv : v ∈ inserted c e u) :
    v = audUnit ∨ v.body ∈ c.sps ++ c.pps := by
  unfold inserted at hv
  rcases List.mem_append.mp hv with hv | hv
  · split at hv
    · left; simpa using hv
    · cases hv
  · split at hv
    · right
      obtain ⟨w, hw, rfl⟩ := List.mem_map.mp hv
      exact hw
    · cases hv

theorem translateFrom_bodies (c : AvcConfig) : ∀ (us : List Bytes) (e : Emitted) {v : Nalu},
    v ∈ translateFrom c e us → v = audUnit ∨ v.body ∈ c.sps ++ c.pps ∨ v.body ∈ us
  | [], _, v, hv => by cases hv
  | u :: us, e, v, hv => by
    by_cases hu : Dropped u
    · rw [translateFrom_dropped c e us hu] at hv
      rcases translateFrom_bodies c us e hv with h | h | h
      · exact .inl h
      · exact .inr (.inl h)
      · exact .inr (.inr (List.mem_cons_of_mem _ h))
    · rw [translateFrom_kept c e us hu, emittedFor, List.append_assoc, List.mem_append,
        List.singleton_append, List.mem_cons] at hv
      rcases hv with hv | rfl | hv
      · rcases inserted_bodies c e u hv with h | h
        · exact .inl h
        · exact .inr (.inl h)
      · exact .inr (.inr List.mem_cons_self)
      · rcases translateFrom_bodies c us _ hv with h | h | h
        · exact .inl h
        · exact .inr (.inl h)
        · exact .inr (.inr (List.mem_cons_of_mem _ h))

theorem translate_emulationFree (c : AvcConfig) (us : List Bytes) (hc : ∀ u ∈ c.sps ++ c.pps, EmulationFree u)
    (hus : ∀ u ∈ us, EmulationFree u) : ∀ v ∈ translate c us, EmulationFree v.body := by
  intro v hv
  rcases translateFrom_bodies c us .none hv with rfl | h | h
  · exact audUnit_emulationFree
  · exact hc _ h
  · exact hus _ h

/-- A message has one reading only. -/
theorem encodeMessage_inj {k : Nat} (hk : 0 < k) {fmt fmt' : UInt8} {cts cts' : Bytes} {us vs : List Bytes}
    (h3 : cts.length = 3) (h3' : cts'.length = 3) (hus : ∀ u ∈ us, u.length < 256 ^ k)
    (hvs : ∀ v ∈ vs, v.length < 256 ^ k) (h : encodeMessage k fmt cts us = encodeMessage k fmt' cts' vs) :
    us = vs := by
  simp only [encodeMessage, List.cons_append, List.cons.injEq, true_and] at h
  exact frames_inj k hk us vs hus hvs (List.append_inj h.2 (h3.trans h3'.symm)).2

/-- A splitter of Annex B gets the inserted and the kept units back, in order, and nothing else. -/
theorem avccToAnnexb_split (R : NginxRtmp) (codec : CodecCtx) (hnb : NalBytesOk codec) (c : AvcConfig)
    (hc : HoldsConfig codec c) (h : RtmpHeader) (msg : Chain) (fmt : UInt8) (cts : Bytes) (us : List Bytes)
    (h3 : cts.length = 3) (hmsg : flat msg = encodeMessage codec.avcNalBytes fmt cts us)
    (hlen : ∀ u ∈ us, u.length < 256 ^ codec.avcNalBytes) (hcfree : ∀ u ∈ c.sps ++ c.pps, EmulationFree u)
    (hfree : ∀ u ∈ us, EmulationFree u) (hfit : (translation c us).length ≤ bufSize) (r : Annexb) (buf : Bytes)
    (hr : avccToAnnexb R (some codec) h msg = some r) (hb : r.outBuffer = some buf) :
    AnnexB.split buf = (translate c us).map Nalu.body := by
  obtain ⟨fmt', cts', vs, h3', hmsg', hvs, -, -, hbuf⟩ := delivered_translation R hnb hc hr hb
  have huv : us = vs := encodeMessage_inj hnb.pos h3 h3' hlen hvs (hmsg.symm.trans hmsg')
  subst huv
  rw [hbuf hfit, translation]
  exact split_serialize _ (translate_emulationFree c us hcfree hfree)

instance (u : Bytes) : Decidable (EmulationFree u) :=
  decidable_of_iff (u ≠ [] ∧ ¬ [0, 0, 0] <:+: u ∧ ¬ [0, 0, 1] <:+: u ∧ u.getLast? ≠ some 0)
    ⟨fun ⟨h1, h2, h3, h4⟩ => ⟨h1, h2, h3, h4⟩, fun h => ⟨h.ne, h.no000, h.no001, h.last⟩⟩

/-- An end-of-sequence unit first, then an SPS that is dropped, then a slice. -/
theorem avccToAnnexb_split_slice :
    AnnexB.split [0, 0, 0, 1, 0x0a, 0, 0, 0, 1, 9, 0xf0, 0, 0, 0, 1, 0x67, 0x42, 0, 0, 0, 1, 0x68, 0xce,
      0, 0, 1, 0x65, 0x88] = [[0x0a], [9, 0xf0], [0x67, 0x42], [0x68, 0xce], [0x65, 0x88]] :=
  avccToAnnexb_split .released sampleCodec sampleCodec_nalBytes sampleConfig sampleCodec_config
    ⟨25, 0, by decide⟩ [[0x17, 1], [0, 0, 0, 0], [0, 0, 1, 0x0a, 0, 0, 0, 2, 0x67], [0x55, 0, 0, 0, 2, 0x65, 0x88]]
    0x17 [0, 0, 0] [[0x0a], [0x67, 0x55], [0x65, 0x88]] rfl (by decide) (by decide) (by decide) (by decide)
    (by decide) ⟨28, some _⟩ _ (by decide) rfl

end Rtmpg.Video
