import Rtmpg.L2Video.Split

/-!
# What a delivered frame is

Whenever `avcc_to_annexb` sets `*out_buffer` the message splits exactly into
units, the returned length is that of the delivered bytes, and these are the
reference translation exactly when the translation fits the buffer
(`avccToAnnexb_sound`).

When it does not fit, a frame can be delivered all the same: a failing
`append_aud` or `append_sps_pps` is logged and the loop goes on, so a unit
that still finds room is kept without what should stand in front of it
(`avccToAnnexb_skips_aud`).
-/
namespace Rtmpg.Video

open Rtmpg.Bytes Rtmpg.Chain Rtmpg.AnnexB

/-- A delivered frame comes from a message that splits into units, and is the reference
translation of them exactly when that fits the buffer. -/
theorem avccToAnnexb_sound (R : NginxRtmp) (codec : CodecCtx) (hnb : NalBytesOk codec) (c : AvcConfig)
    (hc : HoldsConfig codec c) (h : RtmpHeader) (msg : Chain) (r : Annexb) (buf : Bytes)
    (hr : avccToAnnexb R (some codec) h msg = some r) (hb : r.outBuffer = some buf) :
    ∃ fmt cts us, cts.length = 3 ∧ flat msg = encodeMessage codec.avcNalBytes fmt cts us ∧
      (∀ u ∈ us, u.length < 256 ^ codec.avcNalBytes) ∧ r.ret = buf.length ∧
      (buf = translation c us ↔ (translation c us).length ≤ bufSize) := by
  obtain ⟨fmt, cts, us, h3, hmsg, hus, hret, hle, hbuf⟩ := delivered_translation R hnb hc hr hb
  exact ⟨fmt, cts, us, h3, hmsg, hus, hret, fun e => e ▸ hle, hbuf⟩

/-- An IDR slice, cut inside `cts` and inside its length field. -/
def sliceMsg : Chain := [[0x17, 1, 0], [0, 0], [], [0, 0], [0, 2, 0x65, 0x88]]

def sliceFrame : Bytes :=
  [0, 0, 0, 1, 9, 0xf0, 0, 0, 0, 1, 0x67, 0x42, 0, 0, 0, 1, 0x68, 0xce, 0, 0, 1, 0x65, 0x88]

theorem avccToAnnexb_sound_slice :
    ∃ fmt cts us, cts.length = 3 ∧ flat sliceMsg = encodeMessage sampleCodec.avcNalBytes fmt cts us ∧
      (∀ u ∈ us, u.length < 256 ^ sampleCodec.avcNalBytes) ∧ (23 : Int) = sliceFrame.length ∧
      (sliceFrame = translation sampleConfig us ↔ (translation sampleConfig us).length ≤ bufSize) :=
  avccToAnnexb_sound .released sampleCodec sampleCodec_nalBytes sampleConfig sampleCodec_config
    ⟨11, 0, by decide⟩ sliceMsg ⟨23, some sliceFrame⟩ sliceFrame (by decide) rfl

/-! ## A full buffer -/

/-! Units of type 12, filler data, do not touch the flags. -/

theorem filler_wants {u : Bytes} (h : nalTypeOf u = 12) : ¬ WantsAud u := by
  unfold WantsAud
  rw [h]
  decide

theorem filler_kept {u : Bytes} (hne : u ≠ []) (h : nalTypeOf u = 12) : ¬ Dropped u := by
  rintro (he | ⟨-, h9⟩)
  · exact hne he
  · rw [h] at h9
    exact absurd h9 (by decide)

theorem filler_inserted (c : AvcConfig) (e : Emitted) {u : Bytes} (h : nalTypeOf u = 12) :
    inserted c e u = [] := by
  have hw := filler_wants h
  simp [inserted, hw, h]

theorem filler_after (e : Emitted) {u : Bytes} (h : nalTypeOf u = 12) :
    e.after u = ⟨true, e.aud, e.params⟩ := by
  have hw := filler_wants h
  simp [Emitted.after, hw, h]

/-- Behind the first unit, filler comes out with the short start code. -/
theorem filler_translate (c : AvcConfig) (u : Bytes) (hne : u ≠ []) (h : nalTypeOf u = 12) (e : Emitted)
    (hany : e.any = true) :
    ∀ n, (serialize (translateFrom c e (List.replicate n u))).length = n * (3 + u.length) ∧
      e.afterAll (List.replicate n u) = e
  | 0 => by simp [translateFrom, serialize_nil, Emitted.afterAll]
  | n + 1 => by
    have he : e.after u = e := by rw [filler_after e h, ← hany]
    obtain ⟨hlen, haft⟩ := filler_translate c u hne h e hany n
    rw [List.replicate_succ, translateFrom_kept c e _ (filler_kept hne h), emittedFor,
      filler_inserted c e h, Emitted.afterAll, if_neg (filler_kept hne h), he, serialize_append,
      List.length_append, hlen]
    refine ⟨?_, haft⟩
    simp [hany, serialize_cons, serialize_nil, startCode, pad]
    ring

/-- The units of the frame: filler, a slice of one byte, and a zero-length unit
that keeps the chain from ending behind the slice. -/
def crowded (n : Nat) (u : Bytes) : List Bytes := List.replicate (n + 1) u ++ [[0x01], []]

/-- Filler from the start of a frame: all but the last five bytes. -/
theorem filler_fills (c : AvcConfig) (n : Nat) (u : Bytes) (hu : u ≠ []) (h : nalTypeOf u = 12)
    (hfull : (n + 1) * (3 + u.length) + 1 + 5 = bufSize) :
    (serialize (translateFrom c .none (List.replicate (n + 1) u))).length + 5 = bufSize ∧
      Emitted.none.afterAll (List.replicate (n + 1) u) = ⟨true, false, false⟩ := by
  obtain ⟨hlen, haft⟩ := filler_translate c u hu h ⟨true, false, false⟩ rfl n
  have hfirst : translateFrom c .none (List.replicate (n + 1) u) =
      ⟨true, u⟩ :: translateFrom c ⟨true, false, false⟩ (List.replicate n u) := by
    rw [List.replicate_succ, translateFrom_kept c _ _ (filler_kept hu h), emittedFor,
      filler_inserted c _ h, filler_after _ h]
    rfl
  constructor
  · rw [hfirst, serialize_cons, List.length_append, hlen, ← hfull]
    simp [startCode, pad]
    ring
  · rw [List.replicate_succ, Emitted.afterAll, if_neg (filler_kept hu h), filler_after _ h]
    exact haft

/-- The reference puts the delimiter in front of the slice. -/
theorem crowded_translation (c : AvcConfig) (n : Nat) (u : Bytes) (hu : u ≠ []) (h : nalTypeOf u = 12)
    (hfull : (n + 1) * (3 + u.length) + 1 + 5 = bufSize) :
    (translation c (crowded n u)).length = bufSize + 5 := by
  obtain ⟨hall, haft⟩ := filler_fills c n u hu h hfull
  have hslice : translateFrom c ⟨true, false, false⟩ [[0x01], []] = [audUnit, ⟨false, [0x01]⟩] := rfl
  rw [translation, translate, crowded, translateFrom_append, haft, hslice, serialize_append,
    List.length_append]
  have : (serialize [audUnit, ⟨false, [0x01]⟩]).length = 10 := rfl
  omega

theorem crowded_loop (R : NginxRtmp) {codec : CodecCtx} (hnb : NalBytesOk codec) {c : AvcConfig}
    (hc : HoldsConfig codec c) (n : Nat) (u : Bytes) (hu : u ≠ []) (h : nalTypeOf u = 12)
    (hfull : (n + 1) * (3 + u.length) + 1 + 5 = bufSize) (payload : Bytes) :
    ∃ o, unitLoop R codec (crowded n u) (Conv.start payload) = .filled o ∧ o.data.length + 1 = bufSize := by
  obtain ⟨hall, haft⟩ := filler_fills c n u hu h hfull
  obtain ⟨s, hl, hs, hcap, hd⟩ := unitLoop_append R hnb.pos hc [[0x01], []] (by simp)
    (List.replicate (n + 1) u) (Conv.start payload) .none (start_inSync _)
    (by rw [start_data, start_cap, List.length_nil]; omega)
  rw [start_data, List.nil_append] at hd
  rw [start_cap] at hcap
  rw [haft] at hs
  have haud : s.audSent = false := hs.aud
  have hne : s.out.data ≠ [] := fun e => absurd (hs.any.mp e) (by decide)
  rw [← hd] at hall
  -- five bytes are free: none of the delimiter, all of the slice
  have h6 : s.out.lacks audNal.length = true := by
    simp only [Out.lacks, decide_eq_true_eq]
    have : audNal.length = 6 := rfl
    omega
  have h5 : s.out.lacks 5 = false := lacks_eq_false.mpr (by omega)
  have hpre : prefixBytes s.out 0x01 = [0, 0, 1, 0x01] := by simp [prefixBytes, hne]
  have h1 : (s.out.push [0, 0, 1, 0x01]).lacks 1 = false := by
    refine lacks_eq_false.mpr ?_
    simp only [push_data, push_cap, List.length_append, List.length_cons, List.length_nil]
    omega
  have hrest : frames codec.avcNalBytes [[]] ≠ [] := by
    rw [ne_eq, frames_eq_nil _ hnb.pos]
    exact List.cons_ne_nil _ _
  refine ⟨s.out.push [0, 0, 1, 0x01], ?_, ?_⟩
  · have ht : nalTypeOf [0x01] = 1 := by decide
    have hsw : spsPpsSwitch R codec 1 (audSwitch 1 s) =
        { s with audSent := true, spsPpsSent := false } := by
      simp [audSwitch, spsPpsSwitch, haud, appendAud, h6]
    have hturn : unitTurn R codec [0x01] (frames codec.avcNalBytes [[]]) s =
        .next ⟨one (frames codec.avcNalBytes [[]]), s.out.push [0, 0, 1, 0x01], true, false⟩ := by
      simp only [unitTurn, ht, hsw, h5, List.headD_cons, hpre, h1, hrest, List.length_singleton, and_false,
        List.tail_cons, push_nil, List.cons_ne_nil, Bool.false_eq_true, if_false]
      rw [if_neg (by decide)]
    rw [crowded, hl, unitLoop, hturn]
    simp [unitLoop, unitTurn]
  · simp only [push_data, List.length_append, List.length_cons, List.length_nil]
    omega

/-- A unit of 45587 bytes. -/
def fillerUnit : Bytes := 0x0c :: List.replicate 45586 0

theorem fillerUnit_length : fillerUnit.length = 45587 := by
  rw [fillerUnit, List.length_cons, List.length_replicate]

def crowdedCodec : CodecCtx := { sampleCodec with avcNalBytes := 2 }

def crowdedMsg : Chain := [encodeMessage crowdedCodec.avcNalBytes 0x27 [0, 0, 0] (crowded 22 fillerUnit)]

theorem crowded_nalBytes : NalBytesOk crowdedCodec := ⟨by decide, by decide⟩

theorem crowded_config : HoldsConfig crowdedCodec sampleConfig := ⟨by decide, by decide⟩

theorem crowded_lengths : ∀ u ∈ crowded 22 fillerUnit, u.length < 256 ^ crowdedCodec.avcNalBytes := by
  intro u hu
  have hpow : 256 ^ crowdedCodec.avcNalBytes = 65536 := rfl
  rcases List.mem_append.mp hu with hu | hu
  · rw [List.eq_of_mem_replicate hu, hpow, fillerUnit_length]
    decide
  · simp only [List.mem_cons, List.not_mem_nil, or_false] at hu
    rcases hu with rfl | rfl <;> rw [hpow] <;> decide

/-- A message of less than 1 MiB is delivered without its delimiter. -/
theorem avccToAnnexb_skips_aud :
    ∃ r buf, NalBytesOk crowdedCodec ∧ HoldsConfig crowdedCodec sampleConfig ∧
      avccToAnnexb .released (some crowdedCodec) ⟨1048557, 0, by decide⟩ crowdedMsg = some r ∧
      r.outBuffer = some buf ∧
      ¬ ∃ fmt cts us, cts.length = 3 ∧ flat crowdedMsg = encodeMessage crowdedCodec.avcNalBytes fmt cts us ∧
        (∀ u ∈ us, u.length < 256 ^ crowdedCodec.avcNalBytes) ∧ buf = translation sampleConfig us := by
  have hu : fillerUnit ≠ [] := List.cons_ne_nil _ _
  have ht : nalTypeOf fillerUnit = 12 := rfl
  have hfull : (22 + 1) * (3 + fillerUnit.length) + 1 + 5 = bufSize := by
    rw [fillerUnit_length]
    rfl
  have hne : crowdedMsg ≠ [] := List.cons_ne_nil _ _
  have hmsg : flat crowdedMsg =
      0x27 :: 1 :: [0, 0, 0] ++ frames crowdedCodec.avcNalBytes (crowded 22 fillerUnit) := List.append_nil _
  have hconv := avccToAnnexb_message .released (h := ⟨1048557, 0, by decide⟩) crowded_config.1 (by decide)
    rfl hne rfl hmsg
  have hfuel : (crowded 22 fillerUnit).length ≤ (flat crowdedMsg).length := by
    have := length_le_frames crowdedCodec.avcNalBytes crowded_nalBytes.pos (crowded 22 fillerUnit)
    rw [hmsg, List.length_append]
    omega
  obtain ⟨o, ho, hlen⟩ := crowded_loop .released crowded_nalBytes crowded_config 22 fillerUnit hu ht hfull
    (frames crowdedCodec.avcNalBytes (crowded 22 fillerUnit))
  rw [convLoop_units .released crowdedCodec crowded_nalBytes _ _ _ hfuel crowded_lengths rfl, ho] at hconv
  refine ⟨⟨o.data.length, some o.data⟩, o.data, crowded_nalBytes, crowded_config, ?_, rfl, ?_⟩
  · rw [hconv, finish, deliver, if_neg]
    rintro ⟨-, hm⟩
    cases hm
  · rintro ⟨fmt, cts, us, h3, hsplit, hus, hbuf⟩
    have hus : crowded 22 fillerUnit = us :=
      encodeMessage_inj crowded_nalBytes.pos rfl h3 crowded_lengths hus (hmsg.symm.trans hsplit)
    rw [← hus] at hbuf
    have htr := crowded_translation sampleConfig 22 fillerUnit hu ht hfull
    rw [← hbuf] at htr
    omega

end Rtmpg.Video
