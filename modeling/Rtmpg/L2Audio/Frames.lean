import Mathlib.Data.List.Forall2
import Rtmpg.L2Audio.Adts

/-!
# The decoder gets whole ADTS frames, one message late

`IsAdtsFrame m frame`: a seven-byte header a standard parser reads as the
`aac_header` in force and the length of the frame say, then the message from
its third byte on. `Holds a content` says what stands in `[b->pos, b->last)`.

* `parse_adtsHeader`: the bit fields of the header.
* `ngxParseAacHeader_some`: what the parser of `aac_header` accepts, in terms
  of the AudioSpecificConfig.
* `sendAudio_accepts`, `sendAudio_rejects`: one message, which either hands
  the pending frame over and leaves its own, or changes nothing.
* `runAudio_frames`: any number of messages.
-/
namespace Rtmpg.Adts

open Rtmpg.Bytes Rtmpg.Chain Rtmpg.AdtsFormat

/-! ## Bit fields -/

theorem or_shiftLeft (a b i : Nat) (hb : b < 2 ^ i) : a <<< i ||| b = a * 2 ^ i + b := by
  rw [← Nat.shiftLeft_add_eq_or_of_lt hb, Nat.shiftLeft_eq]

theorem and_mask (n i : Nat) : n &&& (2 ^ i - 1) = n % 2 ^ i := Nat.and_two_pow_sub_one_eq_mod n i

/-- The third byte: profile, sampling index, high bit of the channel configuration. -/
theorem profileByte (o s c : Nat) (hs : s < 16) (hc : c < 16) :
    o <<< 6 ||| s <<< 2 ||| (c &&& 0x04) >>> 2 = 64 * o + 4 * s + c / 4 % 2 := by
  have h4 : (c &&& 0x04) >>> 2 = c / 4 % 2 := by
    revert c
    decide
  have h2 : s <<< 2 ||| c / 4 % 2 = s * 2 ^ 2 + c / 4 % 2 := or_shiftLeft _ _ _ (by omega)
  rw [h4, Nat.or_assoc, h2, or_shiftLeft _ _ _ (by omega)]
  omega

/-- The fourth byte: low bits of the channel configuration, high bits of the length. -/
theorem lengthHighByte (c n : Nat) (hn : n < 8192) :
    (c &&& 0x03) <<< 6 ||| (n >>> 11) &&& 0x03 = 64 * (c % 4) + n / 2048 := by
  have h3 : c &&& 0x03 = c % 4 := and_mask c 2
  have h11 : (n >>> 11) &&& 0x03 = n / 2048 := by
    rw [show (0x03 : Nat) = 2 ^ 2 - 1 from rfl, and_mask, Nat.shiftRight_eq_div_pow]
    omega
  rw [h3, h11, or_shiftLeft _ _ _ (by omega)]
  omega

/-- A standard parser on the header of the code. -/
theorem parse_adtsHeader (o s c n : Nat) (ho : o ≤ 4) (ho' : 1 ≤ o) (hs : s < 16) (hc : c < 16)
    (hn : n < 8192) (rest : Bytes) :
    AdtsHeader.parse (adtsHeader o s c n ++ rest) = some {
      syncword := 0xfff, mpeg2 := 0, layer := 0, protectionAbsent := 1, profile := o - 1,
      samplingIndex := s, privateBit := 0, channelConfig := c % 8, original := 0, home := 0,
      copyrightBit := 0, copyrightStart := 0, frameLength := n, fullness := 0x7ff, rawBlocks := 0 } := by
  have h2 : (UInt8.ofNat (((o - 1) <<< 6) ||| (s <<< 2) ||| ((c &&& 0x04) >>> 2))).toNat =
      64 * (o - 1) + 4 * s + c / 4 % 2 := by
    rw [profileByte _ s c hs hc, UInt8.toNat_ofNat']
    omega
  have h3 : (UInt8.ofNat (((c &&& 0x03) <<< 6) ||| ((n >>> 11) &&& 0x03))).toNat =
      64 * (c % 4) + n / 2048 := by
    rw [lengthHighByte c n hn, UInt8.toNat_ofNat']
    omega
  have h4 : (UInt8.ofNat (n >>> 3)).toNat = n / 8 % 256 := by
    rw [Nat.shiftRight_eq_div_pow, UInt8.toNat_ofNat']
  have h5 : (UInt8.ofNat ((n <<< 5) ||| 0x1f)).toNat = 32 * (n % 8) + 31 := by
    rw [or_shiftLeft n 0x1f 5 (by decide), UInt8.toNat_ofNat']
    omega
  have h01 : (0xff : UInt8).toNat = 255 ∧ (0xf1 : UInt8).toNat = 241 ∧ (0xfc : UInt8).toNat = 252 :=
    ⟨rfl, rfl, rfl⟩
  obtain ⟨h0, h1, h6⟩ := h01
  have htake : (adtsHeader o s c n ++ rest).take 7 = adtsHeader o s c n := List.take_left' rfl
  have hv : beNat (adtsHeader o s c n) = 281474976710656 * 255 + 1099511627776 * 241 +
      4294967296 * (64 * (o - 1) + 4 * s + c / 4 % 2) + 16777216 * (64 * (c % 4) + n / 2048) +
      65536 * (n / 8 % 256) + 256 * (32 * (n % 8) + 31) + 252 := by
    rw [adtsHeader, beNat_seven, h0, h1, h2, h3, h4, h5, h6]
  have hl : (adtsHeader o s c n).length = 7 := rfl
  unfold AdtsHeader.parse
  simp only [htake, hl, Nat.lt_irrefl, if_false, field, hv, Option.some.injEq, AdtsHeader.mk.injEq]
  refine ⟨?_, ?_, ?_, ?_, ?_, ?_, ?_, ?_, ?_, ?_, ?_, ?_, ?_, ?_, ?_⟩ <;> norm_num <;> omega

/-! ## The header in force -/

/-- Object types above 4 are sent as 2. -/
def sentObjectType (objectType : Nat) : Nat := if 4 < objectType then 2 else objectType

theorem samplingIndex_bits (b₀ b₁ : UInt8) :
    ((b₀.toNat <<< 1) &&& 0x0f) ||| ((b₁.toNat &&& 0x80) >>> 7) = 2 * (b₀.toNat % 8) + b₁.toNat / 128 := by
  have hb := b₁.toNat_lt
  have hhi : (b₁.toNat &&& 0x80) >>> 7 = b₁.toNat / 128 := by
    rw [Nat.shiftRight_and_distrib, show (0x80 : Nat) >>> 7 = 2 ^ 1 - 1 from rfl, and_mask,
      Nat.shiftRight_eq_div_pow]
    omega
  have hlo : (b₀.toNat <<< 1) &&& 0x0f = (b₀.toNat % 8) <<< 1 := by
    rw [show (0x0f : Nat) = 2 ^ 4 - 1 from rfl, and_mask, Nat.shiftLeft_eq, Nat.shiftLeft_eq]
    omega
  rw [hlo, hhi, or_shiftLeft _ _ 1 (by omega)]
  omega

theorem ngxParseAacHeader_congr {c d : CodecCtx} (h : SameBytes c.aacHeader d.aacHeader) :
    ngxParseAacHeader c = ngxParseAacHeader d := by
  obtain ⟨s1, -, s3⟩ := ngxCustomCopy_congr h 2
  obtain ⟨r1, r2, r3⟩ := ngxCustomCopy_congr s3 1
  obtain ⟨t1, t2, -⟩ := ngxCustomCopy_congr r3 1
  simp only [ngxParseAacHeader, s1, r1, r2, t1, t2]

/-- The fields of the first two bytes of an `AudioSpecificConfig`. -/
theorem config_fields (b₀ b₁ : UInt8) : field [b₀, b₁] 0 5 = b₀.toNat / 8 ∧
    field [b₀, b₁] 5 4 = 2 * (b₀.toNat % 8) + b₁.toNat / 128 ∧ field [b₀, b₁] 9 4 = b₁.toNat / 8 % 16 := by
  have hb₀ := b₀.toNat_lt
  have hb₁ := b₁.toNat_lt
  refine ⟨?_, ?_, ?_⟩
  · rw [field, beNat_two]
    norm_num
    omega
  · rw [field, beNat_two]
    norm_num
    omega
  · rw [field, beNat_two]
    norm_num
    omega

/-- An accepted header holds an AudioSpecificConfig behind its two RTMP bytes. -/
theorem ngxParseAacHeader_some {codec : CodecCtx} {o s c : Nat}
    (h : ngxParseAacHeader codec = some (o, s, c)) :
    ∃ asc, AudioConfig.parse ((flat codec.aacHeader).drop 2) = some asc ∧ 1 ≤ asc.objectType ∧
      o = sentObjectType asc.objectType ∧ s = asc.samplingIndex ∧ c = asc.channelConfig ∧
      s < 16 ∧ c < 16 := by
  by_cases hne : codec.aacHeader = []
  · rw [ngxParseAacHeader, hne] at h
    cases h
  have hj : ngxParseAacHeader codec = ngxParseAacHeader { codec with aacHeader := [flat codec.aacHeader] } :=
    ngxParseAacHeader_congr (sameBytes_of_ne hne (List.cons_ne_nil _ _) (List.append_nil _).symm)
  rw [hj] at h
  generalize flat codec.aacHeader = bs at h ⊢
  match bs, h with
  | [], h => cases h
  | [_], h => cases h
  | [_, _], h => cases h
  | [_, _, _], h => cases h
  | x₀ :: x₁ :: b₀ :: b₁ :: rest, h =>
    have h1 : ngxCustomCopy 2 [x₀ :: x₁ :: b₀ :: b₁ :: rest] = ⟨.ok, [x₀, x₁], one (b₀ :: b₁ :: rest)⟩ :=
      ngxCustomCopy_single _ 2 (by simp)
    have h2 := ngxCustomCopy_one [b₀] (b₁ :: rest) (by simp)
    have h3 := ngxCustomCopy_one [b₁] rest (by simp)
    simp only [List.length_singleton, List.singleton_append] at h2 h3
    simp only [ngxParseAacHeader, h1, h2, h3, reduceCtorEq, if_false, List.headD_cons,
      samplingIndex_bits] at h
    have hb₀ := b₀.toNat_lt
    have hb₁ := b₁.toNat_lt
    have ht : b₀.toNat >>> 3 = b₀.toNat / 8 := Nat.shiftRight_eq_div_pow _ 3
    have hch : (b₁.toNat >>> 3) &&& 0x0f = b₁.toNat / 8 % 16 := by
      rw [show (0x0f : Nat) = 2 ^ 4 - 1 from rfl, and_mask, Nat.shiftRight_eq_div_pow]
      rfl
    rw [ht, hch] at h
    obtain ⟨hf₀, hf₁, hf₂⟩ := config_fields b₀ b₁
    split at h
    · cases h
    next hobj =>
    split at h
    · cases h
    next hsr =>
    simp only [Option.some.injEq, Prod.mk.injEq] at h
    obtain ⟨rfl, rfl, rfl⟩ := h
    rw [not_or] at hobj
    refine ⟨⟨b₀.toNat / 8, 2 * (b₀.toNat % 8) + b₁.toNat / 128, b₁.toNat / 8 % 16⟩, ?_, ?_, rfl, rfl, rfl,
      by omega, by omega⟩
    · have htake : ((x₀ :: x₁ :: b₀ :: b₁ :: rest).drop 2).take 2 = [b₀, b₁] := rfl
      have hlen : ([b₀, b₁] : Bytes).length = 2 := rfl
      simp only [AudioConfig.parse, htake, hlen, Nat.lt_irrefl, false_or, hf₀, hf₁, hf₂]
      rw [if_neg (not_or.mpr ⟨hobj.2, hsr⟩)]
    · show 1 ≤ b₀.toNat / 8
      omega

theorem sentObjectType_range {t : Nat} (h : 1 ≤ t) : 1 ≤ sentObjectType t ∧ sentObjectType t ≤ 4 := by
  unfold sentObjectType
  split <;> omega

/-! ## One message -/

/-- What nginx-rtmp guarantees of an AAC message, and that the allocation and the
`aac_header` in force are good. -/
structure Delivered (R : NginxRtmp) (m : AudioMessage) : Prop where
  length : (flat m.chain).length = m.h.mlen
  codec : ∃ c, m.codec = some c ∧ c.audioCodecId = R.audioAac ∧ (ngxParseAacHeader c).isSome
  alloc : ∃ stale size, m.alloc = .ok stale size

/-- A message that becomes a frame. -/
structure Accepted (R : NginxRtmp) (m : AudioMessage) : Prop where
  long : 2 ≤ m.h.mlen
  media : R.isCodecHeader m.chain = false
  fits : m.h.mlen + 5 ≤ maxAudioBufferSize

instance (R : NginxRtmp) (m : AudioMessage) : Decidable (Accepted R m) :=
  decidable_of_iff (2 ≤ m.h.mlen ∧ R.isCodecHeader m.chain = false ∧ m.h.mlen + 5 ≤ maxAudioBufferSize)
    ⟨fun ⟨h1, h2, h3⟩ => ⟨h1, h2, h3⟩, fun h => ⟨h.long, h.media, h.fits⟩⟩

/-- The header fields of the frame of a message of `mlen` bytes. -/
def frameHeader (asc : AudioConfig) (mlen : Nat) : AdtsHeader where
  syncword := 0xfff
  mpeg2 := 0
  layer := 0
  protectionAbsent := 1
  profile := sentObjectType asc.objectType - 1
  samplingIndex := asc.samplingIndex
  privateBit := 0
  channelConfig := asc.channelConfig % 8
  original := 0
  home := 0
  copyrightBit := 0
  copyrightStart := 0
  frameLength := mlen + 5
  fullness := 0x7ff
  rawBlocks := 0

def IsAdtsFrame (m : AudioMessage) (frame : Bytes) : Prop :=
  ∃ c asc hdr, m.codec = some c ∧ AudioConfig.parse ((flat c.aacHeader).drop 2) = some asc ∧
    hdr.length = 7 ∧ frame = hdr ++ (flat m.chain).drop 2 ∧ frame.length = m.h.mlen + 5 ∧
    AdtsHeader.parse frame = some (frameHeader asc m.h.mlen)

/-- `[b->pos, b->last)` holds `content`, at the start of a buffer of full size. -/
def Holds (a : AudioCtx) (content : Bytes) : Prop :=
  match a.b with
  | none => content = []
  | some b => b.mem.length = maxAudioBufferSize ∧ b.pos = 0 ∧ b.last ≤ b.mem.length ∧
      b.mem.take b.last = content

theorem holds_content {a : AudioCtx} {content : Bytes} (h : Holds a content) : a.content = content := by
  obtain ⟨buffer⟩ := a
  cases buffer with
  | none => exact h.symm
  | some b =>
    obtain ⟨-, hpos, -, htake⟩ := h
    simp only [AudioCtx.content, NgxBuf.content, hpos, htake, List.drop_zero]

theorem holds_fresh : Holds ⟨none⟩ [] := rfl

/-- The buffer of the call: the one there is or a new one, with the same content. -/
theorem holds_buffer {a : AudioCtx} {content : Bytes} {alloc : Alloc} (h : Holds a content)
    (halloc : a.b = none → ∃ stale size, alloc = .ok stale size) :
    ∃ b, a.b.or (allocateBuffer alloc) = some b ∧ b.mem.length = maxAudioBufferSize ∧ b.pos = 0 ∧
      b.last ≤ b.mem.length ∧ b.mem.take b.last = content := by
  unfold Holds at h
  split at h
  · next e =>
    obtain ⟨stale, size, ha⟩ := halloc e
    refine ⟨⟨stale, 0, 0⟩, ?_, size, rfl, Nat.zero_le _, ?_⟩
    · rw [e, ha]
      rfl
    · rw [h, List.take_zero]
  · next b e =>
    refine ⟨b, ?_, h⟩
    rw [e]
    rfl

/-- The first flush hands the content over and empties the buffer. -/
theorem flush_content (h : RtmpHeader) {b : NgxBuf} {content : Bytes} (hsize : b.mem.length = maxAudioBufferSize)
    (hpos : b.pos = 0) (hlast : b.last ≤ b.mem.length) (hcont : b.mem.take b.last = content) :
    (if b.pos < b.last then ngxFlushAudio h b else (b, [])) =
      (⟨b.mem, 0, 0⟩, if content = [] then [] else [⟨content, h.timestamp⟩]) := by
  rw [hpos]
  by_cases h0 : b.last = 0
  · have hnil : content = [] := by rw [← hcont, h0, List.take_zero]
    obtain ⟨mem, pos, last⟩ := b
    simp only at h0 hpos
    rw [h0, hpos, if_neg (Nat.lt_irrefl 0), if_pos hnil]
  · have hne : content ≠ [] := by
      intro e
      have := congrArg List.length hcont
      rw [e, List.length_take_of_le hlast, List.length_nil] at this
      exact h0 this
    have hmod : b.last % 2 ^ 16 = b.last := by
      refine Nat.mod_eq_of_lt ?_
      rw [hsize, maxAudioBufferSize] at hlast
      omega
    simp only [ngxFlushAudio, hpos, Nat.pos_of_ne_zero h0, Ne.symm h0, hne, if_true, if_false, Nat.sub_zero,
      hmod, List.drop_zero, hcont]

/-- A message that gets as far as the append, with the codec context `c`. -/
structure Appends (R : NginxRtmp) (m : AudioMessage) (c : CodecCtx) : Prop where
  codec : m.codec = some c
  long : 2 ≤ m.h.mlen
  aac : c.audioCodecId = R.audioAac
  header : c.aacHeader ≠ []
  media : R.isCodecHeader m.chain = false
  fits : m.h.mlen + 5 ≤ maxAudioBufferSize

theorem sendAudio_appends {R : NginxRtmp} {a : AudioCtx} {content : Bytes} {m : AudioMessage} {c : CodecCtx}
    (h : Holds a content) (hm : Appends R m c)
    (halloc : a.b = none → ∃ stale size, m.alloc = .ok stale size) :
    ∃ mem, mem.length = maxAudioBufferSize ∧
      ngxAgoraSendAudio R m.alloc m.codec m.h m.chain (some a) =
        some (some ⟨some (appendFrame c (m.h.mlen + 5) m.chain ⟨mem, 0, 0⟩)⟩,
          if content = [] then [] else [⟨content, m.h.timestamp⟩]) := by
  obtain ⟨b, hb, hsize, hpos, hlast, hcont⟩ := holds_buffer h halloc
  have hlong := hm.long
  have hfits := hm.fits
  have hmsize : m.h.mlen - 2 + 7 = m.h.mlen + 5 := by omega
  -- the pending frame is flushed, and the second test then finds room
  have hflush := flush_content m.h hsize hpos hlast hcont
  have hroom : ¬ b.mem.length < 0 + (m.h.mlen + 5) := by omega
  have hroom7 : ¬ b.mem.length < 0 + 7 := by omega
  have hroom₀ : ¬ b.mem.length < m.h.mlen + 5 := by omega
  refine ⟨b.mem, hsize, ?_⟩
  simp only [ngxAgoraSendAudio, hm.codec, hm.aac, hm.header, hm.media, hb, hmsize, hflush, hroom, hroom7,
    hroom₀, Nat.not_lt.mpr hlong, ne_eq, not_true_eq_false, Bool.false_eq_true, or_self, if_false,
    List.append_nil]

/-- A message that does not is without effect. -/
theorem sendAudio_skips {R : NginxRtmp} {a : AudioCtx} {content : Bytes} {m : AudioMessage}
    (h : Holds a content) (hm : ∀ c, ¬ Appends R m c)
    (halloc : a.b = none → ∃ stale size, m.alloc = .ok stale size) :
    ∃ a', ngxAgoraSendAudio R m.alloc m.codec m.h m.chain (some a) = some (some a', []) ∧
      Holds a' content := by
  cases hc : m.codec with
  | none => exact ⟨a, rfl, h⟩
  | some c =>
    by_cases hlong : m.h.mlen < 2
    · exact ⟨a, by simp only [ngxAgoraSendAudio, hlong, if_true], h⟩
    by_cases hkind : c.audioCodecId ≠ R.audioAac ∨ c.aacHeader = [] ∨ R.isCodecHeader m.chain = true
    · exact ⟨a, by simp only [ngxAgoraSendAudio, hlong, hkind, if_true, if_false], h⟩
    have hbig : maxAudioBufferSize < m.h.mlen + 5 := by
      by_contra hle
      rw [not_or, not_or, not_not, Bool.not_eq_true] at hkind
      exact hm c ⟨hc, by omega, hkind.1, hkind.2.1, hkind.2.2, by omega⟩
    obtain ⟨b, hb, hsize, hpos, hlast, hcont⟩ := holds_buffer h halloc
    have hroom : b.mem.length < m.h.mlen - 2 + 7 := by omega
    refine ⟨⟨some b⟩, ?_, hsize, hpos, hlast, hcont⟩
    simp only [ngxAgoraSendAudio, hkind, hb, hroom, hlong, if_true, if_false]

/-- Five free bytes, the payload, and the header over them and the first two. -/
theorem appendFrame_eq {codec : CodecCtx} {o s c : Nat} (size : Nat)
    (hp : ngxParseAacHeader codec = some (o, s, c)) {msg : Chain} {mem : Bytes}
    (hlen : 2 ≤ (flat msg).length) (hfit : (flat msg).length + 5 ≤ mem.length) :
    ∃ mem', appendFrame codec size msg ⟨mem, 0, 0⟩ = ⟨mem', 0, (flat msg).length + 5⟩ ∧
      mem'.length = mem.length ∧
      mem'.take ((flat msg).length + 5) = adtsHeader o s c size ++ (flat msg).drop 2 := by
  have hcopy := copyPayload_eq msg ⟨mem, 0, 5⟩ (show 5 ≤ mem.length by omega)
  have htake : (flat msg).take (mem.length - 5) = flat msg := List.take_of_length_le (by omega)
  have h7 : (adtsHeader o s c size).length = 7 := rfl
  simp only [htake, NgxBuf.append, Nat.add_comm 5] at hcopy
  have hmem : (Mem.store mem 5 (flat msg)).length = mem.length := Mem.store_length (by omega)
  refine ⟨Mem.store (Mem.store mem 5 (flat msg)) 0 (adtsHeader o s c size), ?_, ?_, ?_⟩
  · simp only [appendFrame, Nat.zero_add, hcopy, hp]
  · rw [Mem.store_length (by omega), hmem]
  · have h5 : (mem.take 5).length = 5 := List.length_take_of_le (by omega)
    rw [Mem.store, List.take_zero, List.nil_append, h7, Mem.store, Nat.zero_add, List.drop_append,
      List.drop_of_length_le (i := 7) (l := mem.take 5) (by omega), List.nil_append, h5,
      List.drop_append_of_le_length (by omega), ← List.append_assoc]
    refine List.take_left' ?_
    rw [List.length_append, h7, List.length_drop]
    omega

/-- A good header: the frame of the message takes the place of the pending one. -/
theorem sendAudio_frame {R : NginxRtmp} {a : AudioCtx} {content : Bytes} {m : AudioMessage} {c : CodecCtx}
    (h : Holds a content) (hbytes : (flat m.chain).length = m.h.mlen) (hm : Appends R m c)
    (hsome : (ngxParseAacHeader c).isSome)
    (halloc : a.b = none → ∃ stale size, m.alloc = .ok stale size) :
    ∃ a' frame, ngxAgoraSendAudio R m.alloc m.codec m.h m.chain (some a) =
        some (some a', if content = [] then [] else [⟨content, m.h.timestamp⟩]) ∧
      Holds a' frame ∧ frame ≠ [] ∧ IsAdtsFrame m frame := by
  obtain ⟨⟨o, s, ch⟩, hp⟩ := Option.isSome_iff_exists.mp hsome
  obtain ⟨asc, hasc, ht, rfl, rfl, rfl, hs, hch⟩ := ngxParseAacHeader_some hp
  have hlong := hm.long
  have hfits := hm.fits
  obtain ⟨mem, hsize, hsend⟩ := sendAudio_appends h hm halloc
  obtain ⟨mem', happ, hmem', htake⟩ := appendFrame_eq (m.h.mlen + 5) hp
    (show 2 ≤ (flat m.chain).length by omega) (show (flat m.chain).length + 5 ≤ mem.length by omega)
  have hparse := parse_adtsHeader (sentObjectType asc.objectType) asc.samplingIndex asc.channelConfig
    (m.h.mlen + 5) (sentObjectType_range ht).2 (sentObjectType_range ht).1 hs hch
    (by rw [maxAudioBufferSize] at hfits; omega) ((flat m.chain).drop 2)
  refine ⟨⟨some ⟨mem', 0, (flat m.chain).length + 5⟩⟩,
    adtsHeader (sentObjectType asc.objectType) asc.samplingIndex asc.channelConfig (m.h.mlen + 5) ++
      (flat m.chain).drop 2, ?_, ?_, ?_, ?_⟩
  · rw [hsend, happ]
  · exact ⟨hmem'.trans hsize, rfl, by show (flat m.chain).length + 5 ≤ mem'.length; omega, htake⟩
  · exact List.append_ne_nil_of_left_ne_nil (List.cons_ne_nil _ _) _
  · refine ⟨c, asc, _, hm.codec, hasc, rfl, rfl, ?_, hparse⟩
    have h7 : (adtsHeader (sentObjectType asc.objectType) asc.samplingIndex asc.channelConfig
      (m.h.mlen + 5)).length = 7 := rfl
    rw [List.length_append, h7, List.length_drop]
    omega

theorem sendAudio_accepts {R : NginxRtmp} {a : AudioCtx} {content : Bytes} {m : AudioMessage}
    (h : Holds a content) (hm : Delivered R m) (hacc : Accepted R m) :
    ∃ a' frame, ngxAgoraSendAudio R m.alloc m.codec m.h m.chain (some a) =
        some (some a', if content = [] then [] else [⟨content, m.h.timestamp⟩]) ∧
      Holds a' frame ∧ frame ≠ [] ∧ IsAdtsFrame m frame := by
  obtain ⟨c, hc, haac, hsome⟩ := hm.codec
  have hhdr : c.aacHeader ≠ [] := by
    intro e
    rw [ngxParseAacHeader, e] at hsome
    cases hsome
  exact sendAudio_frame h hm.length ⟨hc, hacc.long, haac, hhdr, hacc.media, hacc.fits⟩ hsome fun _ => hm.alloc

theorem sendAudio_rejects {R : NginxRtmp} {a : AudioCtx} {content : Bytes} {m : AudioMessage}
    (h : Holds a content) (hm : Delivered R m) (hrej : ¬ Accepted R m) :
    ∃ a', ngxAgoraSendAudio R m.alloc m.codec m.h m.chain (some a) = some (some a', []) ∧
      Holds a' content :=
  sendAudio_skips h (fun _ hc => hrej ⟨hc.long, hc.media, hc.fits⟩) fun _ => hm.alloc

/-! ## Any number of messages -/

/-- The frame that waits in the buffer, if there is one. -/
def pending (content : Bytes) : List Bytes := if content = [] then [] else [content]

theorem runAudio_pending (R : NginxRtmp) : ∀ (ms : List AudioMessage) (a : AudioCtx) (content : Bytes),
    Holds a content → (∀ m ∈ ms, Delivered R m) →
    ∃ a' calls frames, runAudio R (some a) ms = some (some a', calls) ∧
      List.Forall₂ IsAdtsFrame (ms.filter fun m => decide (Accepted R m)) frames ∧
      (∀ f ∈ frames, f ≠ []) ∧ Holds a' (frames.getLastD content) ∧
      calls.map DecodeCall.data ++ pending (frames.getLastD content) = pending content ++ frames := by
  intro ms
  induction ms with
  | nil =>
    intro a content h _
    exact ⟨a, [], [], rfl, .nil, by simp, h, by simp⟩
  | cons m ms ih =>
    intro a content h hms
    have hm := hms m (by simp)
    have htl : ∀ m ∈ ms, Delivered R m := fun m hm => hms m (by simp [hm])
    by_cases hacc : Accepted R m
    · obtain ⟨a₁, frame, hsend, h₁, hne, hframe⟩ := sendAudio_accepts h hm hacc
      obtain ⟨a₂, calls, frames, hrun, hall, hnil, h₂, hcat⟩ := ih a₁ frame h₁ htl
      refine ⟨a₂, (if content = [] then [] else [⟨content, m.h.timestamp⟩]) ++ calls, frame :: frames,
        ?_, ?_, ?_, ?_, ?_⟩
      · simp only [runAudio, hsend, hrun, Option.bind_some, Option.map_some]
      · rw [List.filter_cons_of_pos (by simpa using hacc)]
        exact .cons hframe hall
      · intro f hf
        rcases List.mem_cons.mp hf with rfl | hf
        · exact hne
        · exact hnil f hf
      · rw [List.getLastD_cons]
        exact h₂
      · have hpend : pending frame = [frame] := if_neg hne
        rw [List.getLastD_cons, List.map_append, List.append_assoc, hcat, hpend]
        unfold pending
        split <;> rfl
    · obtain ⟨a₁, hsend, h₁⟩ := sendAudio_rejects h hm hacc
      obtain ⟨a₂, calls, frames, hrun, hall, hnil, h₂, hcat⟩ := ih a₁ content h₁ htl
      refine ⟨a₂, calls, frames, ?_, ?_, hnil, h₂, hcat⟩
      · simp only [runAudio, hsend, hrun, Option.bind_some, Option.map_some, List.nil_append]
      · rw [List.filter_cons_of_neg (by simpa using hacc)]
        exact hall

/-- From an empty buffer all frames but the last have been handed over. -/
theorem pending_last {xs frames : List Bytes} (hnil : ∀ f ∈ frames, f ≠ [])
    (h : xs ++ pending (frames.getLastD []) = frames) : xs = frames.dropLast := by
  rcases List.eq_nil_or_concat frames with rfl | ⟨init, f, rfl⟩
  · simpa [pending] using h
  · have hf : f ≠ [] := hnil f (by simp)
    rw [List.concat_eq_append] at h ⊢
    rw [List.getLastD_concat, pending, if_neg hf] at h
    rw [List.dropLast_concat]
    exact (List.append_inj' h rfl).1

/-- A message without effect on the decoder input and the buffer. -/
def Ineffective (R : NginxRtmp) (a : AudioCtx) (m : AudioMessage) : Prop :=
  ∃ a', ngxAgoraSendAudio R m.alloc m.codec m.h m.chain (some a) = some (some a', []) ∧
    a'.content = a.content

/-- In a stream of delivered messages each accepted one makes one ADTS frame; the decoder gets
them in order, each once, with the next accepted message. -/
theorem runAudio_frames (R : NginxRtmp) (ms : List AudioMessage) (hms : ∀ m ∈ ms, Delivered R m) :
    ∃ a calls frames, runAudio R (some ⟨none⟩) ms = some (some a, calls) ∧
      List.Forall₂ IsAdtsFrame (ms.filter fun m => decide (Accepted R m)) frames ∧
      calls.map DecodeCall.data = frames.dropLast ∧ a.content = frames.getLastD [] ∧
      ∀ m, Delivered R m → ¬ Accepted R m → Ineffective R a m := by
  obtain ⟨a, calls, frames, hrun, hall, hnil, h, hcat⟩ := runAudio_pending R ms ⟨none⟩ [] holds_fresh hms
  refine ⟨a, calls, frames, hrun, hall, pending_last hnil hcat, holds_content h, fun m hm hrej => ?_⟩
  obtain ⟨a', hsend, h'⟩ := sendAudio_rejects h hm hrej
  exact ⟨a', hsend, (holds_content h').trans (holds_content h).symm⟩

/-- AAC LC, 48 kHz, mono. -/
def monoCodec : CodecCtx := ⟨7, 10, 4, [], [[0xaf], [0, 0x11, 0x88]]⟩

def freshMemory : Alloc := .ok (List.replicate 2048 0xee) List.length_replicate

def monoMessage (payload : Bytes) (h : payload.length < 2 ^ 24) : AudioMessage where
  codec := some monoCodec
  h := ⟨payload.length, 0, h⟩
  chain := [payload]
  alloc := freshMemory

/-- The codec header, two frames and a message that is too short. -/
def monoStream : List AudioMessage :=
  [monoMessage [0xaf, 0, 0x11, 0x88] (by decide), monoMessage [0xaf, 1, 0x21, 0x10] (by decide),
    monoMessage [0xaf] (by decide), monoMessage [0xaf, 1, 0x22] (by decide)]

theorem frame_lt : ([0xaf, 1, 0x21, 0x10] : Bytes).length < 2 ^ 24 := by decide

theorem shortFrame_lt : ([0xaf, 1, 0x22] : Bytes).length < 2 ^ 24 := by decide

theorem monoMessage_delivered (payload : Bytes) (h : payload.length < 2 ^ 24) :
    Delivered .released (monoMessage payload h) :=
  ⟨congrArg List.length (List.append_nil payload), ⟨monoCodec, rfl, rfl, by decide⟩, ⟨_, _, rfl⟩⟩

theorem monoStream_delivered : ∀ m ∈ monoStream, Delivered .released m := by
  intro m hm
  simp only [monoStream, List.mem_cons, List.not_mem_nil, or_false] at hm
  rcases hm with rfl | rfl | rfl | rfl <;> exact monoMessage_delivered _ _

theorem runAudio_frames_mono :
    ∃ a calls frames, runAudio .released (some ⟨none⟩) monoStream = some (some a, calls) ∧
      List.Forall₂ IsAdtsFrame (monoStream.filter fun m => decide (Accepted .released m)) frames ∧
      calls.map DecodeCall.data = frames.dropLast ∧ a.content = frames.getLastD [] ∧
      ∀ m, Delivered .released m → ¬ Accepted .released m → Ineffective .released a m :=
  runAudio_frames .released monoStream monoStream_delivered

end Rtmpg.Adts
