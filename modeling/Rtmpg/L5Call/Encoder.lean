import Rtmpg.Core.Mem

/-!
# The encoder of the low stream (`AgoraEncoder`)

`libagorac/helpers/agoraencoder.cpp:59-112,164-241`. `EncodeOutcome` is what
FFmpeg and x264 do in one call: `flushes` are the results of
`x264_encoder_encode` while `x264_encoder_delayed_frames` says there are
delayed frames. What is handed to x264 is left out: its results are arbitrary.
`none` is a copy that leaves the output array; as everything fits that array,
lengths do not wrap.

`handlePostEncoding` gets the running offset and does not use it, so every
round is written to the start of the array.

* `encode_last`: the array holds the bytes of the last round.
* `encode_exact`: these are the bytes of all rounds exactly when the earlier
  rounds have none.
-/
namespace Rtmpg.LowVideo

open Rtmpg.Mem

/-- A result of `x264_encoder_encode`: the return value and the payloads of the NAL units. -/
structure X264Result where
  ret : Int
  nals : List Bytes
  deriving DecidableEq, Repr

def X264Result.bytes (r : X264Result) : Bytes := r.nals.flatten

/-- The fields of an `AVFrame` that are looked at. -/
structure Frame where
  width : Nat
  height : Nat
  deriving DecidableEq, Repr

/-- `codec` and `scaleContext` are pointers that are not `NULL`. -/
structure Encoder where
  codec : Bool
  srcWidth : Nat
  srcHeight : Nat
  scaleContext : Bool
  deriving DecidableEq, Repr

structure EncodeOutcome where
  getContext : Bool
  frameAlloc : Bool
  imageAlloc : Int
  swsScale : Int
  first : X264Result
  flushes : List X264Result
  deriving DecidableEq, Repr

def EncodeOutcome.rounds (o : EncodeOutcome) : List X264Result := o.first :: o.flushes

/-- mirrors agoraencoder.cpp:186-213 -/
def onResolutionChange (e : Encoder) (width height : Nat) (o : EncodeOutcome) : Encoder :=
  { e with srcWidth := width % 2 ^ 16, srcHeight := height % 2 ^ 16, scaleContext := o.getContext }

/-- mirrors agoraencoder.cpp:67-70 -/
def Encoder.forFrame (e : Encoder) (frame : Frame) (o : EncodeOutcome) : Encoder :=
  if frame.width ≠ e.srcWidth ∨ frame.height ≠ e.srcHeight then
    onResolutionChange e frame.width frame.height o
  else e

theorem forFrame_codec (e : Encoder) (frame : Frame) (o : EncodeOutcome) : (e.forFrame frame o).codec = e.codec := by
  unfold Encoder.forFrame
  split <;> rfl

/-- Whether the result is not `nullptr`.
mirrors agoraencoder.cpp:215-241 -/
def scaleFrame (o : EncodeOutcome) : Bool := o.frameAlloc && decide (0 ≤ o.imageAlloc) && decide (0 < o.swsScale)

def postLoop : List Bytes → Bytes → Nat → Option (Bytes × Nat)
  | [], out, totalBytes => some (out, totalBytes)
  | nal :: nals, out, totalBytes =>
    (copy out totalBytes nal 0 nal.length).bind fun out => postLoop nals out (totalBytes + nal.length)

/-- mirrors agoraencoder.cpp:164-184 -/
def handlePostEncoding (out : Bytes) (nals : List Bytes) (_offset : Nat) : Option (Bytes × Nat) :=
  postLoop nals out 0

/-- mirrors agoraencoder.cpp:98-102 -/
def flushDelayed : List X264Result → Bytes → Nat → Option (Bytes × Nat)
  | [], out, outSize => some (out, outSize)
  | r :: rs, out, outSize =>
    (handlePostEncoding out r.nals outSize).bind fun (out, outSize) => flushDelayed rs out outSize

/-- The result is the return value, the encoder, and `out` and `outSize`.
mirrors agoraencoder.cpp:59-112 -/
def encode (e : Encoder) (frame : Frame) (out : Bytes) (outSize : Nat) (o : EncodeOutcome) :
    Option (Bool × Encoder × Bytes × Nat) :=
  if e.codec = false then some (false, e, out, outSize)
  else
    let e := e.forFrame frame o
    if scaleFrame o = false then some (false, e, out, outSize)
    else
      (if 0 ≤ o.first.ret then handlePostEncoding out o.first.nals 0 else some (out, outSize)).bind
        fun (out, outSize) =>
      (flushDelayed o.flushes out outSize).map fun (out, outSize) => (true, e, out, outSize)

/-! ## What the array holds -/

theorem postLoop_ok : ∀ (nals : List Bytes) (out : Bytes) (total : Nat),
    total + nals.flatten.length ≤ out.length →
    ∃ out', postLoop nals out total = some (out', total + nals.flatten.length) ∧ out'.length = out.length ∧
      out'.take (total + nals.flatten.length) = out.take total ++ nals.flatten
  | [], out, total, _ => ⟨out, by simp [postLoop]⟩
  | nal :: nals, out, total, h => by
    rw [List.flatten_cons, List.length_append] at h
    obtain ⟨d, hc, hlen, htake⟩ := copy_ok out total nal 0 nal.length (by omega) (by omega)
    obtain ⟨out', hl, hlen', htake'⟩ := postLoop_ok nals d (total + nal.length) (by omega)
    rw [List.drop_zero, List.take_length] at htake
    refine ⟨out', ?_, hlen'.trans hlen, ?_⟩
    · rw [postLoop, hc, Option.bind_some, hl, List.flatten_cons, List.length_append, Nat.add_assoc]
    · rw [List.flatten_cons, List.length_append, ← Nat.add_assoc, htake', htake, List.append_assoc]

theorem handlePostEncoding_ok (r : X264Result) (out : Bytes) (offset : Nat) (h : r.bytes.length ≤ out.length) :
    ∃ out', handlePostEncoding out r.nals offset = some (out', r.bytes.length) ∧ out'.length = out.length ∧
      out'.take r.bytes.length = r.bytes := by
  obtain ⟨out', hl, hlen, htake⟩ := postLoop_ok r.nals out 0 (by rw [Nat.zero_add]; exact h)
  rw [Nat.zero_add] at hl htake
  exact ⟨out', hl, hlen, by rw [X264Result.bytes, htake, List.take_zero, List.nil_append]⟩

/-- Each round overwrites the one before. -/
theorem flushDelayed_ok : ∀ (rs : List X264Result) (r : X264Result) (out : Bytes),
    (∀ x ∈ rs, x.bytes.length ≤ out.length) → out.take r.bytes.length = r.bytes →
    ∃ out', flushDelayed rs out r.bytes.length = some (out', (rs.getLastD r).bytes.length) ∧
      out'.take (rs.getLastD r).bytes.length = (rs.getLastD r).bytes
  | [], _, out, _, h => ⟨out, rfl, h⟩
  | x :: rs, r, out, hfit, _ => by
    obtain ⟨d, hp, hlen, htake⟩ := handlePostEncoding_ok x out r.bytes.length (hfit x (by simp))
    obtain ⟨out', hf, htake'⟩ := flushDelayed_ok rs x d (fun y hy => by rw [hlen]; exact hfit y (by simp [hy])) htake
    refine ⟨out', ?_, ?_⟩
    · rw [flushDelayed, hp, Option.bind_some, List.getLastD_cons, ← hf]
    · rw [List.getLastD_cons]
      exact htake'

theorem encode_last (e : Encoder) (frame : Frame) (out : Bytes) (outSize : Nat) (o : EncodeOutcome)
    (hcodec : e.codec = true) (hscale : scaleFrame o = true) (hret : 0 ≤ o.first.ret)
    (hfit : ∀ r ∈ o.rounds, r.bytes.length ≤ out.length) :
    ∃ out', encode e frame out outSize o =
        some (true, e.forFrame frame o, out', (o.flushes.getLastD o.first).bytes.length) ∧
      out'.take (o.flushes.getLastD o.first).bytes.length = (o.flushes.getLastD o.first).bytes := by
  obtain ⟨d, hp, hlen, htake⟩ := handlePostEncoding_ok o.first out 0 (hfit o.first (by simp [EncodeOutcome.rounds]))
  obtain ⟨out', hf, htake'⟩ := flushDelayed_ok o.flushes o.first d
    (fun r hr => by rw [hlen]; exact hfit r (by simp [EncodeOutcome.rounds, hr])) htake
  refine ⟨out', ?_, htake'⟩
  simp only [encode, hcodec, hscale, hret, hp, hf, Bool.true_eq_false, if_false, if_true, Option.bind_some,
    Option.map_some]

/-! ## A call that returns -/

theorem postLoop_fits : ∀ (nals : List Bytes) (out : Bytes) (total : Nat) {r : Bytes × Nat},
    total ≤ out.length → postLoop nals out total = some r →
    total + nals.flatten.length ≤ out.length ∧ r.1.length = out.length
  | [], _, _, _, hle, h => by
    cases h
    exact ⟨hle, rfl⟩
  | nal :: nals, out, total, _, _, h => by
    obtain ⟨d, hc, hl⟩ := Option.bind_eq_some_iff.mp h
    obtain ⟨hroom, hlen⟩ := copy_room hc
    obtain ⟨hfit, hlen'⟩ := postLoop_fits nals d (total + nal.length) (by omega) hl
    rw [List.flatten_cons, List.length_append]
    exact ⟨by omega, hlen'.trans hlen⟩

theorem handlePostEncoding_fits {r : X264Result} {out : Bytes} {offset : Nat} {p : Bytes × Nat}
    (h : handlePostEncoding out r.nals offset = some p) :
    r.bytes.length ≤ out.length ∧ p.1.length = out.length := by
  obtain ⟨hfit, hlen⟩ := postLoop_fits r.nals out 0 (Nat.zero_le _) h
  exact ⟨by rw [X264Result.bytes]; omega, hlen⟩

theorem flushDelayed_fits : ∀ (rs : List X264Result) (out : Bytes) (outSize : Nat) {p : Bytes × Nat},
    flushDelayed rs out outSize = some p → ∀ r ∈ rs, r.bytes.length ≤ out.length
  | [], _, _, _, _, _, hr => absurd hr List.not_mem_nil
  | x :: rs, out, outSize, _, h, r, hr => by
    obtain ⟨⟨d, n⟩, hp, hf⟩ := Option.bind_eq_some_iff.mp h
    obtain ⟨hx, hlen⟩ := handlePostEncoding_fits hp
    rcases List.mem_cons.mp hr with rfl | hr
    · exact hx
    · have := flushDelayed_fits rs d n hf r hr
      rw [hlen] at this
      exact this

/-- Without an encoder or a scaled picture there is nothing. -/
theorem encode_fails {e e' : Encoder} {frame : Frame} {out out' : Bytes} {outSize size : Nat}
    {o : EncodeOutcome} {encoded : Bool} (h : encode e frame out outSize o = some (encoded, e', out', size))
    (hfail : ¬ (e.codec = true ∧ scaleFrame o = true)) : encoded = false := by
  unfold encode at h
  split at h
  · cases h
    rfl
  · next hcodec =>
    rw [Bool.not_eq_false] at hcodec
    have hscale : scaleFrame o = false := by simpa using fun hs => hfail ⟨hcodec, hs⟩
    rw [if_pos hscale] at h
    cases h
    rfl

/-- With them, and an answer of x264, it is the bytes of the last round. -/
theorem encode_image {e e' : Encoder} {frame : Frame} {out out' : Bytes} {outSize size : Nat}
    {o : EncodeOutcome} {encoded : Bool} (h : encode e frame out outSize o = some (encoded, e', out', size))
    (hcodec : e.codec = true) (hscale : scaleFrame o = true) (hret : 0 ≤ o.first.ret) :
    encoded = true ∧ out'.take size = (o.flushes.getLastD o.first).bytes := by
  have hfit : ∀ r ∈ o.rounds, r.bytes.length ≤ out.length := by
    simp only [encode, hcodec, hscale, hret, Bool.true_eq_false, if_false, if_true] at h
    obtain ⟨⟨d, n⟩, hp, hrest⟩ := Option.bind_eq_some_iff.mp h
    obtain ⟨p, hf, -⟩ := Option.map_eq_some_iff.mp hrest
    obtain ⟨hfirst, hlen⟩ := handlePostEncoding_fits hp
    intro r hr
    rcases List.mem_cons.mp hr with rfl | hr
    · exact hfirst
    · have := flushDelayed_fits o.flushes d n hf r hr
      rw [hlen] at this
      exact this
  obtain ⟨d, henc, htake⟩ := encode_last e frame out outSize o hcodec hscale hret hfit
  rw [henc, Option.some.injEq, Prod.mk.injEq, Prod.mk.injEq, Prod.mk.injEq] at h
  obtain ⟨rfl, -, rfl, rfl⟩ := h
  exact ⟨rfl, htake⟩

/-! ## The whole bitstream -/

/-- The payloads of all NAL units, in order. -/
def EncodeOutcome.bitstream (o : EncodeOutcome) : Bytes := (o.rounds.map X264Result.bytes).flatten

theorem bitstream_split (o : EncodeOutcome) :
    o.bitstream = (o.rounds.dropLast.map X264Result.bytes).flatten ++ (o.flushes.getLastD o.first).bytes := by
  have hne : o.rounds ≠ [] := List.cons_ne_nil _ _
  have hlast : o.rounds.getLast hne = o.flushes.getLastD o.first := List.getLast_eq_getLastD hne
  have hsplit := List.dropLast_append_getLast hne
  rw [hlast] at hsplit
  rw [EncodeOutcome.bitstream, ← hsplit, List.map_append, List.flatten_append, List.dropLast_concat,
    List.map_singleton, List.flatten_singleton]

/-- The image is the bytes of all rounds, in order, exactly when no round before the last one
has any. -/
theorem encode_exact (e : Encoder) (frame : Frame) (out : Bytes) (outSize : Nat) (o : EncodeOutcome)
    (hcodec : e.codec = true) (hscale : scaleFrame o = true) (hret : 0 ≤ o.first.ret)
    (hfit : o.bitstream.length ≤ out.length) :
    ∃ out' size, encode e frame out outSize o = some (true, e.forFrame frame o, out', size) ∧
      ((out'.take size = o.bitstream ∧ size = o.bitstream.length) ↔
        ∀ r ∈ o.rounds.dropLast, r.bytes = []) := by
  have hrounds : ∀ r ∈ o.rounds, r.bytes.length ≤ out.length := by
    intro r hr
    have hsub : r.bytes.length ≤ o.bitstream.length :=
      (List.sublist_flatten_of_mem (List.mem_map_of_mem hr)).length_le
    omega
  obtain ⟨out', henc, htake⟩ := encode_last e frame out outSize o hcodec hscale hret hrounds
  refine ⟨out', _, henc, ?_⟩
  rw [htake, bitstream_split, List.length_append]
  constructor
  · rintro ⟨-, hlen⟩ r hr
    have hnil : (o.rounds.dropLast.map X264Result.bytes).flatten = [] :=
      List.eq_nil_of_length_eq_zero (by omega)
    exact List.flatten_eq_nil_iff.mp hnil r.bytes (List.mem_map_of_mem hr)
  · intro h
    have hnil : (o.rounds.dropLast.map X264Result.bytes).flatten = [] := by
      refine List.flatten_eq_nil_iff.mpr fun bs hbs => ?_
      obtain ⟨r, hr, rfl⟩ := List.mem_map.mp hbs
      exact h r hr
    rw [hnil, List.nil_append, List.length_nil, Nat.zero_add]
    exact ⟨rfl, rfl⟩

def openEncoder : Encoder := ⟨true, 640, 360, true⟩

/-- The first round has nothing, a flush has the two NAL units. -/
def lateOutcome : EncodeOutcome := ⟨true, true, 0, 1, ⟨0, []⟩, [⟨8, [[0, 0, 1, 0x06], [0, 0, 1, 0x65]]⟩]⟩

theorem encode_exact_late : lateOutcome.rounds.length = 2 ∧
    ∃ out' size, encode openEncoder ⟨640, 360⟩ [0, 0, 0, 0, 0, 0, 0, 0] 0 lateOutcome =
        some (true, openEncoder.forFrame ⟨640, 360⟩ lateOutcome, out', size) ∧
      ((out'.take size = lateOutcome.bitstream ∧ size = lateOutcome.bitstream.length) ↔
        ∀ r ∈ lateOutcome.rounds.dropLast, r.bytes = []) :=
  ⟨rfl, encode_exact openEncoder ⟨640, 360⟩ [0, 0, 0, 0, 0, 0, 0, 0] 0 lateOutcome rfl rfl (by decide) (by decide)⟩

/-- A slice, and one delayed frame of two bytes. -/
def delayedOutcome : EncodeOutcome := ⟨true, true, 0, 1, ⟨4, [[0, 0, 1, 0x65]]⟩, [⟨2, [[0x41, 0x9a]]⟩]⟩

/-- The delayed frame takes the place of the first two bytes. -/
theorem encode_overwrites :
    ∃ out' size, encode openEncoder ⟨640, 360⟩ [0, 0, 0, 0, 0, 0, 0, 0] 0 delayedOutcome =
        some (true, openEncoder, out', size) ∧
      out'.take size = [0x41, 0x9a] ∧ delayedOutcome.bitstream = [0, 0, 1, 0x65, 0x41, 0x9a] ∧
      ¬ (out'.take size = delayedOutcome.bitstream ∧ size = delayedOutcome.bitstream.length) :=
  ⟨[0x41, 0x9a, 1, 0x65, 0, 0, 0, 0], 2, by decide⟩

end Rtmpg.LowVideo
