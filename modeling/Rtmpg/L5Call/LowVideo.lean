import Rtmpg.L5Call.Encoder
import Rtmpg.L5Call.Model

/-!
# The low stream (`doSendLowVideo`)

`libagorac/agorac.cpp:263-304` and `helpers/agoradecoder.cpp:88-110`. A frame
of the high stream is decoded, scaled, encoded again and sent; the frame of
the decoder and the dimensions of the scaler are kept from call to call. The
state has the fields of the context these functions use; between two calls
the High handler and `agora_send_video` change `predictedFps` and
`highVideoFrameCount` (`others`), and once a second `agora_send_video` starts
both counts over (`reset`).

`doSendLowVideo` uses neither the result of `decode` nor that of `encode`. The
ghost `sent` says for every image what both of them returned, `sinceReset`
counts the images since the counts started over.

* `doSendLowVideo_count`: the count is that of the Low handler in
  `Rtmpg.L5Call.Model`.
* `doSendLowVideo_sendable`, `doSendLowVideo_not_sendable`: one call.
* `lowVideo_sends_encoded`: every run.
-/
namespace Rtmpg.LowVideo

open Rtmpg.Agorac

/-- `MAX_FRAME_SIZE` -/
def maxFrameSize : Nat := 1024 * 1020

inductive DecodeOutcome where
  | sendFails
  | receiveFails
  | frame (f : Frame)
  deriving DecidableEq, Repr

/-- The return value, and `m_avOutFrame`, which `avcodec_receive_frame` empties before
anything else.
mirrors agoradecoder.cpp:88-110 -/
def decode (avOutFrame : Frame) : DecodeOutcome → Bool × Frame
  | .sendFails => (false, avOutFrame)
  | .receiveFails => (false, ⟨0, 0⟩)
  | .frame f => (true, f)

/-- A `Work`, what the decoder and the encoder do with it, and the content of the new
`outBuffer`. -/
structure LowInput where
  work : Work
  decode : DecodeOutcome
  encode : EncodeOutcome
  outBuffer : Bytes
  outBuffer_length : outBuffer.length = maxFrameSize

/-- An image handed to `sendEncodedVideoImage`. -/
structure LowImage where
  work : Work
  decoded : Bool
  encoded : Bool
  x264 : Int
  image : Bytes
  deriving DecidableEq, Repr

structure Low (F : Type) where
  predictedFps : F
  highVideoFrameCount : Nat
  lowVideoFrameCount : Nat
  avOutFrame : Frame
  encoder : Encoder
  -- ghosts
  sent : List LowImage
  sinceReset : Nat

variable {F : Type}

/-- `encodeNextFrame==true || is_key_frame` -/
def wanted (fl : Floats F) (dfps : Nat) (s : Low F) (isKeyFrame : Bool) : Bool :=
  fl.lt (fl.mul (fl.ofInt s.lowVideoFrameCount) (fl.div s.predictedFps (fl.ofInt dfps)))
    (fl.ofInt s.highVideoFrameCount) || isKeyFrame

/-- mirrors libagorac/agorac.cpp:263-304 -/
def doSendLowVideo (fl : Floats F) (dfps : Nat) (s : Low F) (w : LowInput) : Option (Low F) :=
  let (decoded, frame) := decode s.avOutFrame w.decode
  let s := { s with avOutFrame := frame }
  if wanted fl dfps s w.work.isKeyFrame then
    (encode s.encoder frame w.outBuffer 0 w.encode).map fun (encoded, e, out, outBufferSize) =>
      { s with
        encoder := e
        sent := s.sent ++ [⟨w.work, decoded, encoded, w.encode.first.ret, out.take outBufferSize⟩]
        lowVideoFrameCount := (s.lowVideoFrameCount + 1) % 256
        sinceReset := s.sinceReset + 1 }
  else some s

inductive LowLabel (F : Type) where
  | work (w : LowInput)
  | others (predictedFps : F) (highVideoFrameCount : Nat)
  | reset (predictedFps : F)

/-- The context after `agora_init`, with the decoder and the encoder it has opened. -/
def lowStart (predictedFps : F) (avOutFrame : Frame) (e : Encoder) : Low F where
  predictedFps := predictedFps
  highVideoFrameCount := 0
  lowVideoFrameCount := 0
  avOutFrame := avOutFrame
  encoder := e
  sent := []
  sinceReset := 0

def lowSystem (fl : Floats F) (dfps : Nat) : LTS (Low F) (LowLabel F) where
  init s := ∃ predictedFps avOutFrame e, s = lowStart predictedFps avOutFrame e
  step s
    | .work w => doSendLowVideo fl dfps s w
    | .others predictedFps count => some { s with predictedFps := predictedFps, highVideoFrameCount := count }
    | .reset predictedFps =>
      some { s with
        predictedFps := predictedFps
        highVideoFrameCount := 0
        lowVideoFrameCount := 0
        sinceReset := 0 }

/-! ## One call -/

/-- Every image is the non-empty result of encoding what was decoded of its `Work`, and
the count is that of the images. -/
structure SentWell (s : Low F) : Prop where
  images : ∀ x ∈ s.sent, x.decoded = true ∧ x.encoded = true ∧ 0 ≤ x.x264 ∧ x.image ≠ []
  count : s.lowVideoFrameCount = s.sinceReset

/-- If an image is wanted, the decoder has a frame, the encoder a scaled picture and
bytes, and the 8-bit count room for one more. -/
def Sendable (fl : Floats F) (dfps : Nat) (s : Low F) (w : LowInput) : Prop :=
  wanted fl dfps s w.work.isKeyFrame = true →
    (∃ f, w.decode = .frame f) ∧ s.encoder.codec = true ∧ scaleFrame w.encode = true ∧
      0 ≤ w.encode.first.ret ∧ (w.encode.flushes.getLastD w.encode.first).bytes ≠ [] ∧
      s.lowVideoFrameCount < 255

theorem decode_decoded (f : Frame) (o : DecodeOutcome) : (decode f o).1 = true ↔ ∃ g, o = .frame g := by
  cases o <;> simp [decode]

/-- The step, spelled out. -/
theorem doSendLowVideo_cases {fl : Floats F} {dfps : Nat} {s s' : Low F} {w : LowInput}
    (h : doSendLowVideo fl dfps s w = some s') :
    (wanted fl dfps s w.work.isKeyFrame = false ∧ s' = { s with avOutFrame := (decode s.avOutFrame w.decode).2 }) ∨
      (wanted fl dfps s w.work.isKeyFrame = true ∧ ∃ encoded e out size,
        encode s.encoder (decode s.avOutFrame w.decode).2 w.outBuffer 0 w.encode =
          some (encoded, e, out, size) ∧
        s'.sent = s.sent ++ [⟨w.work, (decode s.avOutFrame w.decode).1, encoded, w.encode.first.ret,
          out.take size⟩] ∧
        s'.lowVideoFrameCount = (s.lowVideoFrameCount + 1) % 256 ∧ s'.sinceReset = s.sinceReset + 1) := by
  have hw : wanted fl dfps { s with avOutFrame := (decode s.avOutFrame w.decode).2 } w.work.isKeyFrame =
    wanted fl dfps s w.work.isKeyFrame := rfl
  unfold doSendLowVideo at h
  dsimp only at h
  by_cases hwant : wanted fl dfps s w.work.isKeyFrame = true
  · rw [if_pos (hw.trans hwant)] at h
    obtain ⟨⟨encoded, e, out, size⟩, henc, rfl⟩ := Option.map_eq_some_iff.mp h
    exact .inr ⟨hwant, encoded, e, out, size, henc, rfl, rfl, rfl⟩
  · rw [if_neg (fun h' => hwant (hw.symm.trans h'))] at h
    cases h
    exact .inl ⟨by simpa using hwant, rfl⟩

theorem doSendLowVideo_sendable {fl : Floats F} {dfps : Nat} {s s' : Low F} {w : LowInput} (hs : SentWell s)
    (hok : Sendable fl dfps s w) (h : doSendLowVideo fl dfps s w = some s') : SentWell s' := by
  rcases doSendLowVideo_cases h with ⟨-, rfl⟩ | ⟨hwant, encoded, e, out, size, henc, hsent, hcount, hsince⟩
  · exact ⟨hs.images, hs.count⟩
  · obtain ⟨hdec, hcodec, hscale, hret, hbytes, hroom⟩ := hok hwant
    obtain ⟨hencoded, himage⟩ := encode_image henc hcodec hscale hret
    refine ⟨fun x hx => ?_, ?_⟩
    · rw [hsent] at hx
      rcases List.mem_append.mp hx with hx | hx
      · exact hs.images x hx
      · rw [List.mem_singleton.mp hx]
        exact ⟨(decode_decoded _ _).mpr hdec, hencoded, hret, by rw [himage]; exact hbytes⟩
    · rw [hcount, hsince, ← hs.count]
      exact Nat.mod_eq_of_lt (by omega)

theorem doSendLowVideo_not_sendable {fl : Floats F} {dfps : Nat} {s s' : Low F} {w : LowInput}
    (hs : SentWell s) (hno : ¬ Sendable fl dfps s w) (h : doSendLowVideo fl dfps s w = some s') :
    ¬ SentWell s' := by
  intro hs'
  rcases doSendLowVideo_cases h with ⟨hskip, -⟩ | ⟨hwant, encoded, e, out, size, henc, hsent, hcount, hsince⟩
  · refine hno fun hwant => ?_
    rw [hskip] at hwant
    cases hwant
  · obtain ⟨hdec, hencoded, hret, himage⟩ := hs'.images
      ⟨w.work, (decode s.avOutFrame w.decode).1, encoded, w.encode.first.ret, out.take size⟩
      (by rw [hsent]; exact List.mem_append_right _ (List.mem_singleton.mpr rfl))
    dsimp only at hdec hencoded hret himage
    have hready : s.encoder.codec = true ∧ scaleFrame w.encode = true := by
      by_contra hfail
      rw [encode_fails henc hfail] at hencoded
      cases hencoded
    obtain ⟨-, hbytes⟩ := encode_image henc hready.1 hready.2 hret
    refine hno fun _ => ⟨(decode_decoded _ _).mp hdec, hready.1, hready.2, hret, by rw [← hbytes]; exact himage, ?_⟩
    have hcnt := hs'.count
    rw [hcount, hsince, ← hs.count] at hcnt
    omega

/-! ## The Low handler of the call -/

/-- What `doSendLowVideo` sees of a call. -/
def lowOf (c : Call F) (avOutFrame : Frame) (e : Encoder) (sent : List LowImage) (sinceReset : Nat) : Low F where
  predictedFps := c.predictedFps
  highVideoFrameCount := c.highVideoFrameCount
  lowVideoFrameCount := c.lowVideoFrameCount
  avOutFrame := avOutFrame
  encoder := e
  sent := sent
  sinceReset := sinceReset

theorem doSendLowVideo_count {fl : Floats F} {cfg : Config} {c c' : Call F} {w : LowInput}
    {avOutFrame : Frame} {e : Encoder} {sent : List LowImage} {sinceReset : Nat} {s' : Low F}
    (hpc : c.low = .send w.work) (hc : lowStep fl cfg c = some c')
    (hs : doSendLowVideo fl cfg.dfps (lowOf c avOutFrame e sent sinceReset) w = some s') :
    c'.lowVideoFrameCount = s'.lowVideoFrameCount := by
  have hw : wanted fl cfg.dfps (lowOf c avOutFrame e sent sinceReset) w.work.isKeyFrame =
    lowWanted fl cfg c w.work := rfl
  unfold lowStep at hc
  rw [hpc] at hc
  cases hc
  rcases doSendLowVideo_cases hs with ⟨hskip, rfl⟩ | ⟨hwant, -, -, -, -, -, -, hcount, -⟩
  · rw [hw] at hskip
    simp only [hskip, Bool.false_eq_true, if_false]
    rfl
  · rw [hw] at hwant
    simp only [hwant, if_true, hcount]
    rfl

/-! ## Every run -/

def Careful (fl : Floats F) (dfps : Nat) (s : Low F) : LowLabel F → Prop
  | .work w => Sendable fl dfps s w
  | _ => True

/-- As long as every work is sendable each wanted image is sent with x264's bytes; the first
work that is not spoils it. -/
theorem lowVideo_sends_encoded (fl : Floats F) (dfps : Nat) (s₀ : Low F) (h₀ : (lowSystem fl dfps).init s₀) :
    (∀ s, (lowSystem fl dfps).Run (Careful fl dfps) s₀ s → SentWell s) ∧
      ∀ s w s', (lowSystem fl dfps).Run (Careful fl dfps) s₀ s → ¬ Sendable fl dfps s w →
        (lowSystem fl dfps).step s (.work w) = some s' → ¬ SentWell s' := by
  obtain ⟨predictedFps, avOutFrame, e, rfl⟩ := h₀
  have hrun : ∀ s, (lowSystem fl dfps).Run (Careful fl dfps) (lowStart predictedFps avOutFrame e) s →
      SentWell s := by
    intro s hr
    refine hr.invariant (fun s l t hok hs hstep => ?_) ⟨fun _ hx => absurd hx List.not_mem_nil, rfl⟩
    cases l with
    | work w => exact doSendLowVideo_sendable hs hok hstep
    | others predictedFps count =>
      cases hstep
      exact ⟨hs.images, hs.count⟩
    | reset predictedFps =>
      cases hstep
      exact ⟨hs.images, rfl⟩
  exact ⟨hrun, fun s w s' hr hno hstep => doSendLowVideo_not_sendable (hrun s hr) hno hstep⟩

theorem lowVideo_sends_encoded_start :
    (∀ s, (lowSystem rationals 15).Run (Careful rationals 15) (lowStart 30 ⟨0, 0⟩ openEncoder) s →
        SentWell s) ∧
      ∀ s w s', (lowSystem rationals 15).Run (Careful rationals 15) (lowStart 30 ⟨0, 0⟩ openEncoder) s →
        ¬ Sendable rationals 15 s w → (lowSystem rationals 15).step s (.work w) = some s' → ¬ SentWell s' :=
  lowVideo_sends_encoded rationals 15 (lowStart 30 ⟨0, 0⟩ openEncoder) ⟨30, ⟨0, 0⟩, openEncoder, rfl⟩

/-- A key frame of which the decoder makes no frame; the empty one cannot be scaled. -/
def undecodable : LowInput where
  work := ⟨0, [0, 0, 0, 1, 0x65], true, false, 0⟩
  decode := .receiveFails
  encode := ⟨false, true, 0, -1, ⟨0, []⟩, []⟩
  outBuffer := List.replicate maxFrameSize 0
  outBuffer_length := List.length_replicate

/-- It is sent to the low stream all the same, as an image of no bytes, and counted. -/
theorem lowVideo_sends_nothing :
    ∃ s, (lowSystem rationals 15).step (lowStart 30 ⟨0, 0⟩ openEncoder) (.work undecodable) = some s ∧
      s.sent = [⟨undecodable.work, false, false, 0, []⟩] ∧ s.lowVideoFrameCount = 1 ∧ ¬ SentWell s := by
  refine ⟨{ lowStart 30 ⟨0, 0⟩ ⟨true, 0, 0, false⟩ with
    sent := [⟨undecodable.work, false, false, 0, []⟩], lowVideoFrameCount := 1, sinceReset := 1 }, ?_, rfl, rfl,
    fun h => ?_⟩
  · have hkey : undecodable.work.isKeyFrame = true := rfl
    have hdec : undecodable.decode = .receiveFails := rfl
    have henc : encode openEncoder ⟨0, 0⟩ undecodable.outBuffer 0 undecodable.encode =
        some (false, ⟨true, 0, 0, false⟩, undecodable.outBuffer, 0) := rfl
    simp only [lowSystem, doSendLowVideo, wanted, lowStart, hkey, hdec, decode, henc, Bool.or_true, if_true,
      Option.map_some, List.take_zero, List.nil_append]
    rfl
  · obtain ⟨hdec, -⟩ := h.images ⟨undecodable.work, false, false, 0, []⟩ (List.mem_singleton.mpr rfl)
    cases hdec

end Rtmpg.LowVideo
