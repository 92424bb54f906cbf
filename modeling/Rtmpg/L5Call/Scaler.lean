import Mathlib.Data.List.Induction
import Rtmpg.L5Call.LowVideo

/-!
# The scaler of the low stream

`AgoraEncoder::encode` makes a new `m_scaleContext` when the size of the frame
changes, and does not look whether there is one before it calls `sws_scale`
(`helpers/agoraencoder.cpp:67-76,186-241`). The frame is that of the decoder,
empty before the first picture and behind every packet the decoder takes
without giving one (`helpers/agoradecoder.cpp:88-110`).

`Honest` is what FFmpeg does: a picture has a size, and a context can be had
for a source that has one.

* `pictureOf_empty`: when the frame is empty.
* `fits_step`: the context is that of the size the encoder has noted.
* `null_scale_iff`: in every run, a frame is scaled with the context of its own
  size, and exactly an empty one with none at all.
-/
namespace Rtmpg.LowVideo

open Rtmpg.Agorac

variable {F : Type}

/-! ## The frame -/

/-- `m_avOutFrame` behind these packets; `av_frame_alloc` leaves it empty. -/
def pictureOf (outcomes : List DecodeOutcome) : Frame := outcomes.foldl (fun frame o => (decode frame o).2) ⟨0, 0⟩

/-- The last packet that the decoder took gave no picture, or there was none. -/
def Unpictured (outcomes : List DecodeOutcome) : Prop :=
  (outcomes.filter (· ≠ .sendFails)).getLastD .receiveFails = .receiveFails

instance (outcomes : List DecodeOutcome) : Decidable (Unpictured outcomes) := inferInstanceAs (Decidable (_ = _))

/-- The sizes that fit the fields of the encoder. -/
def Frame.Sized (f : Frame) : Prop := 0 < f.width ∧ f.width < 2 ^ 16 ∧ 0 < f.height ∧ f.height < 2 ^ 16

instance (f : Frame) : Decidable f.Sized := inferInstanceAs (Decidable (_ ∧ _ ∧ _ ∧ _))

def GivesSized (outcomes : List DecodeOutcome) : Prop := ∀ f, DecodeOutcome.frame f ∈ outcomes → f.Sized

theorem pictureOf_concat (outcomes : List DecodeOutcome) (o : DecodeOutcome) :
    pictureOf (outcomes ++ [o]) = (decode (pictureOf outcomes) o).2 := List.foldl_concat ..

theorem unpictured_concat (outcomes : List DecodeOutcome) (o : DecodeOutcome) :
    Unpictured (outcomes ++ [o]) ↔ o = .receiveFails ∨ (o = .sendFails ∧ Unpictured outcomes) := by
  unfold Unpictured
  cases o with
  | sendFails => simp
  | receiveFails => simp
  | frame f => simp

/-- The frame is empty or has a size. -/
theorem pictureOf_empty (outcomes : List DecodeOutcome) (h : GivesSized outcomes) :
    (Unpictured outcomes ∧ pictureOf outcomes = ⟨0, 0⟩) ∨ (¬ Unpictured outcomes ∧ (pictureOf outcomes).Sized) := by
  induction outcomes using List.reverseRecOn with
  | nil => exact .inl ⟨rfl, rfl⟩
  | append_singleton outcomes o ih =>
    have hbefore := ih fun f hf => h f (List.mem_append_left _ hf)
    rw [pictureOf_concat, unpictured_concat]
    cases o with
    | sendFails => simpa [decode] using hbefore
    | receiveFails => exact .inl ⟨.inl rfl, rfl⟩
    | frame f => exact .inr ⟨by simp, h f (List.mem_append_right _ List.mem_cons_self)⟩

/-! ## The context -/

/-- The frame a `Work` leaves to be scaled. -/
def frameOf (s : Low F) (w : LowInput) : Frame := (decode s.avOutFrame w.decode).2

structure HonestInput (s : Low F) (w : LowInput) : Prop where
  sized : ∀ f, w.decode = .frame f → f.Sized
  context : w.encode.getContext = true ↔ 0 < (frameOf s w).width ∧ 0 < (frameOf s w).height

def Honest (s : Low F) : LowLabel F → Prop
  | .work w => HonestInput s w
  | _ => True

/-- An open encoder, and a context for the size it has noted if that is one. -/
structure Fits (e : Encoder) : Prop where
  codec : e.codec = true
  context : e.scaleContext = true ↔ 0 < e.srcWidth ∧ 0 < e.srcHeight

/-- `sws_scale` is called, and `m_scaleContext` is null. -/
def NullScale (fl : Floats F) (dfps : Nat) (s : Low F) (w : LowInput) : Prop :=
  wanted fl dfps s w.work.isKeyFrame = true ∧ s.encoder.codec = true ∧ w.encode.frameAlloc = true ∧
    0 ≤ w.encode.imageAlloc ∧ (s.encoder.forFrame (frameOf s w) w.encode).scaleContext = false

/-- Behind the test of the size the encoder has that of the frame. -/
theorem Fits.forFrame {e : Encoder} (he : Fits e) {frame : Frame} {o : EncodeOutcome}
    (hsize : frame.width < 2 ^ 16 ∧ frame.height < 2 ^ 16)
    (ho : o.getContext = true ↔ 0 < frame.width ∧ 0 < frame.height) :
    Fits (e.forFrame frame o) ∧ (e.forFrame frame o).srcWidth = frame.width ∧
      (e.forFrame frame o).srcHeight = frame.height := by
  unfold Encoder.forFrame
  split
  · have hwidth : frame.width % 2 ^ 16 = frame.width := Nat.mod_eq_of_lt hsize.1
    have hheight : frame.height % 2 ^ 16 = frame.height := Nat.mod_eq_of_lt hsize.2
    refine ⟨⟨he.codec, ?_⟩, hwidth, hheight⟩
    simp only [onResolutionChange, hwidth, hheight]
    exact ho
  · next hsame =>
    rw [not_or, not_not, not_not] at hsame
    exact ⟨he, hsame.1.symm, hsame.2.symm⟩

theorem encode_encoder {e e' : Encoder} {frame : Frame} {out out' : Bytes} {outSize size : Nat} {o : EncodeOutcome}
    {encoded : Bool} (h : encode e frame out outSize o = some (encoded, e', out', size)) (hcodec : e.codec = true) :
    e' = e.forFrame frame o := by
  unfold encode at h
  rw [if_neg (by rw [hcodec]; exact Bool.noConfusion)] at h
  dsimp only at h
  split at h
  · cases h
    rfl
  · obtain ⟨p, -, hrest⟩ := Option.bind_eq_some_iff.mp h
    obtain ⟨q, -, heq⟩ := Option.map_eq_some_iff.mp hrest
    cases heq
    rfl

/-- What a call does to the frame and to the scaler. -/
theorem doSendLowVideo_scaler {fl : Floats F} {dfps : Nat} {s t : Low F} {w : LowInput}
    (h : doSendLowVideo fl dfps s w = some t) (hcodec : s.encoder.codec = true) :
    t.avOutFrame = frameOf s w ∧ (t.encoder = s.encoder ∨ t.encoder = s.encoder.forFrame (frameOf s w) w.encode) := by
  unfold doSendLowVideo at h
  dsimp only at h
  split at h
  · obtain ⟨⟨encoded, e, out, size⟩, henc, rfl⟩ := Option.map_eq_some_iff.mp h
    exact ⟨rfl, .inr (encode_encoder henc hcodec)⟩
  · cases h
    exact ⟨rfl, .inl rfl⟩

/-! ## Every run -/

structure Scaled (s : Low F) (past : List DecodeOutcome) : Prop where
  fits : Fits s.encoder
  sized : GivesSized past
  frame : s.avOutFrame = pictureOf past

def watchDecode (_ : Low F) (l : LowLabel F) (past : List DecodeOutcome) : List DecodeOutcome :=
  match l with
  | .work w => past ++ [w.decode]
  | _ => past

/-- Every order of calls, with what the decoder has answered. -/
def Decoded (fl : Floats F) (dfps : Nat) (s₀ s : Low F) (past : List DecodeOutcome) : Prop :=
  ((lowSystem fl dfps).watched watchDecode []).Run (fun p => Honest p.1) (s₀, []) (s, past)

theorem Scaled.next {s : Low F} {past : List DecodeOutcome} (hs : Scaled s past) {w : LowInput}
    (hw : HonestInput s w) :
    GivesSized (past ++ [w.decode]) ∧ frameOf s w = pictureOf (past ++ [w.decode]) ∧
      (frameOf s w).width < 2 ^ 16 ∧ (frameOf s w).height < 2 ^ 16 := by
  have hsized : GivesSized (past ++ [w.decode]) := by
    intro f hf
    rcases List.mem_append.mp hf with hf | hf
    · exact hs.sized f hf
    · exact hw.sized f (List.mem_singleton.mp hf).symm
  have hframe : frameOf s w = pictureOf (past ++ [w.decode]) := by rw [frameOf, hs.frame, pictureOf_concat]
  refine ⟨hsized, hframe, ?_⟩
  rw [hframe]
  rcases pictureOf_empty _ hsized with ⟨-, hempty⟩ | ⟨-, hsize⟩
  · rw [hempty]
    exact ⟨by decide, by decide⟩
  · exact ⟨hsize.2.1, hsize.2.2.2⟩

theorem scaled_step {fl : Floats F} {dfps : Nat} {s t : Low F} {past : List DecodeOutcome} {l : LowLabel F}
    (hs : Scaled s past) (hl : Honest s l) (h : (lowSystem fl dfps).step s l = some t) :
    Scaled t (watchDecode s l past) := by
  cases l with
  | others predictedFps count =>
    cases h
    exact ⟨hs.fits, hs.sized, hs.frame⟩
  | reset predictedFps =>
    cases h
    exact ⟨hs.fits, hs.sized, hs.frame⟩
  | work w =>
    obtain ⟨hsized, hframe, hsmall⟩ := hs.next hl
    have hnext := (hs.fits.forFrame hsmall hl.context).1
    obtain ⟨hout, henc⟩ := doSendLowVideo_scaler h hs.fits.codec
    refine ⟨?_, hsized, hout.trans hframe⟩
    rcases henc with henc | henc
    · exact henc ▸ hs.fits
    · exact henc ▸ hnext

/-- A frame is scaled with the context for its size, and without one exactly when an image is
wanted, there is a picture to scale into and the last packet that was taken gave no picture. -/
theorem null_scale_iff (fl : Floats F) (dfps : Nat) (predictedFps : F) (e : Encoder) (he : Fits e) (s : Low F)
    (past : List DecodeOutcome) (hr : Decoded fl dfps (lowStart predictedFps ⟨0, 0⟩ e) s past) (w : LowInput)
    (hw : HonestInput s w) :
    ((s.encoder.forFrame (frameOf s w) w.encode).srcWidth = (frameOf s w).width ∧
      (s.encoder.forFrame (frameOf s w) w.encode).srcHeight = (frameOf s w).height) ∧
      (NullScale fl dfps s w ↔ wanted fl dfps s w.work.isKeyFrame = true ∧ w.encode.frameAlloc = true ∧
        0 ≤ w.encode.imageAlloc ∧ Unpictured (past ++ [w.decode])) := by
  have hs : Scaled s past := by
    refine hr.invariant (I := fun p => Scaled p.1 p.2) (fun p l q hok hp hstep => ?_)
      ⟨he, fun _ hf => absurd hf List.not_mem_nil, rfl⟩
    obtain ⟨t, ht, rfl⟩ := Option.map_eq_some_iff.mp hstep
    exact scaled_step hp hok ht
  obtain ⟨hsized, hframe, hsmall⟩ := hs.next hw
  obtain ⟨hfits, hwidth, hheight⟩ := hs.fits.forFrame hsmall hw.context
  refine ⟨⟨hwidth, hheight⟩, ?_⟩
  have hnull : (s.encoder.forFrame (frameOf s w) w.encode).scaleContext = false ↔ Unpictured (past ++ [w.decode]) := by
    rw [← Bool.not_eq_true, hfits.context, hwidth, hheight, hframe]
    rcases pictureOf_empty _ hsized with ⟨hun, hempty⟩ | ⟨hpic, hsize⟩
    · rw [hempty]
      exact iff_of_true (fun h => absurd h.1 (lt_irrefl 0)) hun
    · exact iff_of_false (fun h => h ⟨hsize.1, hsize.2.2.1⟩) hpic
  unfold NullScale
  rw [hnull]
  exact ⟨fun ⟨hwant, _, hframe, himage, hun⟩ => ⟨hwant, hframe, himage, hun⟩,
    fun ⟨hwant, hframe, himage, hun⟩ => ⟨hwant, hs.fits.codec, hframe, himage, hun⟩⟩

/-- A picture the low stream does not get; it is only decoded. -/
def skipped : LowInput :=
  { undecodable with work := ⟨0, [0, 0, 0, 1, 0x41], false, false, 0⟩, decode := .frame ⟨640, 360⟩,
                     encode := ⟨true, true, 0, 1, ⟨0, []⟩, []⟩ }

def behindSkipped : Low Rat := { lowStart 30 ⟨0, 0⟩ openEncoder with avOutFrame := ⟨640, 360⟩ }

theorem skipped_decoded :
    Decoded rationals 15 (lowStart 30 ⟨0, 0⟩ openEncoder) behindSkipped [.frame ⟨640, 360⟩] := by
  refine .tail (.work skipped) .refl ⟨fun f hf => ?_, by decide⟩ ?_
  · cases hf
    decide
  · have hwanted : wanted rationals 15 { lowStart 30 ⟨0, 0⟩ openEncoder with avOutFrame := ⟨640, 360⟩ } false =
      false := by decide +kernel
    have hkey : skipped.work.isKeyFrame = false := rfl
    have hdec : skipped.decode = .frame ⟨640, 360⟩ := rfl
    simp only [LTS.watched, lowSystem, doSendLowVideo, hkey, hdec, decode]
    rw [if_neg (fun hw => Bool.false_ne_true (hwanted.symm.trans hw))]
    rfl

/-- A key frame of which the decoder makes no picture is scaled without a context, whatever
came before it. -/
theorem null_scale_iff_skipped : NullScale rationals 15 behindSkipped undecodable ∧
    ((behindSkipped.encoder.forFrame (frameOf behindSkipped undecodable) undecodable.encode).srcWidth =
        (frameOf behindSkipped undecodable).width ∧
      (behindSkipped.encoder.forFrame (frameOf behindSkipped undecodable) undecodable.encode).srcHeight =
        (frameOf behindSkipped undecodable).height) ∧
      (NullScale rationals 15 behindSkipped undecodable ↔
        wanted rationals 15 behindSkipped undecodable.work.isKeyFrame = true ∧
          undecodable.encode.frameAlloc = true ∧ 0 ≤ undecodable.encode.imageAlloc ∧
            Unpictured ([.frame ⟨640, 360⟩] ++ [undecodable.decode])) := by
  have hall := null_scale_iff rationals 15 30 openEncoder ⟨rfl, by decide⟩ _ _ skipped_decoded undecodable
    ⟨fun f hf => (by cases hf), by decide⟩
  exact ⟨hall.2.mpr ⟨by decide +kernel, rfl, le_refl _, by decide⟩, hall⟩

end Rtmpg.LowVideo
