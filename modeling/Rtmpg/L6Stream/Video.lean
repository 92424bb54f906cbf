import Rtmpg.L2Video.Complete
import Rtmpg.L2Video.Split
import Rtmpg.L6Stream.Published

/-!
# Pictures arrive as they were published

The video path from end to end: `avcc_to_annexb` and `ngx_agora_send_video`
(`ngx_agora_helper.c:228-430`), the queues and the handlers, and
`doSendHighVideo` (`libagorac/agorac.cpp:306-322`). A `Picture` is what the
publisher means: NAL units and the parameter sets they are coded with, within
the limits of the conversion. `Carries` says that an RTMP message encodes it,
in buffers of any size.

* `converted`: a picture's message is converted, to its translation.
* `pictures_arrive`: in every run what the SDK is handed is, image by image,
  a prefix of the published pictures; an Annex B splitter gets their units back.
* `sent_idr_decodable`: a receiver can start at any IDR slice, the parameter
  sets of its picture are in front of it in the same image.
-/
namespace Rtmpg.Stream

open Rtmpg.Bytes Rtmpg.Chain Rtmpg.AnnexB Rtmpg.Opus Rtmpg.Video Rtmpg.Agorac Rtmpg.Packets

variable {F G : Type} {R : NginxRtmp} {q : FloatFormat G} {fl : Floats F} {cfg : Config}

/-! ## Pictures -/

/-- A picture within the limits of `avcc_to_annexb`: its units are H.264 NAL units, one of
them is kept, the last one is longer than a byte, and the frame leaves a byte of the buffer
free. -/
structure Picture where
  config : AvcConfig
  units : List Bytes
  isKeyFrame : Bool
  timestamp : Nat
  units_free : ∀ u ∈ units, EmulationFree u
  config_free : ∀ u ∈ config.sps ++ config.pps, EmulationFree u
  config_types : ∀ u ∈ config.sps ++ config.pps, nalTypeOf u = 7 ∨ nalTypeOf u = 8
  kept : ∃ u ∈ units, ¬ Dropped u
  last : (units.getLastD []).length ≠ 1
  fits : (translation config units).length < bufSize

/-- The units a receiver is to get. -/
def Picture.bodies (p : Picture) : List Bytes := (translate p.config p.units).map Nalu.body

def Picture.sample (p : Picture) : Sample := ⟨translation p.config p.units, p.isKeyFrame, p.timestamp⟩

structure Encodes (R : NginxRtmp) (p : Picture) (codec : CodecCtx) (h : RtmpHeader) (msg : Chain) : Prop where
  nalBytes : NalBytesOk codec
  config : HoldsConfig codec p.config
  h264 : codec.videoCodecId = R.videoH264
  long : 1 ≤ h.mlen
  message : ∃ fmt cts, cts.length = 3 ∧ flat msg = encodeMessage codec.avcNalBytes fmt cts p.units
  lengths : ∀ u ∈ p.units, u.length < 256 ^ codec.avcNalBytes
  key : R.isKeyFrame msg = p.isKeyFrame
  timestamp : h.timestamp = p.timestamp

def Carries (R : NginxRtmp) (m : VideoMessage) (p : Picture) : Prop :=
  ∃ codec, m.codec = some codec ∧ Encodes R p codec m.header m.chain

/-- An AVC sequence header, as it comes before the first picture. -/
def IsSequenceHeader (m : VideoMessage) : Prop := ∃ fmt rest, flat m.chain = fmt :: 0 :: rest

/-- The messages are those pictures, and sequence headers between them. -/
inductive Publishes (R : NginxRtmp) : List VideoMessage → List Picture → Prop
  | nil : Publishes R [] []
  | picture {m : VideoMessage} {p : Picture} {ms : List VideoMessage} {ps : List Picture} :
      Carries R m p → Publishes R ms ps → Publishes R (m :: ms) (p :: ps)
  | header {m : VideoMessage} {ms : List VideoMessage} {ps : List Picture} :
      IsSequenceHeader m → Publishes R ms ps → Publishes R (m :: ms) ps

/-! ## One message -/

theorem translation_ne_nil (p : Picture) : translation p.config p.units ≠ [] := by
  rw [translation, ne_eq, serialize_eq_nil]
  exact translateFrom_ne_nil p.config p.units .none p.kept

theorem converted {p : Picture} {codec : CodecCtx} {h : RtmpHeader} {msg : Chain} (hp : Encodes R p codec h msg) :
    avccToAnnexb R (some codec) h msg =
      some ⟨(translation p.config p.units).length, some (translation p.config p.units)⟩ := by
  obtain ⟨fmt, cts, h3, hmsg⟩ := hp.message
  have hne : msg ≠ [] := by
    rintro rfl
    cases hmsg
  have hmsg' : flat msg = fmt :: 1 :: cts ++ frames codec.avcNalBytes p.units := hmsg
  have hfuel : p.units.length ≤ (flat msg).length := by
    have hle := length_le_frames codec.avcNalBytes hp.nalBytes.pos p.units
    rw [hmsg', List.length_append]
    omega
  have hroom : (Conv.start (frames codec.avcNalBytes p.units)).out.data.length +
      (translation p.config p.units).length < bufSize := by
    rw [start_data, List.length_nil, Nat.zero_add]
    exact p.fits
  -- the loop comes to its end: the last unit is not a single byte
  obtain ⟨o, ho⟩ : ∃ o, unitLoop R codec p.units (Conv.start (frames codec.avcNalBytes p.units)) = .filled o := by
    have hlast := p.last
    have hfits := hroom
    obtain ⟨u, hu, -⟩ := p.kept
    rcases List.eq_nil_or_concat p.units with hnil | ⟨init, v, e⟩
    · rw [hnil] at hu
      cases hu
    · rw [List.concat_eq_append] at e
      rw [e] at hlast hfits
      rw [List.getLastD_concat] at hlast
      have hend := (unitLoop_ends R hp.nalBytes.pos hp.config init v (start_inSync _) hfits).2 hlast
      rw [e]
      exact hend
  have hdata : o.data = translation p.config p.units :=
    unitLoop_translate R hp.config o _ _ _ (start_inSync _) (Nat.le_of_lt hroom) ho
  rw [avccToAnnexb_message R hp.config.1 hp.long hp.h264 hne h3 hmsg',
    convLoop_units R codec hp.nalBytes p.units _ _ hfuel hp.lengths rfl, ho]
  simp only [finish, deliver, hdata, translation_ne_nil p, false_and, if_false]

theorem carries_sample {m : VideoMessage} {p : Picture} (h : Carries R m p) : m.sample R = some p.sample := by
  obtain ⟨codec, hcodec, hp⟩ := h
  simp only [VideoMessage.sample, ngxAgoraSendVideo, hcodec, converted hp, hp.key, hp.timestamp,
    Bool.true_eq_false, if_false, Option.bind_some, Option.map_some, Picture.sample]

theorem header_sample {m : VideoMessage} (h : IsSequenceHeader m) : m.sample R = none := by
  obtain ⟨fmt, rest, hmsg⟩ := h
  have hsilent : ∀ r buf, avccToAnnexb R m.codec m.header m.chain = some r → r.outBuffer ≠ some buf := by
    intro r buf hr hb
    cases hc : m.codec with
    | none =>
      rw [hc] at hr
      cases hr
      cases hb
    | some codec =>
      rw [hc] at hr
      obtain ⟨-, -, -, -, fmt', cts, payload, -, hmsg'⟩ := avccToAnnexb_delivers R hr hb
      rw [hmsg] at hmsg'
      simp at hmsg'
  unfold VideoMessage.sample ngxAgoraSendVideo
  rw [if_neg Bool.true_eq_false.mp]
  cases ha : avccToAnnexb R m.codec m.header m.chain with
  | none => rfl
  | some r =>
    cases hb : r.outBuffer with
    | none =>
      obtain ⟨ret, out⟩ := r
      cases hb
      rfl
    | some buf => exact absurd hb (hsilent r buf ha)

theorem publishes_samples {ms : List VideoMessage} {ps : List Picture} (h : Publishes R ms ps) :
    ms.filterMap (·.sample R) = ps.map Picture.sample := by
  induction h with
  | nil => rfl
  | picture hp _ ih => rw [List.filterMap_cons_some (carries_sample hp), List.map_cons, ih]
  | header hm _ ih => rw [List.filterMap_cons_none (header_sample hm), ih]

/-! ## What the SDK is handed -/

inductive FrameType where
  | key
  | delta
  deriving DecidableEq, Repr

inductive StreamType where
  | high
  | low
  deriving DecidableEq, Repr

/-- The arguments of a call of `sendEncodedVideoImage` that are not the same in all of them. -/
structure VideoImage where
  buffer : Bytes
  framesPerSecond : Nat
  frameType : FrameType
  streamType : StreamType
  deriving DecidableEq, Repr

def frameTypeOf (isKeyFrame : Bool) : FrameType := if isKeyFrame then .key else .delta

/-- mirrors libagorac/agorac.cpp:306-322 -/
def doSendHighVideo (work : Work) : VideoImage := ⟨work.buffer, 30, frameTypeOf work.isKeyFrame, .high⟩

/-- What a receiver makes of an image: its NAL units, and whether it is announced as a key frame. -/
def received (image : VideoImage) : List Bytes × FrameType := (AnnexB.split image.buffer, image.frameType)

def Picture.shown (p : Picture) : List Bytes × FrameType := (p.bodies, frameTypeOf p.isKeyFrame)

theorem split_sample (p : Picture) : AnnexB.split p.sample.buffer = p.bodies :=
  split_serialize _ (translate_emulationFree p.config p.units p.config_free p.units_free)

theorem received_sample {work : Work} {p : Picture} (h : sampleOf work = p.sample) :
    received (doSendHighVideo work) = p.shown := by
  have hbuf : work.buffer = p.sample.buffer := congrArg Sample.buffer h
  have hkey : work.isKeyFrame = p.isKeyFrame := congrArg Sample.isKeyFrame h
  rw [received, doSendHighVideo, Picture.shown, hbuf, hkey, split_sample]

/-- What the SDK is handed is a prefix of the published pictures, and what the Low handler has
processed a part of them in their order. -/
theorem pictures_arrive (R : NginxRtmp) (q : FloatFormat G) (fl : Floats F) (cfg : Config) (s₀ s : Session F)
    (past : History) (h₀ : (sessionSystem R q fl cfg).init s₀) (h : Ran R q fl cfg s₀ s past)
    (pictures : List Picture) (hpub : Publishes R past.video pictures) :
    s.call.sentHigh.map (fun work => received (doSendHighVideo work)) <+: pictures.map Picture.shown ∧
      (s.call.lowProcessed.map fun work => (AnnexB.split work.buffer, work.isKeyFrame)).Sublist
        (pictures.map fun p => (p.bodies, p.isKeyFrame)) ∧
      s.call.sentHigh.map (·.timestamp) <+: pictures.map fun p => (p.timestamp : Int) := by
  obtain ⟨hhigh, hlow, -⟩ := sent_is_published R q fl cfg s₀ s past h₀ h
  rw [publishes_samples hpub] at hhigh hlow
  have hshown : pictures.map Picture.shown = (pictures.map Picture.sample).map
      fun sample => (AnnexB.split sample.buffer, frameTypeOf sample.isKeyFrame) := by
    rw [List.map_map]
    exact List.map_congr_left fun p _ => congrArg (·, frameTypeOf p.isKeyFrame) (split_sample p).symm
  have hkept : (pictures.map fun p => (p.bodies, p.isKeyFrame)) = (pictures.map Picture.sample).map
      fun sample => (AnnexB.split sample.buffer, sample.isKeyFrame) := by
    rw [List.map_map]
    exact List.map_congr_left fun p _ => congrArg (·, p.isKeyFrame) (split_sample p).symm
  refine ⟨?_, ?_, ?_⟩
  · have hmap := hhigh.map fun sample => (AnnexB.split sample.buffer, frameTypeOf sample.isKeyFrame)
    rw [← hshown, List.map_map] at hmap
    exact hmap
  · have hmap := hlow.map fun sample => (AnnexB.split sample.buffer, sample.isKeyFrame)
    rw [← hkept, List.map_map] at hmap
    exact hmap
  · have hmap := hhigh.map fun sample => sample.timestamp
    rw [List.map_map, List.map_map] at hmap
    exact hmap

/-! ## Where a receiver can start -/

/-- Every IDR slice has the parameter sets somewhere before it; `before` is what came first. -/
def ParamsFirst (c : AvcConfig) (before : List Bytes) : List Bytes → Prop
  | [] => True
  | u :: us => (nalTypeOf u = 5 → (c.sps ++ c.pps) <:+: before) ∧ ParamsFirst c (before ++ [u]) us

theorem paramsFirst_append {c : AvcConfig} {us vs : List Bytes} : ∀ {before : List Bytes},
    ParamsFirst c before us → ParamsFirst c (before ++ us) vs → ParamsFirst c before (us ++ vs) := by
  induction us with
  | nil =>
    intro before _ hvs
    rwa [List.append_nil] at hvs
  | cons u us ih =>
    intro before hus hvs
    refine ⟨hus.1, ih hus.2 ?_⟩
    rwa [List.append_assoc]

theorem paramsFirst_others {c : AvcConfig} {us : List Bytes} (h : ∀ u ∈ us, nalTypeOf u ≠ 5) :
    ∀ before, ParamsFirst c before us := by
  induction us with
  | nil => exact fun _ => trivial
  | cons u us ih =>
    exact fun before => ⟨fun h5 => absurd h5 (h u List.mem_cons_self),
      ih (fun v hv => h v (List.mem_cons_of_mem _ hv)) _⟩

theorem paramsFirst_at {c : AvcConfig} {u : Bytes} {post : List Bytes} : ∀ {pre before : List Bytes},
    ParamsFirst c before (pre ++ u :: post) → nalTypeOf u = 5 → (c.sps ++ c.pps) <:+: before ++ pre := by
  intro pre
  induction pre with
  | nil =>
    intro before h h5
    rw [List.append_nil]
    exact h.1 h5
  | cons v pre ih =>
    intro before h h5
    have hrest := ih h.2 h5
    rwa [List.append_assoc] at hrest

/-- A delimiter has type 9, the parameter sets 7 and 8. -/
theorem inserted_types {c : AvcConfig} (hc : ∀ u ∈ c.sps ++ c.pps, nalTypeOf u = 7 ∨ nalTypeOf u = 8)
    (e : Emitted) (u : Bytes) : ∀ v ∈ (inserted c e u).map Nalu.body, nalTypeOf v ≠ 5 := by
  intro v hv
  obtain ⟨w, hw, rfl⟩ := List.mem_map.mp hv
  rcases inserted_bodies c e u hw with rfl | hmem
  · decide
  · rcases hc w.body hmem with ht | ht <;> rw [ht] <;> decide

/-- In front of an IDR slice the parameter sets are inserted, unless they are there. -/
theorem inserted_params {c : AvcConfig} {e : Emitted} {u : Bytes} {before : List Bytes}
    (hbefore : e.params = true → (c.sps ++ c.pps) <:+: before) (h5 : nalTypeOf u = 5) :
    (c.sps ++ c.pps) <:+: before ++ (inserted c e u).map Nalu.body := by
  cases he : e.params with
  | true => exact (hbefore he).trans (List.prefix_append ..).isInfix
  | false =>
    have hins : (inserted c e u).map Nalu.body =
        ((if e.aud = false ∧ WantsAud u then [audUnit] else []).map Nalu.body) ++ (c.sps ++ c.pps) := by
      have hparams : (paramUnits c).map Nalu.body = c.sps ++ c.pps := by
        rw [paramUnits, List.map_map]
        exact List.map_id _
      have hif : (if nalTypeOf u = 5 ∧ e.params = false then paramUnits c else []) = paramUnits c :=
        if_pos ⟨h5, he⟩
      rw [inserted, hif, List.map_append, hparams]
    rw [hins, ← List.append_assoc]
    exact (List.suffix_append ..).isInfix

theorem translateFrom_paramsFirst {c : AvcConfig}
    (hc : ∀ u ∈ c.sps ++ c.pps, nalTypeOf u = 7 ∨ nalTypeOf u = 8) : ∀ (us : List Bytes) (e : Emitted)
    (before : List Bytes), (e.params = true → (c.sps ++ c.pps) <:+: before) →
    ParamsFirst c before ((translateFrom c e us).map Nalu.body) := by
  intro us
  induction us with
  | nil => exact fun _ _ _ => trivial
  | cons u us ih =>
    intro e before hbefore
    by_cases hu : Dropped u
    · rw [translateFrom_dropped c e us hu]
      exact ih e before hbefore
    · rw [translateFrom_kept c e us hu, emittedFor, List.map_append, List.map_append, List.append_assoc]
      refine paramsFirst_append (paramsFirst_others (inserted_types hc e u) before)
        ⟨inserted_params hbefore, ih (e.after u) _ fun hafter => ?_⟩
      -- the flag is set by an IDR slice only, or was set before and is kept
      have hold : (c.sps ++ c.pps) <:+: before ++ (inserted c e u).map Nalu.body := by
        by_cases h5 : nalTypeOf u = 5
        · exact inserted_params hbefore h5
        · refine (hbefore ?_).trans (List.prefix_append ..).isInfix
          unfold Emitted.after at hafter
          dsimp only at hafter
          rw [if_neg h5] at hafter
          split at hafter
          · cases hafter
          · exact hafter
      exact hold.trans (List.prefix_append ..).isInfix

/-- The images sent are the published pictures, one by one, and in each of them the
parameter sets of its picture stand before every IDR slice. -/
theorem sent_idr_decodable (R : NginxRtmp) (q : FloatFormat G) (fl : Floats F) (cfg : Config) (s₀ s : Session F)
    (past : History) (h₀ : (sessionSystem R q fl cfg).init s₀) (h : Ran R q fl cfg s₀ s past)
    (pictures : List Picture) (hpub : Publishes R past.video pictures) :
    ∀ (i : Nat) (work : Work), s.call.sentHigh[i]? = some work → ∃ p : Picture, pictures[i]? = some p ∧
      received (doSendHighVideo work) = p.shown ∧
      ∀ pre u post, (received (doSendHighVideo work)).1 = pre ++ u :: post → nalTypeOf u = 5 →
        (p.config.sps ++ p.config.pps) <:+: pre := by
  intro i work hi
  obtain ⟨hhigh, -, -⟩ := sent_is_published R q fl cfg s₀ s past h₀ h
  rw [publishes_samples hpub] at hhigh
  obtain ⟨more, hmore⟩ := hhigh
  have hat : (pictures.map Picture.sample)[i]? = some (sampleOf work) := by
    have hlt : i < (s.call.sentHigh.map sampleOf).length := by
      rw [List.length_map]
      exact (List.getElem?_eq_some_iff.mp hi).1
    rw [← hmore, List.getElem?_append_left hlt, List.getElem?_map, hi, Option.map_some]
  rw [List.getElem?_map] at hat
  obtain ⟨p, hp, he⟩ := Option.map_eq_some_iff.mp hat
  have hshown := received_sample he.symm
  refine ⟨p, hp, hshown, fun pre u post hsplit h5 => ?_⟩
  rw [hshown] at hsplit
  have hfirst := translateFrom_paramsFirst p.config_types p.units .none [] nofun
  rw [show (translateFrom p.config .none p.units).map Nalu.body = pre ++ u :: post from hsplit] at hfirst
  exact paramsFirst_at hfirst h5

/-! ## A short stream -/

/-- An end-of-sequence unit, an SPS of the sender and an IDR slice. -/
def slicePicture : Picture where
  config := Video.sampleConfig
  units := [[0x0a], [0x67, 0x55], [0x65, 0x88]]
  isKeyFrame := true
  timestamp := 40
  units_free := by decide
  config_free := by decide
  config_types := by decide
  kept := by decide
  last := by decide
  fits := by decide

def deltaPicture (timestamp : Nat) : Picture where
  config := Video.sampleConfig
  units := [[0x41, 0x9a]]
  isKeyFrame := false
  timestamp := timestamp
  units_free := by decide
  config_free := by decide
  config_types := by decide
  kept := by decide
  last := by decide
  fits := by decide

def headerMessage : VideoMessage := ⟨some sampleCodec, ⟨5, 0, by decide⟩, [[0x17, 0], [0, 0, 0]]⟩

def sliceMessage : VideoMessage :=
  ⟨some sampleCodec, ⟨25, 40, by decide⟩,
    [[0x17, 1], [0, 0, 0, 0], [0, 0, 1, 0x0a, 0, 0, 0, 2, 0x67], [0x55, 0, 0, 0, 2, 0x65, 0x88]]⟩

def deltaMessage (timestamp : Nat) : VideoMessage :=
  ⟨some sampleCodec, ⟨11, timestamp, by decide⟩, [[0x27, 1, 0, 0, 0, 0], [0, 0, 2, 0x41, 0x9a]]⟩

theorem sliceMessage_carries : Carries .released sliceMessage slicePicture :=
  ⟨sampleCodec, rfl, sampleCodec_nalBytes, sampleCodec_config, rfl, by decide, ⟨0x17, [0, 0, 0], rfl, by decide⟩,
    by decide, by decide, rfl⟩

theorem deltaMessage_carries (timestamp : Nat) : Carries .released (deltaMessage timestamp) (deltaPicture timestamp) :=
  ⟨sampleCodec, rfl, sampleCodec_nalBytes, sampleCodec_config, rfl, Nat.succ_pos _,
    ⟨0x27, [0, 0, 0], rfl, rfl⟩, show ∀ u ∈ [[0x41, 0x9a]], u.length < 256 ^ sampleCodec.avcNalBytes by decide, rfl,
    rfl⟩

def shortPictures : List Picture := [slicePicture, deltaPicture 80, deltaPicture 120]

def shortMessages : List VideoMessage := [headerMessage, sliceMessage, deltaMessage 80, deltaMessage 120]

theorem shortMessages_publish : Publishes .released shortMessages shortPictures :=
  .header ⟨0x17, [0, 0, 0], by decide⟩ (.picture sliceMessage_carries
    (.picture (deltaMessage_carries 80) (.picture (deltaMessage_carries 120) .nil)))

def VideoMessage.event (m : VideoMessage) : Event := .video m.codec m.header m.chain

/-- They arrive one after another. -/
def shortArrivals : List Event :=
  [headerMessage.event, sliceMessage.event, .party .fps, (deltaMessage 80).event, .party .fps,
    (deltaMessage 120).event, .party .fps]

/-- The High handler sends the first picture; then `agora_disconnect` clears the low queue,
and the handlers are through with the second. -/
def shortEvents : List Event := List.flatten
  [shortArrivals, List.replicate 8 (.party .high), List.replicate 40 (.party .tick),
    List.replicate 2 (.party .high), [.party .low], List.replicate 3 (.party (.disconnect true)),
    List.replicate 6 (.party .high), List.replicate 3 (.party .low)]

def shortRun : Option (Session Rat × History) :=
  ((sessionSystem .released exactFormat rationals idleConfig).watched (watch .released exactFormat) .none).exec
    (fun _ _ => True) (idleSession, .none) shortEvents

def shortEnd : Session Rat × History := shortRun.getD (idleSession, .none)

theorem shortEnd_ran : Ran .released exactFormat rationals idleConfig idleSession shortEnd.1 shortEnd.2 := by
  have hsome : shortRun.isSome = true := by decide +kernel
  obtain ⟨x, hx⟩ := Option.isSome_iff_exists.mp hsome
  have hend : shortEnd = x := by rw [shortEnd, hx, Option.getD_some]
  rw [hend]
  exact LTS.run_of_exec shortEvents hx

theorem shortEnd_publishes : Publishes .released shortEnd.2.video shortPictures := by
  have hvideo : shortEnd.2.video = shortMessages := by decide +kernel
  rw [hvideo]
  exact shortMessages_publish

theorem pictures_arrive_short :
    (shortEnd.1.call.sentHigh.map (·.timestamp) = [40, 80] ∧ shortEnd.1.call.lowProcessed.map (·.timestamp) = [80]) ∧
    shortEnd.1.call.sentHigh.map (fun work => received (doSendHighVideo work)) <+: shortPictures.map Picture.shown ∧
      (shortEnd.1.call.lowProcessed.map fun work => (AnnexB.split work.buffer, work.isKeyFrame)).Sublist
        (shortPictures.map fun p => (p.bodies, p.isKeyFrame)) ∧
      shortEnd.1.call.sentHigh.map (·.timestamp) <+: shortPictures.map fun p => (p.timestamp : Int) :=
  ⟨by decide +kernel, pictures_arrive .released exactFormat rationals idleConfig idleSession shortEnd.1 shortEnd.2
    idleSession_init shortEnd_ran shortPictures shortEnd_publishes⟩

theorem sent_idr_decodable_short : shortEnd.1.call.sentHigh.length = 2 ∧
    ∀ (i : Nat) (work : Work), shortEnd.1.call.sentHigh[i]? = some work → ∃ p : Picture, shortPictures[i]? = some p ∧
      received (doSendHighVideo work) = p.shown ∧
      ∀ pre u post, (received (doSendHighVideo work)).1 = pre ++ u :: post → nalTypeOf u = 5 →
        (p.config.sps ++ p.config.pps) <:+: pre :=
  ⟨by decide +kernel, sent_idr_decodable .released exactFormat rationals idleConfig idleSession shortEnd.1 shortEnd.2
    idleSession_init shortEnd_ran shortPictures shortEnd_publishes⟩

end Rtmpg.Stream
