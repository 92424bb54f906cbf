import Rtmpg.L5Call.LowVideo
import Rtmpg.L6Stream.Video

/-!
# The low stream is a rendition of the high one

The low stream from end to end: the Low handler (`libagorac/agorac.cpp:506-528`)
runs `doSendLowVideo` (`:263-304`) on the frames the High handler forwards. The
decoder, the scaler and x264 are `Codecs`, two machines and what they answer;
`render` makes the step of the Low handler with them.

`transcode` says what the low stream is meant to be: the decoder is fed every
picture, the encoder only those chosen. A picture that is not chosen is still
decoded, as the ones behind it may refer to it.

* `render_step`: a step of a call.
* `low_is_transcoded`: in every run what is sent to the low stream is the
  transcoding of a prefix of the published pictures, and no key picture of it
  is left out.
-/
namespace Rtmpg.Stream

open Rtmpg.Bytes Rtmpg.Opus Rtmpg.Agorac Rtmpg.Packets Rtmpg.LowVideo

variable {F G D P X : Type} {R : NginxRtmp} {q : FloatFormat G} {fl : Floats F} {cfg : Config}

/-! ## The libraries -/

/-- FFmpeg and x264: what the decoder makes of a packet, and what scaling and encoding make of
a picture and the request for a key frame. `fresh` is the content of a new array. -/
structure Codecs (D P X : Type) where
  decode : D → Bytes → D × Option P
  size : P → Frame
  encode : X → P → Bool → X × X264Result
  fresh : Bytes
  fresh_length : fresh.length = maxFrameSize

variable {k : Codecs D P X}

/-- x264 answers every picture, within `MAX_FRAME_SIZE`; with `zerolatency` it delays none. -/
def Codecs.Encodes (k : Codecs D P X) : Prop :=
  ∀ x p key, 0 ≤ (k.encode x p key).2.ret ∧ (k.encode x p key).2.bytes.length ≤ maxFrameSize

/-- Of each packet a picture comes out. -/
def Codecs.Decodes (k : Codecs D P X) : D → List Bytes → Prop
  | _, [] => True
  | d, b :: bs => (k.decode d b).2.isSome ∧ k.Decodes (k.decode d b).1 bs

theorem decodes_concat : ∀ {d : D} {bs : List Bytes} {b : Bytes}, k.Decodes d (bs ++ [b]) →
    k.Decodes d bs ∧ (k.decode (bs.foldl (fun d b => (k.decode d b).1) d) b).2.isSome
  | _, [], _, h => ⟨trivial, h.1⟩
  | _, _ :: _, _, h => by
    obtain ⟨hbs, hb⟩ := decodes_concat h.2
    exact ⟨⟨h.1, hbs⟩, hb⟩

theorem Codecs.Decodes.mono {d : D} {bs cs : List Bytes} (h : k.Decodes d cs) (hp : bs <+: cs) : k.Decodes d bs := by
  obtain ⟨rest, rfl⟩ := hp
  induction rest using List.reverseRecOn with
  | nil => rwa [List.append_nil] at h
  | append_singleton rest b ih =>
    rw [← List.append_assoc] at h
    exact ih (decodes_concat h).1

/-! ## The transcoding -/

/-- A picture, and whether the low stream gets it. -/
structure Shot where
  sample : Sample
  chosen : Bool
  deriving DecidableEq, Repr

structure Transcoding (D X : Type) where
  decoder : D
  x264 : X
  images : List VideoImage

def Codecs.shoot (k : Codecs D P X) (dfps : Nat) (t : Transcoding D X) (shot : Shot) : Transcoding D X :=
  let next := (k.decode t.decoder shot.sample.buffer).1
  match (k.decode t.decoder shot.sample.buffer).2, shot.chosen with
  | some p, true =>
    let (x, result) := k.encode t.x264 p shot.sample.isKeyFrame
    ⟨next, x, t.images ++ [⟨result.bytes, dfps, frameTypeOf shot.sample.isKeyFrame, .low⟩]⟩
  | _, _ => { t with decoder := next }

def Codecs.transcode (k : Codecs D P X) (dfps : Nat) (d : D) (x : X) (shots : List Shot) : Transcoding D X :=
  shots.foldl (k.shoot dfps) ⟨d, x, []⟩

theorem transcode_concat (dfps : Nat) (d : D) (x : X) (shots : List Shot) (shot : Shot) :
    k.transcode dfps d x (shots ++ [shot]) = k.shoot dfps (k.transcode dfps d x shots) shot :=
  List.foldl_concat ..

/-- It is fed every picture. -/
theorem transcode_decoder (dfps : Nat) (d : D) (x : X) (shots : List Shot) :
    (k.transcode dfps d x shots).decoder =
      (shots.map (·.sample.buffer)).foldl (fun d b => (k.decode d b).1) d := by
  induction shots using List.reverseRecOn with
  | nil => rfl
  | append_singleton shots shot ih =>
    rw [transcode_concat, List.map_append, List.map_singleton, List.foldl_concat, ← ih]
    unfold Codecs.shoot
    cases (k.decode (k.transcode dfps d x shots).decoder shot.sample.buffer).2 <;> cases shot.chosen <;> rfl

/-! ## The Low handler with them -/

/-- What `ctx->videoDecoder` and `ctx->videoEncoder` hold, and what was sent. -/
structure Rendition (D X : Type) where
  decoder : D
  x264 : X
  avOutFrame : Frame
  encoder : Encoder
  sent : List LowImage

def decodeOutcome (k : Codecs D P X) (picture : Option P) : DecodeOutcome :=
  match picture with
  | some p => .frame (k.size p)
  | none => .receiveFails

/-- The empty frame of a failed `avcodec_receive_frame` can be neither scaled nor encoded. -/
def encodeOutcome (k : Codecs D P X) (x : X) (key : Bool) (picture : Option P) : EncodeOutcome :=
  match picture with
  | some p => ⟨true, true, 0, 1, (k.encode x p key).2, []⟩
  | none => ⟨false, true, 0, -1, ⟨0, []⟩, []⟩

def Rendition.input (k : Codecs D P X) (r : Rendition D X) (work : Work) : LowInput where
  work := work
  decode := decodeOutcome k (k.decode r.decoder work.buffer).2
  encode := encodeOutcome k r.x264 work.isKeyFrame (k.decode r.decoder work.buffer).2
  outBuffer := k.fresh
  outBuffer_length := k.fresh_length

/-- x264 goes on when it is called. -/
def Rendition.nextX264 (k : Codecs D P X) (r : Rendition D X) (work : Work) (wanted : Bool) : X :=
  match (k.decode r.decoder work.buffer).2 with
  | some p => if wanted then (k.encode r.x264 p work.isKeyFrame).1 else r.x264
  | none => r.x264

/-- `doSendLowVideo` on the frame the Low handler has taken. -/
def renderWork (k : Codecs D P X) (fl : Floats F) (cfg : Config) (c : Call F) (work : Work) (r : Rendition D X) :
    Rendition D X :=
  match doSendLowVideo fl cfg.dfps (lowOf c r.avOutFrame r.encoder r.sent 0) (r.input k work) with
  | some low =>
    { decoder := (k.decode r.decoder work.buffer).1
      x264 := r.nextX264 k work (lowWanted fl cfg c work)
      avOutFrame := low.avOutFrame
      encoder := low.encoder
      sent := low.sent }
  | none => r

def render (k : Codecs D P X) (fl : Floats F) (cfg : Config) (c : Call F) (l : Label) (r : Rendition D X) :
    Rendition D X :=
  match l, c.low with
  | .low, .send work => if c.freed then r else renderWork k fl cfg c work r
  | _, _ => r

/-- An image of the low stream as `sendEncodedVideoImage` gets it.
mirrors libagorac/agorac.cpp:265-268,291-299 -/
def doSendLow (cfg : Config) (x : LowImage) : VideoImage := ⟨x.image, cfg.dfps, frameTypeOf x.work.isKeyFrame, .low⟩

/-! ## A step -/

/-- The low stream so far is the transcoding of these. -/
structure Rendered (k : Codecs D P X) (cfg : Config) (d : D) (x : X) (c : Call F) (r : Rendition D X)
    (shots : List Shot) : Prop where
  samples : shots.map Shot.sample = c.lowProcessed.map sampleOf
  keys : ∀ shot ∈ shots, shot.sample.isKeyFrame = true → shot.chosen = true
  codec : r.encoder.codec = true
  decoder : r.decoder = (k.transcode cfg.dfps d x shots).decoder
  x264 : r.x264 = (k.transcode cfg.dfps d x shots).x264
  images : r.sent.map (doSendLow cfg) = (k.transcode cfg.dfps d x shots).images

/-- `doSendLowVideo` on a frame of which a picture comes out. -/
theorem doSendLowVideo_picture (fl : Floats F) (cfg : Config) (c : Call F) (hk : k.Encodes) {r : Rendition D X}
    (hcodec : r.encoder.codec = true) {work : Work} {p : P} (hp : (k.decode r.decoder work.buffer).2 = some p) :
    ∃ (low : Low F), doSendLowVideo fl cfg.dfps (lowOf c r.avOutFrame r.encoder r.sent 0) (r.input k work) = some low ∧
      low.avOutFrame = k.size p ∧ low.encoder.codec = true ∧
      low.sent = if lowWanted fl cfg c work then
        r.sent ++ [⟨work, true, true, (k.encode r.x264 p work.isKeyFrame).2.ret,
          (k.encode r.x264 p work.isKeyFrame).2.bytes⟩] else r.sent := by
  obtain ⟨hret, hlen⟩ := hk r.x264 p work.isKeyFrame
  have hdec : (r.input k work).decode = .frame (k.size p) := by
    rw [Rendition.input, hp]
    rfl
  have henc : (r.input k work).encode = ⟨true, true, 0, 1, (k.encode r.x264 p work.isKeyFrame).2, []⟩ := by
    rw [Rendition.input, hp]
    rfl
  have hwanted : wanted fl cfg.dfps { lowOf c r.avOutFrame r.encoder r.sent 0 with avOutFrame := k.size p }
    (r.input k work).work.isKeyFrame = lowWanted fl cfg c work := rfl
  unfold doSendLowVideo
  rw [hdec, henc]
  dsimp only [decode]
  rw [hwanted]
  cases lowWanted fl cfg c work with
  | false => exact ⟨_, rfl, rfl, hcodec, rfl⟩
  | true =>
    obtain ⟨out, hout, htake⟩ := encode_last r.encoder (k.size p) k.fresh 0
      ⟨true, true, 0, 1, (k.encode r.x264 p work.isKeyFrame).2, []⟩ hcodec rfl hret (fun result hr => by
        rw [List.mem_singleton.mp hr, k.fresh_length]
        exact hlen)
    have hbuffer : (r.input k work).outBuffer = k.fresh := rfl
    rw [if_pos rfl, hbuffer]
    refine ⟨_, congrArg (Option.map _) hout, rfl, (forFrame_codec ..).trans hcodec, ?_⟩
    dsimp only
    rw [htake]
    rfl

theorem renderWork_picture (fl : Floats F) (cfg : Config) (c : Call F) (hk : k.Encodes) {r : Rendition D X}
    (hcodec : r.encoder.codec = true) {work : Work} {p : P} (hp : (k.decode r.decoder work.buffer).2 = some p) :
    (renderWork k fl cfg c work r).encoder.codec = true ∧
      (renderWork k fl cfg c work r).decoder = (k.decode r.decoder work.buffer).1 ∧
      (renderWork k fl cfg c work r).x264 =
        (if lowWanted fl cfg c work then (k.encode r.x264 p work.isKeyFrame).1 else r.x264) ∧
      (renderWork k fl cfg c work r).sent.map (doSendLow cfg) =
        if lowWanted fl cfg c work then r.sent.map (doSendLow cfg) ++
          [⟨(k.encode r.x264 p work.isKeyFrame).2.bytes, cfg.dfps, frameTypeOf work.isKeyFrame, .low⟩]
        else r.sent.map (doSendLow cfg) := by
  obtain ⟨low, hlow, hframe, hlowCodec, hsent⟩ := doSendLowVideo_picture fl cfg c hk hcodec hp
  rw [renderWork, hlow]
  refine ⟨hlowCodec, rfl, ?_, ?_⟩
  · dsimp only [Rendition.nextX264]
    rw [hp]
  · dsimp only
    rw [hsent]
    split
    · rw [List.map_append]
      rfl
    · rfl

/-- The next frame is a shot, chosen if it is wanted. -/
theorem Rendered.work (hk : k.Encodes) {d : D} {x : X} {c c' : Call F} {r : Rendition D X} {shots : List Shot}
    (h : Rendered k cfg d x c r shots) {work : Work} (hprocessed : c'.lowProcessed = c.lowProcessed ++ [work])
    (hdec : k.Decodes d (c'.lowProcessed.map (·.buffer))) :
    Rendered k cfg d x c' (renderWork k fl cfg c work r)
      (shots ++ [⟨sampleOf work, lowWanted fl cfg c work⟩]) := by
  have hfed : r.decoder = (c.lowProcessed.map (·.buffer)).foldl (fun d b => (k.decode d b).1) d := by
    rw [h.decoder, transcode_decoder]
    have hbuffers := congrArg (List.map Sample.buffer) h.samples
    rw [List.map_map, List.map_map] at hbuffers
    exact congrArg (List.foldl _ d) hbuffers
  rw [hprocessed, List.map_append, List.map_singleton] at hdec
  have hsome := (decodes_concat hdec).2
  rw [← hfed] at hsome
  obtain ⟨p, hp⟩ := Option.isSome_iff_exists.mp hsome
  obtain ⟨hcodec, hdecoder, hx264, himages⟩ := renderWork_picture fl cfg c hk h.codec hp
  have hp' : (k.decode (k.transcode cfg.dfps d x shots).decoder work.buffer).2 = some p := by rw [← h.decoder, hp]
  refine ⟨?_, fun shot hs hkey => ?_, hcodec, ?_, ?_, ?_⟩
  · rw [hprocessed, List.map_append, List.map_append, h.samples]
    rfl
  · rcases List.mem_append.mp hs with hs | hs
    · exact h.keys shot hs hkey
    · rw [List.mem_singleton.mp hs] at hkey ⊢
      exact Bool.or_eq_true_iff.mpr (.inr hkey)
  all_goals
    rw [transcode_concat]
    simp only [Codecs.shoot, sampleOf, hp']
  · rw [hdecoder, h.decoder]
    split <;> rfl
  · rw [hx264, h.x264]
    cases lowWanted fl cfg c work <;> rfl
  · rw [himages, h.images, h.x264]
    cases lowWanted fl cfg c work <;> rfl

theorem Rendered.same {d : D} {x : X} {c c' : Call F} {r : Rendition D X} {shots : List Shot}
    (h : Rendered k cfg d x c r shots) (hp : c'.lowProcessed = c.lowProcessed) : Rendered k cfg d x c' r shots :=
  { h with samples := h.samples.trans (by rw [hp]) }

theorem render_freed {c : Call F} {l : Label} {r : Rendition D X} (hf : c.freed = true) :
    render k fl cfg c l r = r := by
  unfold render
  split
  · rw [if_pos hf]
  · rfl

theorem render_other {c : Call F} {l : Label} {r : Rendition D X} (h : ∀ work, l = .low → c.low ≠ .send work) :
    render k fl cfg c l r = r := by
  unfold render
  split
  · next work hpc => exact absurd hpc (h work rfl)
  · rfl

/-- A step of a call either leaves the low stream alone or is one of `doSendLowVideo`. -/
theorem render_cases {c c' : Call F} {l : Label} (r : Rendition D X) (h : (system fl cfg).step c l = some c') :
    (c'.lowProcessed = c.lowProcessed ∧ render k fl cfg c l r = r) ∨
      ∃ work, c'.lowProcessed = c.lowProcessed ++ [work] ∧ render k fl cfg c l r = renderWork k fl cfg c work r := by
  cases stepped h with
  | deleted hf h => exact .inl ⟨by rw [touchFreed_eq h], render_freed hf⟩
  | tick => exact .inl ⟨rfl, rfl⟩
  | video => exact .inl ⟨rfl, rfl⟩
  | fps timestamp => exact .inl ⟨by rw [finishVideo_eq], rfl⟩
  | audio => exact .inl ⟨rfl, rfl⟩
  | high _ h => exact .inl ⟨by rw [highStep_eq h], rfl⟩
  | low hf h =>
    cases lowStepped h with
    | send work hpc => exact .inr ⟨work, rfl, by simp [render, hpc, hf]⟩
    | test hpc => exact .inl ⟨rfl, render_other fun _ _ hs => by rw [hpc] at hs; cases hs⟩
    | wait hpc => exact .inl ⟨rfl, render_other fun _ _ hs => by rw [hpc] at hs; cases hs⟩
    | null hpc => exact .inl ⟨rfl, render_other fun _ _ hs => by rw [hpc] at hs; cases hs⟩
    | take _ _ hpc => exact .inl ⟨rfl, render_other fun _ _ hs => by rw [hpc] at hs; cases hs⟩
  | listen _ h => exact .inl ⟨by rw [audioStep_eq h], rfl⟩
  | disconnect _ _ h => exact .inl ⟨by rw [discStep_eq h], rfl⟩

theorem render_step (hk : k.Encodes) {d : D} {x : X} {c c' : Call F} {l : Label} {r : Rendition D X}
    (h : k.Decodes d (c.lowProcessed.map (·.buffer)) → ∃ shots, Rendered k cfg d x c r shots)
    (hstep : (system fl cfg).step c l = some c') (hdec : k.Decodes d (c'.lowProcessed.map (·.buffer))) :
    ∃ shots, Rendered k cfg d x c' (render k fl cfg c l r) shots := by
  rcases render_cases (k := k) r hstep with ⟨hsame, hr⟩ | ⟨work, hmore, hr⟩
  · obtain ⟨shots, hs⟩ := h (hsame ▸ hdec)
    exact ⟨shots, by rw [hr]; exact hs.same hsame⟩
  · have hbefore := hdec
    rw [hmore, List.map_append, List.map_singleton] at hbefore
    obtain ⟨shots, hs⟩ := h (decodes_concat hbefore).1
    exact ⟨_, hr ▸ hs.work hk hmore hdec⟩

/-! ## Every run -/

def renderEvent (k : Codecs D P X) (fl : Floats F) (cfg : Config) (s : Session F) (e : Event) (r : Rendition D X) :
    Rendition D X :=
  match e with
  | .party l => render k fl cfg s.call l r
  | _ => r

/-- Every order of steps, with the low stream. -/
def Shown (R : NginxRtmp) (q : FloatFormat G) (fl : Floats F) (cfg : Config) (k : Codecs D P X)
    (s₀ s : Session F) (past : History) (r₀ r : Rendition D X) : Prop :=
  ((sessionSystem R q fl cfg).watched
    (fun s e p => (watch R q s e p.1, renderEvent k fl cfg s e p.2)) (.none, r₀)).Run
      (fun _ _ => True) (s₀, (.none, r₀)) (s, (past, r))

theorem Shown.ran {s₀ s : Session F} {past : History} {r₀ r : Rendition D X}
    (h : Shown R q fl cfg k s₀ s past r₀ r) : Ran R q fl cfg s₀ s past :=
  LTS.Run.forget Prod.fst (fun _ _ _ => trivial) (fun _ _ _ => rfl) h

theorem shown_rendered (hk : k.Encodes) {s₀ s : Session F} (h₀ : (sessionSystem R q fl cfg).init s₀)
    {past : History} {r₀ r : Rendition D X} (hcodec : r₀.encoder.codec = true) (hnew : r₀.sent = [])
    (h : Shown R q fl cfg k s₀ s past r₀ r) (hdec : k.Decodes r₀.decoder (s.call.lowProcessed.map (·.buffer))) :
    ∃ shots, Rendered k cfg r₀.decoder r₀.x264 s.call r shots := by
  have hstart : Rendered k cfg r₀.decoder r₀.x264 s₀.call r₀ [] :=
    ⟨by rw [h₀.1]; rfl, fun _ hs => absurd hs List.not_mem_nil, hcodec, rfl, rfl, by rw [hnew]; rfl⟩
  refine h.invariant (I := fun p : Session F × History × Rendition D X =>
    k.Decodes r₀.decoder (p.1.call.lowProcessed.map (·.buffer)) →
      ∃ shots, Rendered k cfg r₀.decoder r₀.x264 p.1.call p.2.2 shots)
    (fun p e p' _ hp hst hd => ?_) (fun _ => ⟨[], hstart⟩) hdec
  obtain ⟨u, hu, rfl⟩ := Option.map_eq_some_iff.mp hst
  -- a message leaves the low stream alone
  have hsame (hl : u.call.lowProcessed = p.1.call.lowProcessed) (hr : renderEvent k fl cfg p.1 e p.2.2 = p.2.2) :
      ∃ shots, Rendered k cfg r₀.decoder r₀.x264 u.call (renderEvent k fl cfg p.1 e p.2.2) shots := by
    obtain ⟨shots, hs⟩ := hp (hl ▸ hd)
    exact ⟨shots, by rw [hr]; exact hs.same hl⟩
  cases sessionStepped hu with
  | ignored => exact hsame rfl rfl
  | video _ _ _ _ v _ _ hsend =>
    obtain ⟨buffer, -, -, rfl⟩ := sendVideo_call hsend
    exact hsame rfl rfl
  | audio => exact hsame rfl rfl
  | send v rest u _ hsend =>
    obtain ⟨buffer, -, -, rfl⟩ := sendAudio_call hsend
    exact hsame rfl rfl
  | party l call _ hcall => exact render_step hk hp hcall hd

/-- Before the disconnect the low stream is the transcoding of the first pictures, some of them
left out and no key picture among those. -/
theorem low_is_transcoded (R : NginxRtmp) (q : FloatFormat G) (fl : Floats F) (cfg : Config) (k : Codecs D P X)
    (s₀ s : Session F) (past : History) (r₀ r : Rendition D X) (h₀ : (sessionSystem R q fl cfg).init s₀)
    (hcodec : r₀.encoder.codec = true) (hnew : r₀.sent = []) (h : Shown R q fl cfg k s₀ s past r₀ r)
    (pictures : List Picture) (hpub : Publishes R past.video pictures) (hidle : s.call.disc = .idle)
    (hk : k.Encodes) (hdec : k.Decodes r₀.decoder (pictures.map (·.sample.buffer))) :
    ∃ shots : List Shot, shots.map Shot.sample <+: pictures.map Picture.sample ∧
      shots.map Shot.sample = s.call.lowProcessed.map sampleOf ∧
      (∀ shot ∈ shots, shot.sample.isKeyFrame = true → shot.chosen = true) ∧
      r.sent.map (doSendLow cfg) = (k.transcode cfg.dfps r₀.decoder r₀.x264 shots).images := by
  have ha := ran_accepts h₀ h.ran
  have hr := (ran_relayed h₀ h.ran).handover
  have htook : s.call.tookHigh <+: s.call.acceptedVideo := by
    have ht : s.call.tookHigh = s.call.sentHigh ++ s.call.high.hand := hr.took
    exact ⟨media s.call.videoJB, by rw [ht]; exact hr.video.symm⟩
  have hlow : s.call.lowProcessed <+: s.call.tookHigh := by
    cases hd : cfg.enableDual with
    | true => exact (hr.lowKept hd (by simp only [relay, hidle]; rfl)).prefix_accepted
    | false =>
      have hnil : s.call.lowProcessed = [] := (hr.lowOff hd).1
      rw [hnil]
      exact List.nil_prefix
  have hprefix : s.call.lowProcessed.map sampleOf <+: pictures.map Picture.sample := by
    rw [← publishes_samples hpub, ← ha.video]
    exact (hlow.trans htook).map sampleOf
  have hbuffers := hprefix.map Sample.buffer
  rw [List.map_map, List.map_map] at hbuffers
  obtain ⟨shots, hs⟩ := shown_rendered hk h₀ hcodec hnew h (hdec.mono hbuffers)
  exact ⟨shots, hs.samples ▸ hprefix, hs.samples, hs.keys, hs.images⟩

/-! ## Three pictures -/

/-- A decoder of whole packets, and an encoder that numbers its pictures. -/
def countingCodecs : Codecs Unit Bytes Nat where
  decode _ packet := ((), some packet)
  size _ := ⟨640, 360⟩
  encode n _ _ := (n + 1, ⟨2, [[0x65, UInt8.ofNat n]]⟩)
  fresh := List.replicate maxFrameSize 0xff
  fresh_length := List.length_replicate

theorem countingCodecs_encodes : countingCodecs.Encodes := by
  intro n packet key
  show (0 : Int) ≤ 2 ∧ 2 ≤ maxFrameSize
  decide

def countingStart : Rendition Unit Nat := ⟨(), 0, ⟨0, 0⟩, openEncoder, []⟩

/-- The High handler with one picture, and the time until the next. -/
def oneImage : List Event := List.replicate 8 (.party .high) ++ List.replicate 40 (.party .tick)

/-- The High handler sends the three pictures, then the Low handler has them. -/
def lowEvents : List Event :=
  List.flatten [shortArrivals, oneImage, oneImage, oneImage, List.replicate 12 (.party .low)]

def lowRun : Option (Session Rat × History) :=
  ((sessionSystem .released exactFormat rationals idleConfig).watched (watch .released exactFormat) .none).exec
    (fun _ _ => True) (idleSession, .none) lowEvents

def lowEnd : Session Rat × History := lowRun.getD (idleSession, .none)

theorem lowEnd_shown : ∃ r, Shown .released exactFormat rationals idleConfig countingCodecs idleSession lowEnd.1
    lowEnd.2 countingStart r := by
  have hsome : lowRun.isSome = true := by decide +kernel
  obtain ⟨x, hx⟩ := Option.isSome_iff_exists.mp hsome
  have hend : lowEnd = x := by rw [lowEnd, hx, Option.getD_some]
  rw [hend]
  exact (LTS.run_of_exec lowEvents hx).beside _ countingStart fun _ _ _ _ => trivial

theorem lowEnd_publishes : Publishes .released lowEnd.2.video shortPictures := by
  have hvideo : lowEnd.2.video = shortMessages := by decide +kernel
  rw [hvideo]
  exact shortMessages_publish

/-- The third picture is not sent. -/
theorem low_is_transcoded_counting : ∃ (r : Rendition Unit Nat) (shots : List Shot),
    (lowEnd.1.call.lowProcessed.length = 3 ∧ lowEnd.1.call.lowVideoFrameCount = 2) ∧
      shots.map Shot.sample <+: shortPictures.map Picture.sample ∧
      shots.map Shot.sample = lowEnd.1.call.lowProcessed.map sampleOf ∧
      (∀ shot ∈ shots, shot.sample.isKeyFrame = true → shot.chosen = true) ∧
      r.sent.map (doSendLow idleConfig) = (countingCodecs.transcode 15 () 0 shots).images := by
  obtain ⟨r, hshown⟩ := lowEnd_shown
  obtain ⟨shots, hshots⟩ := low_is_transcoded .released exactFormat rationals idleConfig countingCodecs idleSession
    lowEnd.1 lowEnd.2 countingStart r idleSession_init rfl rfl hshown shortPictures lowEnd_publishes
    (by decide +kernel) countingCodecs_encodes ⟨rfl, rfl, rfl, trivial⟩
  exact ⟨r, shots, by decide +kernel, hshots⟩

end Rtmpg.Stream
