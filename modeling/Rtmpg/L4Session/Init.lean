import Rtmpg.L4Session.Args

/-!
# Starting a session (`ngx_agora_init`)

`ngx_agora_helper.c:460-509,901-1109` and `libagorac/agorac.cpp:60-261`: the
URL arguments are read, `agora_init` connects to the channel and starts the
handlers, `agora_init_audio` opens the AAC decoder and the Opus encoder.

`Outcomes` says what every fallible call does; `setBitrate` is the answer of
Opus as a function of the bitrate it is asked for. `World` is what is left
running: whether the channel is connected, `isRunning` of the context and
the handlers started with it. Of the arguments only those that decide where
the start ends are modelled; the others are handed to the SDK. A value of
`enc` longer than one byte overruns its array (`Params`); here it is read whole.

* `ngxAgoraInit_clean`: a failed start leaves nothing running exactly when it
  failed before or in `connect`.
* `ngxAgoraInit_leak`: `abr=0` makes a start fail with the channel connected
  and its handlers running.
-/
namespace Rtmpg.Init

open Rtmpg.CStr Rtmpg.Args Rtmpg.Mem

inductive Handler where
  | high | low | audio
  deriving DecidableEq, Repr

/-- What `agora_init` has set going. -/
structure World where
  connected : Bool
  isRunning : Bool
  threads : List Handler
  deriving DecidableEq, Repr

def World.idle : World := ⟨false, false, []⟩

/-- No channel stays connected and no handler runs on. -/
def World.Clean (w : World) : Prop := w.connected = false ∧ (w.isRunning = true → w.threads = [])

instance (w : World) : Decidable w.Clean := inferInstanceAs (Decidable (_ ∧ _))

/-- The calls that can fail, in the order of the code; `true` is a non-`NULL`
pointer or success, a number the return value. -/
structure Outcomes where
  mallocCtx : Bool
  service : Bool
  connection : Bool
  enableEncryption : Int
  connect : Int
  factory : Bool
  audioSender : Bool
  audioTrack : Bool
  videoSender : Bool
  videoTrack : Bool
  decoderInit : Bool
  encoderInit : Bool
  findDecoder : Bool
  allocContext : Bool
  open2 : Int
  opusCreate : Int
  setBitrate : Int → Int

/-- The arguments that decide where the start ends. -/
structure Options where
  audioBitrate : Int
  enableEnc : Bool
  enableDual : Bool
  deriving DecidableEq, Repr

/-- `none`: `appid` or `channel` is missing.
mirrors ngx_agora_helper.c:949-1076 -/
def parseOptions (args : Bytes) : Option Options :=
  match getArgValue args ArgKey.appid.text, getArgValue args ArgKey.channel.text with
  | some _, some _ =>
    some {
      audioBitrate := match getArgValue args ArgKey.abr.text with
        | some v => atoi v
        | none => 50000
      enableEnc := match getArgValue args ArgKey.enc.text with
        | some v => atoi v ≠ 0
        | none => false
      enableDual := match getArgValue args ArgKey.dual.text with
        | some v => ascii "true" <+: v
        | none => false }
  | _, _ => none

/-- `dfps`, an `int` until `agora_init` takes it as an `unsigned short`.
mirrors ngx_agora_helper.c:1037-1047 and libagorac/agorac.cpp:65,256 -/
def dualFps (args : Bytes) : Nat :=
  ((match getArgValue args ArgKey.dfps.text with
    | some v => atoi v
    | none => 15) % 2 ^ 16).toNat

/-- Whether the result is a context, and what runs. The service and the connection
of a failed start are released by `delete ctx` up to `connect`, and by nothing
behind it.
mirrors libagorac/agorac.cpp:60-261 -/
def agoraInit (opts : Options) (o : Outcomes) : Bool × World :=
  if o.service = false then (false, .idle)
  else if o.connection = false then (false, .idle)
  else if opts.enableEnc = true ∧ o.enableEncryption < 0 then (false, .idle)
  else if o.connect ≠ 0 then (false, .idle)
  else
    let w : World := { World.idle with connected := true }
    if o.factory = false then (false, w)
    else if o.audioSender = false then (false, w)
    else if o.audioTrack = false then (false, w)
    else if o.videoSender = false then (false, w)
    else if o.videoTrack = false then (false, w)
    else
      let w := { w with isRunning := true, threads := [.high, .audio] }
      if opts.enableDual = true then
        if o.decoderInit = false ∨ o.encoderInit = false then (false, w)
        else (true, { w with threads := [.high, .audio, .low] })
      else (true, w)

/-- Opus is asked for `ctx->bitrate`, a `uint32_t`, as an `opus_int32`.
mirrors ngx_agora_helper.c:460-509 -/
def agoraInitAudio (bitrate : Int) (o : Outcomes) : Bool :=
  if o.findDecoder = false then false
  else if o.allocContext = false then false
  else if o.open2 < 0 then false
  else if o.opusCreate < 0 then false
  else if o.setBitrate (i32 (u32 bitrate)) < 0 then false
  else true

/-- Whether the result is a context, and what runs.
mirrors ngx_agora_helper.c:901-1109 -/
def ngxAgoraInit (args : Bytes) (o : Outcomes) : Bool × World :=
  match parseOptions args with
  | none => (false, .idle)
  | some opts =>
    if o.mallocCtx = false then (false, .idle)
    else
      let (agora, w) := agoraInit opts o
      if agora = false then (false, w)
      else if agoraInitAudio opts.audioBitrate o = false then (false, w)
      else (true, w)

/-! ## Up to `connect`, and behind it -/

/-- The start gets as far as a successful `connect`. -/
structure Connects (opts : Options) (o : Outcomes) : Prop where
  mallocCtx : o.mallocCtx = true
  service : o.service = true
  connection : o.connection = true
  encryption : opts.enableEnc = true → 0 ≤ o.enableEncryption
  connect : o.connect = 0

/-- All that `agora_init` does behind `connect` succeeds. -/
structure MediaReady (opts : Options) (o : Outcomes) : Prop where
  factory : o.factory = true
  audioSender : o.audioSender = true
  audioTrack : o.audioTrack = true
  videoSender : o.videoSender = true
  videoTrack : o.videoTrack = true
  dual : opts.enableDual = true → o.decoderInit = true ∧ o.encoderInit = true

structure AudioReady (opts : Options) (o : Outcomes) : Prop where
  findDecoder : o.findDecoder = true
  allocContext : o.allocContext = true
  open2 : 0 ≤ o.open2
  opusCreate : 0 ≤ o.opusCreate
  setBitrate : 0 ≤ o.setBitrate (i32 (u32 opts.audioBitrate))

theorem agoraInitAudio_ready (opts : Options) (o : Outcomes) :
    agoraInitAudio opts.audioBitrate o = true ↔ AudioReady opts o := by
  unfold agoraInitAudio
  constructor
  · intro h
    split at h
    · cases h
    split at h
    · cases h
    split at h
    · cases h
    split at h
    · cases h
    split at h
    · cases h
    · next h1 h2 h3 h4 h5 =>
      exact ⟨by simpa using h1, by simpa using h2, by omega, by omega, by omega⟩
  · rintro ⟨h1, h2, h3, h4, h5⟩
    simp only [h1, h2, Bool.true_eq_false, if_false, Int.not_lt.mpr h3, Int.not_lt.mpr h4, Int.not_lt.mpr h5]

theorem agoraInit_unconnected {opts : Options} {o : Outcomes} (hm : o.mallocCtx = true)
    (h : ¬ Connects opts o) : agoraInit opts o = (false, .idle) := by
  unfold agoraInit
  by_cases h1 : o.service = false
  · rw [if_pos h1]
  by_cases h2 : o.connection = false
  · rw [if_neg h1, if_pos h2]
  by_cases h3 : opts.enableEnc = true ∧ o.enableEncryption < 0
  · rw [if_neg h1, if_neg h2, if_pos h3]
  by_cases h4 : o.connect ≠ 0
  · rw [if_neg h1, if_neg h2, if_neg h3, if_pos h4]
  refine absurd ⟨hm, by simpa using h1, by simpa using h2, fun he => ?_, not_not.mp h4⟩ h
  by_contra hn
  exact h3 ⟨he, by omega⟩

/-- Behind `connect` the channel stays connected, whatever fails. -/
theorem agoraInit_connected {opts : Options} {o : Outcomes} (h : Connects opts o) :
    (agoraInit opts o).2.connected = true ∧ ((agoraInit opts o).1 = true ↔ MediaReady opts o) := by
  have henc : ¬ (opts.enableEnc = true ∧ o.enableEncryption < 0) := by
    rintro ⟨he, hlt⟩
    have := h.encryption he
    omega
  have hne : ∀ {b : Bool}, b = false → b ≠ true := fun hf ht => by rw [hf] at ht; cases ht
  generalize hr : agoraInit opts o = r
  unfold agoraInit at hr
  rw [if_neg (by rw [h.service]; exact Bool.noConfusion),
    if_neg (by rw [h.connection]; exact Bool.noConfusion), if_neg henc, if_neg (not_not.mpr h.connect)] at hr
  dsimp only at hr
  by_cases h1 : o.factory = false
  · rw [if_pos h1] at hr
    exact hr ▸ ⟨rfl, Bool.noConfusion, fun hm => absurd hm.factory (hne h1)⟩
  rw [if_neg h1] at hr
  by_cases h2 : o.audioSender = false
  · rw [if_pos h2] at hr
    exact hr ▸ ⟨rfl, Bool.noConfusion, fun hm => absurd hm.audioSender (hne h2)⟩
  rw [if_neg h2] at hr
  by_cases h3 : o.audioTrack = false
  · rw [if_pos h3] at hr
    exact hr ▸ ⟨rfl, Bool.noConfusion, fun hm => absurd hm.audioTrack (hne h3)⟩
  rw [if_neg h3] at hr
  by_cases h4 : o.videoSender = false
  · rw [if_pos h4] at hr
    exact hr ▸ ⟨rfl, Bool.noConfusion, fun hm => absurd hm.videoSender (hne h4)⟩
  rw [if_neg h4] at hr
  by_cases h5 : o.videoTrack = false
  · rw [if_pos h5] at hr
    exact hr ▸ ⟨rfl, Bool.noConfusion, fun hm => absurd hm.videoTrack (hne h5)⟩
  rw [if_neg h5] at hr
  have hready (hd : opts.enableDual = true → o.decoderInit = true ∧ o.encoderInit = true) :
      MediaReady opts o :=
    ⟨by simpa using h1, by simpa using h2, by simpa using h3, by simpa using h4, by simpa using h5, hd⟩
  split at hr
  · next hd =>
    split at hr
    · next hf =>
      subst hr
      refine ⟨rfl, Bool.noConfusion, fun hm => ?_⟩
      obtain ⟨hdec, henc'⟩ := hm.dual hd
      exact hf.elim (fun hf => absurd hdec (hne hf)) (fun hf => absurd henc' (hne hf))
    · next hf =>
      subst hr
      rw [not_or] at hf
      exact ⟨rfl, fun _ => hready fun _ => by simpa using hf, fun _ => rfl⟩
  · next hd =>
    subst hr
    exact ⟨rfl, fun _ => hready fun he => absurd he hd, fun _ => rfl⟩

/-- The failed starts that leave something running. -/
def FailsConnected (args : Bytes) (o : Outcomes) : Prop :=
  ∃ opts, parseOptions args = some opts ∧ Connects opts o ∧ ¬ (MediaReady opts o ∧ AudioReady opts o)

/-- A failed `ngx_agora_init` leaves nothing behind, exactly when it does not fail behind a
connection that was made. -/
theorem ngxAgoraInit_clean (args : Bytes) (o : Outcomes) :
    ((ngxAgoraInit args o).1 = false → (ngxAgoraInit args o).2.Clean) ↔ ¬ FailsConnected args o := by
  have hidle : World.idle.Clean := ⟨rfl, fun _ => rfl⟩
  cases hp : parseOptions args with
  | none =>
    have hn : ¬ FailsConnected args o := by
      rintro ⟨opts, he, -⟩
      rw [hp] at he
      cases he
    simp only [ngxAgoraInit, hp, hn, not_false_eq_true, iff_true]
    exact fun _ => hidle
  | some opts =>
    have hfc : FailsConnected args o ↔ Connects opts o ∧ ¬ (MediaReady opts o ∧ AudioReady opts o) := by
      unfold FailsConnected
      rw [hp]
      simp
    rw [hfc]
    by_cases hc : Connects opts o
    · obtain ⟨hconn, hok⟩ := agoraInit_connected hc
      have hdirty : ¬ (agoraInit opts o).2.Clean := fun hcl => by rw [hcl.1] at hconn; cases hconn
      have hres : ngxAgoraInit args o =
          ((agoraInit opts o).1 && agoraInitAudio opts.audioBitrate o, (agoraInit opts o).2) := by
        simp only [ngxAgoraInit, hp, hc.mallocCtx, Bool.true_eq_false, if_false]
        cases (agoraInit opts o).1 <;> cases agoraInitAudio opts.audioBitrate o <;> rfl
      rw [hres]
      simp only [hdirty, hc, true_and, not_not, imp_false, Bool.not_eq_false, Bool.and_eq_true, hok,
        agoraInitAudio_ready]
    · refine iff_of_true (fun _ => ?_) fun h => hc h.1
      cases hm : o.mallocCtx with
      | false =>
        simp only [ngxAgoraInit, hp, hm, if_true]
        exact hidle
      | true =>
        simp only [ngxAgoraInit, hp, hm, agoraInit_unconnected hm hc, Bool.true_eq_false, if_false, if_true]
        exact hidle

/-- Opus rejects a bitrate that is not positive, `OPUS_AUTO` and
`OPUS_BITRATE_MAX` apart. -/
def opusSetBitrate (bitrate : Int) : Int :=
  if bitrate ≤ 0 ∧ bitrate ≠ -1000 ∧ bitrate ≠ -1 then -1 else 0

/-- Everything succeeds that can. -/
def allGood : Outcomes where
  mallocCtx := true
  service := true
  connection := true
  enableEncryption := 0
  connect := 0
  factory := true
  audioSender := true
  audioTrack := true
  videoSender := true
  videoTrack := true
  decoderInit := true
  encoderInit := true
  findDecoder := true
  allocContext := true
  open2 := 0
  opusCreate := 0
  setBitrate := opusSetBitrate

theorem ngxAgoraInit_leak :
    ngxAgoraInit (ascii "appid=a&channel=c&abr=0") allGood = (false, ⟨true, true, [.high, .audio]⟩) ∧
      ¬ (ngxAgoraInit (ascii "appid=a&channel=c&abr=0") allGood).2.Clean := by
  decide

end Rtmpg.Init
