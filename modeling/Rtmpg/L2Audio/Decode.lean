import Mathlib.Algebra.Order.BigOperators.Group.List
import Rtmpg.L2Audio.Opus

/-!
# From the AAC decoder to Opus (`decode_acc_audio`)

`ngx_agora_helper.c:432-458,594-661`: the floats of a decoded frame become
16-bit samples in an array on the stack, `encode_opus` takes its block from
that array, and what Opus returns goes to `agora_send_audio`.

`FloatFormat` is the `float` arithmetic of the conversion. `DecodeEnv` is what
one call meets: the results of the codec calls (`frame` is `none` if
`avcodec_send_packet` or `avcodec_receive_frame` fails) and the content of its
arrays, none of which is initialised. `opus_encode` returns a length up to
1000 or a negative error code. A call of `agora_send_audio` is represented by
its arguments. The dump to a file, `calcVol` and `getMax`, which only logging
reads, are left out.

The length of a decoded frame, of the block `encode_opus` takes and of an
Opus packet are three different numbers:

* `decodeAccAudio_carry`: one call hands on 1024 samples a channel, the
  samples of the frame in front and whatever the array held behind them.
* `runDecode_exact`: over any number of calls the Opus packets and the carry
  are the decoded samples, whatever the arrays held, exactly when every frame
  has 1024 samples.
-/
namespace Rtmpg.Opus

open Rtmpg.Mem

structure FloatFormat (F : Type) where
  ofBytes : Bytes → F
  geOne : F → Bool
  leNegOne : F → Bool
  -- `x * 32768 - 1`, converted to `int16_t`
  scaled : F → Int

/-- Decoded audio: the samples in `data[0]` are `float`s. -/
structure DecodedFrame where
  nbSamples : Nat
  data : Bytes
  deriving DecidableEq, Repr

/-- The return value of `opus_encode` and the array it was given. -/
structure OpusResult where
  ret : Int
  out : Bytes
  out_length : out.length = 1000
  ret_le : ret ≤ 1000
  ret_ge : -2 ^ 31 ≤ ret

structure DecodeEnv where
  frame : Option DecodedFrame
  opus : OpusResult
  flushOpus : OpusResult
  buffer : Bytes
  temp : Bytes
  flushTemp : Bytes
  buffer_length : buffer.length = maxChannelCount * inputSampleCount * sampleSize
  temp_length : temp.length = tempSize
  flushTemp_length : flushTemp.length = tempSize

/-- The arguments of one call of `agora_send_audio`; `len` is a `ngx_int_t`. -/
structure SendAudio where
  buffer : Bytes
  len : Int
  timestamp : Nat
  deriving DecidableEq, Repr

variable {F : Type}

/-! ## The conversion -/

def FloatFormat.sample (q : FloatFormat F) (x : F) : Int :=
  if q.geOne x then 32767 else if q.leNegOne x then -32768 else q.scaled x

/-- An `int16_t` in memory. -/
def int16Bytes (v : Int) : Bytes :=
  [UInt8.ofNat (v % 65536).toNat, UInt8.ofNat ((v % 65536).toNat / 256)]

/-- The loop up to `count`.
mirrors ngx_agora_helper.c:432-458 -/
def convertAudioSampleF32S16 (q : FloatFormat F) (inp : Bytes) : Nat → Bytes → Option Bytes
  | 0, out => some out
  | i + 1, out =>
    (convertAudioSampleF32S16 q inp i out).bind fun out =>
    (copy (List.replicate 4 0) 0 inp (4 * i) 4).bind fun float =>
    copy out (2 * i) (int16Bytes (q.sample (q.ofBytes float))) 0 2

/-- mirrors ngx_agora_helper.c:594-661 -/
def decodeAccAudio (q : FloatFormat F) (a : AgoraAudioContext) (env : DecodeEnv) (timestamp : Nat) :
    Option (AgoraAudioContext × List Bytes × List SendAudio) :=
  match env.frame with
  | none => some (a, [], [])
  | some f =>
    let decodedSamples := f.nbSamples % 2 ^ 16
    let count := (decodedSamples * a.channelCount) % 2 ^ 16
    (convertAudioSampleF32S16 q f.data count env.buffer).bind fun buffer =>
    (encodeOpus a buffer env.temp).bind fun (a, packet) =>
    (flushEncodeOpus a env.flushTemp).map fun (a, flushed) =>
      let encodedBytes := if flushed.isSome then env.flushOpus.ret else 0
      (a, packet :: flushed.toList,
        ⟨env.opus.out, env.opus.ret, timestamp⟩ ::
          if 0 < encodedBytes then [⟨env.flushOpus.out, encodedBytes, timestamp⟩] else [])

/-- The first `count` samples, converted. -/
def convertedSamples (q : FloatFormat F) (inp : Bytes) (count : Nat) : Bytes :=
  (List.range count).flatMap fun i => int16Bytes (q.sample (q.ofBytes ((inp.drop (4 * i)).take 4)))

theorem convertedSamples_length (q : FloatFormat F) (inp : Bytes) (count : Nat) :
    (convertedSamples q inp count).length = 2 * count := by
  rw [convertedSamples, List.length_flatMap]
  induction count with
  | zero => rfl
  | succ n ih =>
    rw [List.range_succ, List.map_append, List.sum_append, ih]
    rfl

theorem convertedSamples_succ (q : FloatFormat F) (inp : Bytes) (i : Nat) :
    convertedSamples q inp (i + 1) =
      convertedSamples q inp i ++ int16Bytes (q.sample (q.ofBytes ((inp.drop (4 * i)).take 4))) := by
  rw [convertedSamples, List.range_succ, List.flatMap_append, List.flatMap_singleton]
  rfl

/-- The front of the array is overwritten, the rest stays. -/
theorem convertAudioSampleF32S16_eq (q : FloatFormat F) (inp out : Bytes) : ∀ count : Nat,
    4 * count ≤ inp.length → 2 * count ≤ out.length →
    convertAudioSampleF32S16 q inp count out = some (convertedSamples q inp count ++ out.drop (2 * count))
  | 0, _, _ => rfl
  | i + 1, hi, ho => by
    have hlen := convertedSamples_length q inp i
    rw [convertAudioSampleF32S16, convertAudioSampleF32S16_eq q inp out i (by omega) (by omega),
      Option.bind_some]
    have hfloat : copy (List.replicate 4 0) 0 inp (4 * i) 4 = some ((inp.drop (4 * i)).take 4) := by
      rw [copy, if_pos ⟨by rw [List.length_replicate], by omega⟩]
      simp
    have hroom : 2 * i + 2 ≤ (convertedSamples q inp i ++ out.drop (2 * i)).length := by
      rw [List.length_append, hlen, List.length_drop]
      omega
    have hbehind : (convertedSamples q inp i ++ out.drop (2 * i)).drop (2 * i + 2) = out.drop (2 * (i + 1)) := by
      rw [List.drop_append, hlen, List.drop_of_length_le (by omega), List.nil_append, List.drop_drop]
      congr 1
      omega
    rw [hfloat, Option.bind_some, copy, if_pos ⟨hroom, Nat.le_refl 2⟩, convertedSamples_succ,
      List.take_left' hlen, hbehind, List.append_assoc]
    rfl

/-! ## One call -/

/-- The samples of the frame fit the array and are there. -/
structure DecodedFrame.Fits (ch : Nat) (f : DecodedFrame) : Prop where
  pos : 1 ≤ f.nbSamples * ch
  fits : f.nbSamples * ch ≤ maxChannelCount * inputSampleCount
  data : 4 * (f.nbSamples * ch) ≤ f.data.length

def DecodedFrame.converted (q : FloatFormat F) (ch : Nat) (f : DecodedFrame) : Bytes :=
  convertedSamples q f.data (f.nbSamples * ch)

/-- What `encode_opus` takes of the array. -/
def DecodedFrame.handedOn (q : FloatFormat F) (ch : Nat) (f : DecodedFrame) (stale : Bytes) : Bytes :=
  (f.converted q ch ++ stale.drop (2 * (f.nbSamples * ch))).take (2048 * ch)

theorem converted_length (q : FloatFormat F) (ch : Nat) (f : DecodedFrame) :
    (f.converted q ch).length = 2 * (f.nbSamples * ch) := convertedSamples_length ..

theorem array_length (q : FloatFormat F) {ch : Nat} {f : DecodedFrame} (hf : f.Fits ch) {stale : Bytes}
    (hs : stale.length = maxChannelCount * inputSampleCount * sampleSize) :
    (f.converted q ch ++ stale.drop (2 * (f.nbSamples * ch))).length = 4096 := by
  have hfits := hf.fits
  rw [maxChannelCount, inputSampleCount] at hfits hs
  rw [sampleSize] at hs
  rw [List.length_append, converted_length, List.length_drop, hs]
  omega

theorem handedOn_length (q : FloatFormat F) {ch : Nat} (hch : ch = 1 ∨ ch = 2) {f : DecodedFrame}
    (hf : f.Fits ch) {stale : Bytes} (hs : stale.length = maxChannelCount * inputSampleCount * sampleSize) :
    (f.handedOn q ch stale).length = 2048 * ch := by
  rw [DecodedFrame.handedOn, List.length_take, array_length q hf hs]
  rcases hch with rfl | rfl <;> rfl

theorem handedOn_block (q : FloatFormat F) (ch : Nat) {f : DecodedFrame} (hf : f.nbSamples = inputSampleCount)
    (stale : Bytes) : f.handedOn q ch stale = f.converted q ch := by
  refine List.take_left' ?_
  rw [converted_length, hf, inputSampleCount]
  ring

/-- The loop on a frame that fits. -/
theorem convert_fits (q : FloatFormat F) {a : AgoraAudioContext} {ch : Nat} (hch : a.channelCount = ch)
    {f : DecodedFrame} (hf : f.Fits ch) (env : DecodeEnv) :
    convertAudioSampleF32S16 q f.data ((f.nbSamples % 2 ^ 16 * a.channelCount) % 2 ^ 16) env.buffer =
      some (f.converted q ch ++ env.buffer.drop (2 * (f.nbSamples * ch))) := by
  have hfits := hf.fits
  have hpos := hf.pos
  have hbuf := env.buffer_length
  rw [maxChannelCount, inputSampleCount] at hfits hbuf
  rw [sampleSize] at hbuf
  have hnb : f.nbSamples ≤ f.nbSamples * ch := by
    refine Nat.le_mul_of_pos_right _ (Nat.pos_of_ne_zero fun h0 => ?_)
    rw [h0, Nat.mul_zero] at hpos
    omega
  have hcount : (f.nbSamples % 2 ^ 16 * a.channelCount) % 2 ^ 16 = f.nbSamples * ch := by
    rw [hch, Nat.mod_eq_of_lt (show f.nbSamples < 2 ^ 16 by omega), Nat.mod_eq_of_lt (by omega)]
  rw [hcount]
  exact convertAudioSampleF32S16_eq q f.data env.buffer _ hf.data (by omega)

theorem decodeAccAudio_carry (q : FloatFormat F) {ch n : Nat} {a : AgoraAudioContext} (h : Carry ch n a)
    (hn : n < 15) (env : DecodeEnv) {f : DecodedFrame} (he : env.frame = some f) (hf : f.Fits ch)
    (timestamp : Nat) :
    ∃ a' packets sends m, decodeAccAudio q a env timestamp = some (a', packets, sends) ∧ m < 15 ∧
      Carry ch m a' ∧ packets.flatten ++ a'.carried = a.carried ++ f.handedOn q ch env.buffer := by
  have harr := array_length q hf env.buffer_length
  generalize hs : f.converted q ch ++ env.buffer.drop (2 * (f.nbSamples * ch)) = samples at harr
  have hroom : 2048 * ch ≤ samples.length := by
    rw [harr]
    rcases h.mono_stereo with rfl | rfl <;> decide
  obtain ⟨a', packets, m, hd, hm, h', -, hcat⟩ := decodeBlock_carry h hn
    ⟨samples, env.temp, env.flushTemp, env.temp_length, env.flushTemp_length⟩ hroom
  obtain ⟨⟨a₁, packet⟩, henc, hrest⟩ := Option.bind_eq_some_iff.mp hd
  obtain ⟨⟨a₂, flushed⟩, hflush, hpair⟩ := Option.map_eq_some_iff.mp hrest
  cases hpair
  refine ⟨a', packet :: flushed.toList, ?sends, m, ?run, hm, h', ?carry⟩
  case run =>
    simp only [decodeAccAudio, he, convert_fits q h.channels hf env, hs, Option.bind_some, henc, hflush,
      Option.map_some]
    rfl
  case carry => rw [hcat, DecodedFrame.handedOn, hs]

/-- Every call of `agora_send_audio` has the timestamp `decode_acc_audio` was given, and
there is one exactly when the decoder has a frame. -/
theorem decodeAccAudio_sends (q : FloatFormat F) {a a' : AgoraAudioContext} {env : DecodeEnv} {timestamp : Nat}
    {packets : List Bytes} {sends : List SendAudio}
    (h : decodeAccAudio q a env timestamp = some (a', packets, sends)) :
    (∀ send ∈ sends, send.timestamp = timestamp) ∧ (env.frame.isSome ↔ sends ≠ []) := by
  unfold decodeAccAudio at h
  split at h
  · next he =>
    cases h
    simp [he]
  · next f he =>
    obtain ⟨buffer, -, h⟩ := Option.bind_eq_some_iff.mp h
    obtain ⟨⟨a₁, packet⟩, -, h⟩ := Option.bind_eq_some_iff.mp h
    obtain ⟨⟨a₂, flushed⟩, -, h⟩ := Option.map_eq_some_iff.mp h
    cases h
    refine ⟨fun send hs => ?_, by simp [he]⟩
    rcases List.mem_cons.mp hs with rfl | hs
    · rfl
    · generalize (if flushed.isSome = true then env.flushOpus.ret else 0) = encodedBytes at hs
      by_cases hb : 0 < encodedBytes
      · rw [if_pos hb] at hs
        rw [List.mem_singleton.mp hs]
      · rw [if_neg hb] at hs
        exact absurd hs List.not_mem_nil

/-- The lengths handed to `agora_send_audio`: the first is what `opus_encode` returned,
the second has been tested. -/
theorem decodeAccAudio_lengths (q : FloatFormat F) {a a' : AgoraAudioContext} {env : DecodeEnv} {timestamp : Nat}
    {packets : List Bytes} {sends : List SendAudio}
    (h : decodeAccAudio q a env timestamp = some (a', packets, sends)) :
    (env.frame = none → sends = []) ∧ (env.frame.isSome → ∃ flushed,
      sends = ⟨env.opus.out, env.opus.ret, timestamp⟩ :: flushed ∧
        ∀ send ∈ flushed, 0 < send.len ∧ send.len ≤ 1000 ∧ send.buffer.length = 1000) := by
  unfold decodeAccAudio at h
  split at h
  · next he =>
    cases h
    exact ⟨fun _ => rfl, fun hs => absurd (he ▸ hs : (none : Option DecodedFrame).isSome) Bool.false_ne_true⟩
  · next f he =>
    obtain ⟨buffer, -, h⟩ := Option.bind_eq_some_iff.mp h
    obtain ⟨⟨a₁, packet⟩, -, h⟩ := Option.bind_eq_some_iff.mp h
    obtain ⟨⟨a₂, flushed⟩, -, h⟩ := Option.map_eq_some_iff.mp h
    cases h
    refine ⟨fun hn => absurd (he.symm.trans hn) (Option.some_ne_none f), fun _ => ⟨_, rfl, fun send hs => ?_⟩⟩
    cases hb : flushed.isSome with
    | false =>
      rw [hb, if_neg Bool.false_ne_true, if_neg (lt_irrefl 0)] at hs
      cases hs
    | true =>
      rw [hb, if_pos rfl] at hs
      by_cases hpos : 0 < env.flushOpus.ret
      · rw [if_pos hpos] at hs
        rw [List.mem_singleton.mp hs]
        exact ⟨hpos, env.flushOpus.ret_le, env.flushOpus.out_length⟩
      · rw [if_neg hpos] at hs
        cases hs

/-! ## Any number of calls -/

/-- The Opus packets, and the calls of `agora_send_audio`. -/
def runDecode (q : FloatFormat F) (a : AgoraAudioContext) :
    List (DecodeEnv × Nat) → Option (AgoraAudioContext × List Bytes × List SendAudio)
  | [] => some (a, [], [])
  | (env, timestamp) :: calls =>
    (decodeAccAudio q a env timestamp).bind fun (a, packets, sends) =>
    (runDecode q a calls).map fun (a, morePackets, moreSends) => (a, packets ++ morePackets, sends ++ moreSends)

/-- The blocks the packets are made of. -/
theorem runDecode_carry (q : FloatFormat F) {ch : Nat} : ∀ (frames : List DecodedFrame)
    (calls : List (DecodeEnv × Nat)) (a : AgoraAudioContext) (n : Nat), Carry ch n a → n < 15 →
    (∀ f ∈ frames, f.Fits ch) → calls.map (·.1.frame) = frames.map some →
    ∃ a' packets sends, runDecode q a calls = some (a', packets, sends) ∧
      packets.flatten ++ a'.carried =
        a.carried ++ (List.zipWith (fun f call => f.handedOn q ch call.1.buffer) frames calls).flatten := by
  intro frames
  induction frames with
  | nil =>
    intro calls a n _ _ _ hcalls
    rw [List.map_nil, List.map_eq_nil_iff] at hcalls
    subst hcalls
    exact ⟨a, [], [], rfl, by simp⟩
  | cons f frames ih =>
    intro calls a n h hn hfit hcalls
    cases calls with
    | nil => cases hcalls
    | cons call calls =>
      obtain ⟨env, timestamp⟩ := call
      rw [List.map_cons, List.map_cons, List.cons.injEq] at hcalls
      obtain ⟨a₁, packets, sends, m, hd, hm, h₁, hcat⟩ :=
        decodeAccAudio_carry q h hn env hcalls.1 (hfit f (by simp)) timestamp
      obtain ⟨a₂, more, moreSends, hr, hcat₂⟩ := ih calls a₁ m h₁ hm (fun f hf => hfit f (by simp [hf])) hcalls.2
      refine ⟨a₂, packets ++ more, sends ++ moreSends, ?_, ?_⟩
      · simp only [runDecode, hd, hr, Option.bind_some, Option.map_some]
      · rw [List.flatten_append, List.append_assoc, hcat₂, ← List.append_assoc, hcat, List.zipWith_cons_cons,
          List.flatten_cons, List.append_assoc]

/-- Opus encodes into one byte. -/
def oneByte : OpusResult := ⟨1, List.replicate 1000 0, List.length_replicate, by decide, by decide⟩

/-- A call that decodes `f`, its arrays full of `x`. -/
def filledEnv (x : UInt8) (f : DecodedFrame) : DecodeEnv where
  frame := some f
  opus := oneByte
  flushOpus := oneByte
  buffer := List.replicate 4096 x
  temp := List.replicate 3840 x
  flushTemp := List.replicate 3840 x
  buffer_length := List.length_replicate
  temp_length := List.length_replicate
  flushTemp_length := List.length_replicate

/-- A frame that is too short lets the old content of the array through. -/
theorem handedOn_stale (q : FloatFormat F) {ch : Nat} (hch : ch = 1 ∨ ch = 2) {f : DecodedFrame}
    (h : f.handedOn q ch (List.replicate 4096 0) = f.handedOn q ch (List.replicate 4096 1)) :
    inputSampleCount ≤ f.nbSamples := by
  by_contra hlt
  rw [inputSampleCount] at hlt
  have hshort : 2 * (f.nbSamples * ch) < 2048 * ch := by rcases hch with rfl | rfl <;> omega
  have hstale (x : UInt8) : (f.handedOn q ch (List.replicate 4096 x)).drop (2 * (f.nbSamples * ch)) =
      List.replicate (2048 * ch - 2 * (f.nbSamples * ch)) x := by
    have hle : (f.converted q ch).length ≤ 2048 * ch := by
      rw [converted_length]
      exact Nat.le_of_lt hshort
    rw [DecodedFrame.handedOn, List.take_append, List.take_of_length_le hle, converted_length,
      List.drop_left' (converted_length q ch f), List.drop_replicate, List.take_replicate]
    congr 1
    rcases hch with rfl | rfl <;> omega
  have hbytes := congrArg (List.drop (2 * (f.nbSamples * ch))) h
  rw [hstale, hstale, List.replicate_right_inj (by omega)] at hbytes
  cases hbytes

/-- No sample of a run is lost or made up, whatever the last packets hold, exactly when every
frame has 1024 samples a channel. -/
theorem runDecode_exact (q : FloatFormat F) (a : AgoraAudioContext)
    (hch : a.channelCount = 1 ∨ a.channelCount = 2) (hsize : a.remainingBytes.length = remainingSize)
    (h0 : a.remainingCount = 0) (frames : List DecodedFrame) (hfit : ∀ f ∈ frames, f.Fits a.channelCount) :
    (∀ calls : List (DecodeEnv × Nat), calls.map (·.1.frame) = frames.map some →
      ∃ a' packets sends, runDecode q a calls = some (a', packets, sends) ∧
        packets.flatten ++ a'.remainingBytes.take a'.remainingCount =
          (frames.map (·.converted q a.channelCount)).flatten) ↔
      ∀ f ∈ frames, f.nbSamples = inputSampleCount := by
  generalize hc : a.channelCount = ch at hch hfit ⊢
  have hstart : Carry ch 0 a := ⟨hch, hc, hsize, h0⟩
  have hnone : a.carried = [] := by rw [AgoraAudioContext.carried, h0, List.take_zero]
  constructor
  · intro hall
    -- the same frames with two contents of the array
    have hfilled (x : UInt8) : (frames.map fun f => f.handedOn q ch (List.replicate 4096 x)).flatten =
        (frames.map (·.converted q ch)).flatten := by
      have hframes : (frames.map fun f => (filledEnv x f, 0)).map (·.1.frame) = frames.map some := by
        rw [List.map_map]
        rfl
      obtain ⟨a', packets, sends, hrun, hcat⟩ := hall _ hframes
      obtain ⟨a₂, more, moreSends, hrun₂, hcat₂⟩ :=
        runDecode_carry q frames _ a 0 hstart (by decide) hfit hframes
      rw [hrun, Option.some.injEq, Prod.mk.injEq, Prod.mk.injEq] at hrun₂
      obtain ⟨rfl, rfl, rfl⟩ := hrun₂
      rw [hnone, List.nil_append, List.zipWith_map_right, List.zipWith_self] at hcat₂
      exact hcat₂.symm.trans hcat
    have hlen (x : UInt8) : (frames.map fun f => f.handedOn q ch (List.replicate 4096 x)).map List.length =
        frames.map fun _ => 2048 * ch := by
      rw [List.map_map]
      exact List.map_congr_left fun f hf => handedOn_length q hch (hfit f hf) List.length_replicate
    have hsame : (frames.map fun f => f.handedOn q ch (List.replicate 4096 0)) =
        frames.map fun f => f.handedOn q ch (List.replicate 4096 1) :=
      List.eq_iff_flatten_eq.mpr ⟨(hfilled 0).trans (hfilled 1).symm, (hlen 0).trans (hlen 1).symm⟩
    have hlong : ∀ f ∈ frames, inputSampleCount ≤ f.nbSamples := fun f hf =>
      handedOn_stale q hch (List.map_inj_left.mp hsame f hf)
    -- no frame is too short, and in all there is not a sample too many
    have hsum := congrArg List.length (hfilled 0)
    rw [List.length_flatten, List.length_flatten, hlen, List.map_map] at hsum
    by_contra hex
    push Not at hex
    obtain ⟨f, hf, hne⟩ := hex
    refine absurd hsum (Nat.ne_of_lt (List.sum_lt_sum _ _ (fun g hg => ?_) ⟨f, hf, ?_⟩))
    · have := hlong g hg
      rw [inputSampleCount] at this
      rw [Function.comp, converted_length]
      rcases hch with rfl | rfl <;> omega
    · have := hlong f hf
      rw [inputSampleCount] at this hne
      rw [Function.comp, converted_length]
      rcases hch with rfl | rfl <;> omega
  · intro hblock calls hcalls
    obtain ⟨a', packets, sends, hrun, hcat⟩ := runDecode_carry q frames calls a 0 hstart (by decide) hfit hcalls
    refine ⟨a', packets, sends, hrun, ?_⟩
    rw [AgoraAudioContext.carried] at hcat
    rw [hcat, hnone, List.nil_append]
    congr 1
    have hlen : frames.length = calls.length := by
      simpa using (congrArg List.length hcalls).symm
    refine List.ext_getElem (by simp [hlen]) fun i h₁ h₂ => ?_
    rw [List.getElem_zipWith, List.getElem_map]
    exact handedOn_block q ch (hblock _ (List.getElem_mem _)) _

/-- A `float` in memory, little-endian; infinities and NaNs do not occur in decoded audio. -/
def singleOf (bs : Bytes) : Rat :=
  let n := Bytes.leNat bs
  let mantissa : Nat := n % 2 ^ 23
  let exponent : Nat := n / 2 ^ 23 % 256
  let v : Rat := if exponent = 0 then mantissa / 2 ^ 149 else (2 ^ 23 + mantissa) * 2 ^ exponent / 2 ^ 150
  if n < 2 ^ 31 then v else -v

/-- The conversion without rounding. -/
def exactFormat : FloatFormat Rat where
  ofBytes := singleOf
  geOne x := decide (1 ≤ x)
  leNegOne x := decide (x ≤ -1)
  scaled x := (x * 32768 - 1).num.tdiv (x * 32768 - 1).den

def silentFrame (samples : Nat) : DecodedFrame := ⟨samples, List.replicate (4 * samples) 0⟩

theorem silentFrame_fits (samples : Nat) (h1 : 1 ≤ samples) (h2 : samples ≤ 2048) :
    (silentFrame samples).Fits 1 := by
  refine ⟨by rw [Nat.mul_one]; exact h1, ?_, ?_⟩
  · rw [Nat.mul_one]
    exact h2
  · simp [silentFrame]

/-- After `agora_init_audio`. -/
def monoContext : AgoraAudioContext := ⟨1, 0, List.replicate 4096 0xcc⟩

theorem runDecode_exact_silence :
    (∀ calls : List (DecodeEnv × Nat), calls.map (·.1.frame) = [silentFrame 1024].map some →
      ∃ a' packets sends, runDecode exactFormat monoContext calls = some (a', packets, sends) ∧
        packets.flatten ++ a'.remainingBytes.take a'.remainingCount =
          ([silentFrame 1024].map (·.converted exactFormat 1)).flatten) ↔
      ∀ f ∈ [silentFrame 1024], f.nbSamples = inputSampleCount :=
  runDecode_exact exactFormat monoContext (.inl rfl) List.length_replicate rfl [silentFrame 1024] fun f hf => by
    rw [List.mem_singleton.mp hf]
    exact silentFrame_fits 1024 (by decide) (by decide)

/-- One frame of any size gives Opus and the carry 1024 samples. -/
theorem runDecode_one {f : DecodedFrame} (hf : f.Fits 1) (x : UInt8) {a' : AgoraAudioContext}
    {packets : List Bytes} {sends : List SendAudio}
    (h : runDecode exactFormat monoContext [(filledEnv x f, 0)] = some (a', packets, sends)) :
    (packets.flatten ++ a'.remainingBytes.take a'.remainingCount).length = 2048 := by
  have hstart : Carry 1 0 monoContext := ⟨.inl rfl, rfl, List.length_replicate, rfl⟩
  obtain ⟨a₂, more, moreSends, hrun, hcat⟩ := runDecode_carry exactFormat [f] [(filledEnv x f, 0)] monoContext 0
    hstart (by decide) (fun g hg => by rw [List.mem_singleton.mp hg]; exact hf) rfl
  rw [h, Option.some.injEq, Prod.mk.injEq, Prod.mk.injEq] at hrun
  obtain ⟨rfl, rfl, rfl⟩ := hrun
  rw [AgoraAudioContext.carried] at hcat
  have hnone : monoContext.carried = [] := List.take_zero ..
  rw [hcat, hnone, List.nil_append, List.zipWith_cons_cons, List.zipWith_nil_left, List.flatten_cons,
    List.flatten_nil, List.append_nil]
  exact handedOn_length exactFormat (.inl rfl) hf List.length_replicate

/-- A frame of silence that fits, alone and with `0xaa` in the array, does not come out
as it went in. -/
def Altered (samples : Nat) : Prop :=
  (silentFrame samples).Fits 1 ∧
    ¬ ∃ a' packets sends,
      runDecode exactFormat monoContext [(filledEnv 0xaa (silentFrame samples), 0)] = some (a', packets, sends) ∧
      packets.flatten ++ a'.remainingBytes.take a'.remainingCount =
        ([silentFrame samples].map (·.converted exactFormat 1)).flatten

theorem altered {samples : Nat} (h1 : 1 ≤ samples) (h2 : samples ≤ 2048) (hne : samples ≠ 1024) :
    Altered samples := by
  have hf : (silentFrame samples).Fits 1 := silentFrame_fits samples h1 h2
  refine ⟨hf, fun ⟨a', packets, sends, hrun, hcat⟩ => ?_⟩
  have hlen := runDecode_one hf 0xaa hrun
  rw [hcat, List.map_singleton, List.flatten_singleton, converted_length] at hlen
  have hsamples : (silentFrame samples).nbSamples = samples := rfl
  omega

/-- With 960 samples stale content goes to Opus, with 2048 half of the frame is lost. -/
theorem runDecode_stale : Altered 960 ∧ Altered 2048 :=
  ⟨altered (by decide) (by decide) (by decide), altered (by decide) (by decide) (by decide)⟩

end Rtmpg.Opus
