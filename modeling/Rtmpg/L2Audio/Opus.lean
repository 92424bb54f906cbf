import Rtmpg.Core.Mem

/-!
# Opus re-framing (`get_next_packet`, `encode_opus`, `flush_encode_opus`)

`ngx_agora_helper.c:511-563,647-655`. A decoded block has 1024 samples a
channel, an Opus packet 960; what a packet leaves over is carried in
`remaining_bytes` to the next block. Of `agora_audio_context_t` the model has
the fields these functions use. Integers keep their C widths where a
conversion takes place, and every `memcpy` checks its bounds: `none` is a
copy outside an array.

`opus_encode` only reads its input, so a call of it is represented by the
bytes it is handed. The `temp` arrays are not initialised; each call has its
own stale content.

Results:
* `decodeBlock_carry`: one block, with the carry a multiple of 64 samples
  below a packet, hands on what it was given and keeps the carry so.
* `runBlocks_lossless`: over any number of blocks nothing is lost,
  duplicated or reordered, and every array access stays inside its array.
-/
namespace Rtmpg.Opus

open Rtmpg.Mem

/-- `INPUT_SAMPLE_COUNT` -/
def inputSampleCount : Nat := 1024
/-- `OPUS_SAMPLE_COUNT` -/
def opusSampleCount : Nat := 960
/-- `MAX_CHANNEL_COUNT` -/
def maxChannelCount : Nat := 2
/-- `sizeof(int16_t)` -/
def sampleSize : Nat := 2

/-- `agora_audio_context_t` -/
structure AgoraAudioContext where
  channelCount : Nat
  remainingCount : Nat
  remainingBytes : Bytes
  deriving DecidableEq, Repr

/-- The size of `remaining_bytes`. -/
def remainingSize : Nat := inputSampleCount * sampleSize * maxChannelCount

/-- The size of `temp` in bytes. -/
def tempSize : Nat := opusSampleCount * maxChannelCount * sampleSize

/-- mirrors ngx_agora_helper.c:514 -/
def AgoraAudioContext.opusPacketSize (a : AgoraAudioContext) : Nat :=
  u32 (opusSampleCount * a.channelCount * sampleSize : Nat)

/-- The `free_bytes` of the next packet: `uint32_t` minus `int`, stored in an `int`.
mirrors ngx_agora_helper.c:528-532 -/
def AgoraAudioContext.freeBytes (a : AgoraAudioContext) : Int :=
  i32 (u32 (a.opusPacketSize - i32 a.remainingCount))

/-- `in == NULL` is `none`.
mirrors ngx_agora_helper.c:511-539 -/
def getNextPacket (a : AgoraAudioContext) (inp : Option Bytes) (inLength : Nat) (out : Bytes) :
    Option (AgoraAudioContext × Bytes) :=
  match inp with
  | none =>
    if a.remainingCount < a.opusPacketSize then some (a, out)
    else
      (copy out 0 a.remainingBytes 0 a.opusPacketSize).map fun out =>
        ({ a with remainingCount := u32 (a.remainingCount - a.opusPacketSize) }, out)
  | some inp =>
    let previousBytes := i32 a.remainingCount
    (copy out 0 a.remainingBytes 0 (sizeT previousBytes)).bind fun out =>
    (copy out (sizeT previousBytes) inp 0 (sizeT a.freeBytes)).bind fun out =>
    let remainingCount := u32 (inLength - a.freeBytes)
    (copy a.remainingBytes 0 inp (sizeT a.freeBytes) remainingCount).map fun bytes =>
      ({ a with remainingCount := remainingCount, remainingBytes := bytes }, out)

/-- What `opus_encode` reads of `temp`: 960 samples for each channel. -/
def opusInput (a : AgoraAudioContext) (temp : Bytes) : Bytes :=
  temp.take (opusSampleCount * a.channelCount * sampleSize)

/-- mirrors ngx_agora_helper.c:541-549 -/
def encodeOpus (a : AgoraAudioContext) (inp temp : Bytes) : Option (AgoraAudioContext × Bytes) :=
  let inputPacketSize := (inputSampleCount * a.channelCount * sampleSize) % 2 ^ 16
  (getNextPacket a (some inp) inputPacketSize temp).map fun (a, temp) => (a, opusInput a temp)

/-- A packet is left; this `opus_packet_size` is a `uint16_t`.
mirrors ngx_agora_helper.c:553-554 -/
def AgoraAudioContext.flushes (a : AgoraAudioContext) : Bool :=
  decide ((opusSampleCount * a.channelCount * sampleSize) % 2 ^ 16 ≤ a.remainingCount)

/-- mirrors ngx_agora_helper.c:551-563 -/
def flushEncodeOpus (a : AgoraAudioContext) (temp : Bytes) : Option (AgoraAudioContext × Option Bytes) :=
  if a.flushes then
    (getNextPacket a none 0 temp).map fun (a, temp) =>
      ({ a with remainingCount := 0 }, some (opusInput a temp))
  else some (a, none)

/-- A decoded block, and the stale content of the two `temp` arrays. -/
structure Block where
  samples : Bytes
  temp : Bytes
  flushTemp : Bytes
  temp_length : temp.length = tempSize
  flushTemp_length : flushTemp.length = tempSize

/-- The tail of `decode_acc_audio`: the packets handed to Opus, in order.
mirrors ngx_agora_helper.c:647-655 -/
def decodeBlock (a : AgoraAudioContext) (b : Block) : Option (AgoraAudioContext × List Bytes) :=
  (encodeOpus a b.samples b.temp).bind fun (a, packet) =>
  (flushEncodeOpus a b.flushTemp).map fun (a, flushed) => (a, packet :: flushed.toList)

def runBlocks (a : AgoraAudioContext) : List Block → Option (AgoraAudioContext × List Bytes)
  | [] => some (a, [])
  | b :: bs =>
    (decodeBlock a b).bind fun (a, packets) =>
    (runBlocks a bs).map fun (a, more) => (a, packets ++ more)

/-- The bytes carried over to the next block. -/
def AgoraAudioContext.carried (a : AgoraAudioContext) : Bytes := a.remainingBytes.take a.remainingCount

/-! ## The carry -/

/-- `n` times 64 samples are carried, for `ch` channels. -/
structure Carry (ch n : Nat) (a : AgoraAudioContext) : Prop where
  mono_stereo : ch = 1 ∨ ch = 2
  channels : a.channelCount = ch
  size : a.remainingBytes.length = remainingSize
  count : a.remainingCount = 128 * ch * n

/-- 960 samples are 15 times 64. -/
theorem Carry.opusPacketSize {ch n : Nat} {a : AgoraAudioContext} (h : Carry ch n a) :
    a.opusPacketSize = 1920 * ch := by
  unfold AgoraAudioContext.opusPacketSize
  rw [h.channels]
  rcases h.mono_stereo with rfl | rfl <;> rfl

theorem Carry.opusInput {ch n : Nat} {a : AgoraAudioContext} (h : Carry ch n a) (temp : Bytes) :
    opusInput a temp = temp.take (1920 * ch) := by
  rw [Opus.opusInput, h.channels, opusSampleCount, sampleSize]
  congr 1
  ring

theorem Carry.flushes {ch n : Nat} {a : AgoraAudioContext} (h : Carry ch n a) (hn : n ≤ 15) :
    a.flushes = true ↔ n = 15 := by
  rw [AgoraAudioContext.flushes, decide_eq_true_eq, h.channels, h.count, opusSampleCount, sampleSize]
  rcases h.mono_stereo with rfl | rfl <;> omega

theorem Carry.i32_count {ch n : Nat} {a : AgoraAudioContext} (h : Carry ch n a) (hn : n ≤ 15) :
    i32 a.remainingCount = a.remainingCount := by
  refine i32_small ?_
  rw [h.count]
  rcases h.mono_stereo with rfl | rfl <;> omega

theorem Carry.freeBytes {ch n : Nat} {a : AgoraAudioContext} (h : Carry ch n a) (hn : n ≤ 15) :
    a.freeBytes = (1920 * ch - 128 * ch * n : Nat) := by
  unfold AgoraAudioContext.freeBytes
  rw [h.i32_count hn, h.opusPacketSize, h.count]
  have hle : 128 * ch * n ≤ 1920 * ch := by rcases h.mono_stereo with rfl | rfl <;> omega
  have hlt : 1920 * ch - 128 * ch * n < 2 ^ 31 := by rcases h.mono_stereo with rfl | rfl <;> omega
  rw [← Int.ofNat_sub hle, u32_natCast (by omega), i32_small hlt]

/-- A packet is filled up with the front of the block, the rest of its 1024 samples a
channel is carried. -/
theorem encodeOpus_carry {ch n : Nat} {a : AgoraAudioContext} (h : Carry ch n a) (hn : n < 15)
    (inp temp : Bytes) (hi : 2048 * ch ≤ inp.length) (ht : temp.length = tempSize) :
    ∃ a' packet, encodeOpus a inp temp = some (a', packet) ∧ Carry ch (n + 1) a' ∧
      packet.length = 1920 * ch ∧ packet ++ a'.carried = a.carried ++ inp.take (2048 * ch) := by
  have hfree := h.freeBytes (Nat.le_of_lt hn)
  have hprev := h.i32_count (Nat.le_of_lt hn)
  have hcount := h.count
  have hsize := h.size
  rw [remainingSize, inputSampleCount, sampleSize, maxChannelCount] at hsize
  rw [tempSize, opusSampleCount, sampleSize, maxChannelCount] at ht
  have hch := h.mono_stereo
  have hcarry : 128 * ch * (n + 1) ≤ a.remainingBytes.length := by rcases hch with rfl | rfl <;> omega
  have hblock : 2048 * ch = (1920 * ch - 128 * ch * n) + 128 * ch * (n + 1) := by
    rcases hch with rfl | rfl <;> omega
  -- the three copies, with their lengths as plain numbers
  obtain ⟨t₁, e₁, l₁, p₁⟩ := copy_ok temp 0 a.remainingBytes 0 a.remainingCount
    (by rcases hch with rfl | rfl <;> omega) (by rcases hch with rfl | rfl <;> omega)
  obtain ⟨t₂, e₂, l₂, p₂⟩ := copy_ok t₁ a.remainingCount inp 0 (1920 * ch - 128 * ch * n)
    (by rcases hch with rfl | rfl <;> omega) (by rcases hch with rfl | rfl <;> omega)
  obtain ⟨r, e₃, l₃, p₃⟩ := copy_ok a.remainingBytes 0 inp (1920 * ch - 128 * ch * n) (128 * ch * (n + 1))
    (by omega) (hblock ▸ hi)
  have hs₁ : sizeT (i32 a.remainingCount) = a.remainingCount := by
    rw [hprev]
    exact sizeT_natCast (by rcases hch with rfl | rfl <;> omega)
  have hs₂ : sizeT a.freeBytes = 1920 * ch - 128 * ch * n := by
    rw [hfree]
    exact sizeT_natCast (by rcases hch with rfl | rfl <;> omega)
  have hin : (inputSampleCount * a.channelCount * sampleSize) % 2 ^ 16 = 2048 * ch := by
    rw [h.channels, inputSampleCount, sampleSize]
    rcases hch with rfl | rfl <;> rfl
  have hrem : u32 ((2048 * ch : Nat) - a.freeBytes) = 128 * ch * (n + 1) := by
    rw [hfree, ← Int.ofNat_sub (by rcases hch with rfl | rfl <;> omega),
      u32_natCast (by rcases hch with rfl | rfl <;> omega)]
    rcases hch with rfl | rfl <;> omega
  have hcat : a.remainingCount + (1920 * ch - 128 * ch * n) = 1920 * ch := by
    rcases hch with rfl | rfl <;> omega
  have h' : Carry ch (n + 1) ⟨a.channelCount, 128 * ch * (n + 1), r⟩ :=
    ⟨hch, h.channels, l₃.trans h.size, rfl⟩
  refine ⟨⟨a.channelCount, 128 * ch * (n + 1), r⟩, t₂.take (1920 * ch), ?_, h', ?_, ?_⟩
  · simp only [encodeOpus, getNextPacket, hin, hs₁, hs₂, hrem, e₁, e₂, e₃, h'.opusInput, Option.bind_some,
      Option.map_some]
  · rw [List.length_take]
    rcases hch with rfl | rfl <;> omega
  · rw [Nat.zero_add] at p₁ p₃
    rw [List.take_zero, List.nil_append, List.drop_zero] at p₁
    rw [List.drop_zero, p₁, hcat] at p₂
    rw [List.take_zero, List.nil_append] at p₃
    have hsplit := List.take_add (l := inp) (i := 1920 * ch - 128 * ch * n) (j := 128 * ch * (n + 1))
    simp only [AgoraAudioContext.carried]
    rw [p₂, p₃, List.append_assoc, hblock, hsplit]

/-- Zeroing the count discards nothing: the carry is exactly a packet. -/
theorem flush_carry {ch : Nat} {a : AgoraAudioContext} (h : Carry ch 15 a) (temp : Bytes)
    (ht : temp.length = tempSize) :
    ∃ a' t, getNextPacket a none 0 temp = some (a', t) ∧ a'.remainingCount = 0 ∧
      a'.channelCount = a.channelCount ∧ a'.remainingBytes = a.remainingBytes ∧
      t.take (1920 * ch) = a.carried ∧ t.length = temp.length := by
  have hcount : a.remainingCount = 1920 * ch := by rw [h.count]; ring
  have hsize := h.size
  rw [remainingSize, inputSampleCount, sampleSize, maxChannelCount] at hsize
  rw [tempSize, opusSampleCount, sampleSize, maxChannelCount] at ht
  have hch := h.mono_stereo
  obtain ⟨t, e, l, p⟩ := copy_ok temp 0 a.remainingBytes 0 (1920 * ch)
    (by rcases hch with rfl | rfl <;> omega) (by rcases hch with rfl | rfl <;> omega)
  refine ⟨{ a with remainingCount := 0 }, t, ?_, rfl, rfl, rfl, ?_, l⟩
  · simp only [getNextPacket, h.opusPacketSize, hcount, Nat.lt_irrefl, if_false, e, Option.map_some,
      Int.sub_self]
    rfl
  · rw [Nat.zero_add, List.take_zero, List.nil_append, List.drop_zero] at p
    rw [p, AgoraAudioContext.carried, hcount]

/-- One block: the carry grows by 64 samples, and a full packet of carry is flushed. -/
theorem decodeBlock_carry {ch n : Nat} {a : AgoraAudioContext} (h : Carry ch n a) (hn : n < 15) (b : Block)
    (hb : 2048 * ch ≤ b.samples.length) :
    ∃ a' packets m, decodeBlock a b = some (a', packets) ∧ m < 15 ∧ Carry ch m a' ∧
      (∀ p ∈ packets, p.length = 1920 * ch) ∧
      packets.flatten ++ a'.carried = a.carried ++ b.samples.take (2048 * ch) := by
  obtain ⟨a₁, packet, he, h₁, hlen, hcat⟩ := encodeOpus_carry h hn b.samples b.temp hb b.temp_length
  have hch := h.mono_stereo
  have hguard := h₁.flushes hn
  by_cases hfull : n + 1 = 15
  · rw [hfull] at h₁
    obtain ⟨a₂, t, hf, hzero, hchan, hbytes, htake, htl⟩ := flush_carry h₁ b.flushTemp b.flushTemp_length
    have h₂ : Carry ch 0 a₂ := ⟨hch, hchan.trans h₁.channels, hbytes ▸ h₁.size, hzero⟩
    refine ⟨{ a₂ with remainingCount := 0 }, [packet, a₁.carried], 0, ?_, by decide,
      ⟨hch, h₂.channels, h₂.size, rfl⟩, ?_, ?_⟩
    · simp only [decodeBlock, he, Option.bind_some, flushEncodeOpus, hguard.mpr hfull, if_true, hf,
        Option.map_some, h₂.opusInput, htake, Option.toList_some]
    · intro p hp
      simp only [List.mem_cons, List.not_mem_nil, or_false] at hp
      rcases hp with rfl | rfl
      · exact hlen
      · have hs := h₁.size
        rw [remainingSize, inputSampleCount, sampleSize, maxChannelCount] at hs
        rw [AgoraAudioContext.carried, List.length_take, h₁.count]
        rcases hch with rfl | rfl <;> omega
    · have hnil : ({ a₂ with remainingCount := 0 } : AgoraAudioContext).carried = [] := List.take_zero ..
      rw [hnil, List.append_nil, ← hcat]
      simp
  · refine ⟨a₁, [packet], n + 1, ?_, by omega, h₁, ?_, ?_⟩
    · simp only [decodeBlock, he, Option.bind_some, flushEncodeOpus, mt hguard.mp hfull, if_false,
        Bool.false_eq_true, Option.map_some, Option.toList_none]
    · intro p hp
      rw [List.mem_singleton.mp hp]
      exact hlen
    · rw [← hcat]
      simp

/-! ## Any number of blocks -/

theorem runBlocks_carry {ch : Nat} : ∀ (bs : List Block) (a : AgoraAudioContext) (n : Nat), Carry ch n a →
    n < 15 → (∀ b ∈ bs, b.samples.length = 2048 * ch) →
    ∃ a' packets m, runBlocks a bs = some (a', packets) ∧ m < 15 ∧ Carry ch m a' ∧
      (∀ p ∈ packets, p.length = 1920 * ch) ∧
      packets.flatten ++ a'.carried = a.carried ++ (bs.map Block.samples).flatten := by
  intro bs
  induction bs with
  | nil => intro a n h hn _; exact ⟨a, [], n, rfl, hn, h, by simp, by simp⟩
  | cons b bs ih =>
    intro a n h hn hb
    have hlen := hb b (by simp)
    obtain ⟨a₁, packets, m, hd, hm, h₁, hp, hcat⟩ := decodeBlock_carry h hn b (Nat.le_of_eq hlen.symm)
    rw [List.take_of_length_le (Nat.le_of_eq hlen)] at hcat
    obtain ⟨a₂, more, k, hr, hk, h₂, hq, hcat₂⟩ := ih a₁ m h₁ hm fun c hc => hb c (by simp [hc])
    refine ⟨a₂, packets ++ more, k, ?_, hk, h₂, ?_, ?_⟩
    · simp only [runBlocks, hd, hr, Option.bind_some, Option.map_some]
    · intro p hpm
      rcases List.mem_append.mp hpm with hpm | hpm
      · exact hp p hpm
      · exact hq p hpm
    · rw [List.flatten_append, List.append_assoc, hcat₂, ← List.append_assoc, hcat, List.map_cons,
        List.flatten_cons, List.append_assoc]

/-- The next block of a run: `remaining_count` stays inside the array between the
two calls, and zeroing it in `flush_encode_opus` finds it zero already. -/
def NextBlockExact (a : AgoraAudioContext) (b : Block) : Prop :=
  ∃ a₁ packet, encodeOpus a b.samples b.temp = some (a₁, packet) ∧
    a₁.remainingCount ≤ a₁.remainingBytes.length ∧
    ∀ a₂ t, a₁.flushes = true → getNextPacket a₁ none 0 b.flushTemp = some (a₂, t) →
      a₂.remainingCount = 0

theorem Carry.count_le {ch n : Nat} {a : AgoraAudioContext} (h : Carry ch n a) (hn : n ≤ 15) :
    a.remainingCount ≤ a.remainingBytes.length := by
  rw [h.count, h.size, remainingSize, inputSampleCount, sampleSize, maxChannelCount]
  rcases h.mono_stereo with rfl | rfl <;> omega

theorem nextBlock_exact {ch n : Nat} {a : AgoraAudioContext} (h : Carry ch n a) (hn : n < 15) (b : Block)
    (hb : b.samples.length = 2048 * ch) : NextBlockExact a b := by
  obtain ⟨a₁, packet, he, h₁, -, -⟩ := encodeOpus_carry h hn b.samples b.temp (Nat.le_of_eq hb.symm)
    b.temp_length
  refine ⟨a₁, packet, he, h₁.count_le hn, fun a₂ t hf hg => ?_⟩
  rw [(h₁.flushes hn).mp hf] at h₁
  obtain ⟨a₂', t', hg', hzero, -⟩ := flush_carry h₁ b.flushTemp b.flushTemp_length
  rw [hg, Option.some.injEq, Prod.mk.injEq] at hg'
  rw [hg'.1]
  exact hzero

/-- Over any number of blocks no byte is lost, repeated or moved: the packets and the bytes
kept are the blocks, and the counters stay inside their array. -/
theorem runBlocks_lossless (a : AgoraAudioContext) (hch : a.channelCount = 1 ∨ a.channelCount = 2)
    (hsize : a.remainingBytes.length = remainingSize) (h0 : a.remainingCount = 0) (bs : List Block)
    (hbs : ∀ b ∈ bs, b.samples.length = inputSampleCount * a.channelCount * sampleSize) :
    ∃ a' packets, runBlocks a bs = some (a', packets) ∧
      (∀ p ∈ packets, p.length = opusSampleCount * a.channelCount * sampleSize) ∧
      packets.flatten ++ a'.remainingBytes.take a'.remainingCount = (bs.map Block.samples).flatten ∧
      a'.remainingCount ≤ a'.remainingBytes.length ∧ a'.remainingBytes.length = remainingSize ∧
      0 ≤ a'.freeBytes ∧
      ∀ b : Block, b.samples.length = inputSampleCount * a.channelCount * sampleSize →
        NextBlockExact a' b := by
  have hin : inputSampleCount * a.channelCount * sampleSize = 2048 * a.channelCount := by
    rw [inputSampleCount, sampleSize]
    ring
  have hpk : opusSampleCount * a.channelCount * sampleSize = 1920 * a.channelCount := by
    rw [opusSampleCount, sampleSize]
    ring
  rw [hin] at hbs ⊢
  rw [hpk]
  have hstart : Carry a.channelCount 0 a := ⟨hch, rfl, hsize, h0⟩
  obtain ⟨a', packets, m, hr, hm, h', hp, hcat⟩ := runBlocks_carry bs a 0 hstart (by decide) hbs
  have hnone : a.carried = [] := by rw [AgoraAudioContext.carried, h0, List.take_zero]
  rw [hnone, List.nil_append] at hcat
  refine ⟨a', packets, hr, hp, hcat, h'.count_le (by omega), h'.size, ?_,
    fun b hb => nextBlock_exact h' hm b hb⟩
  rw [h'.freeBytes (by omega)]
  omega

/-- A block of silence. -/
def silence : Block where
  samples := List.replicate 2048 0
  temp := List.replicate 3840 0xaa
  flushTemp := List.replicate 3840 0xbb
  temp_length := List.length_replicate
  flushTemp_length := List.length_replicate

/-- Fifteen blocks make sixteen packets: the last one flushes. -/
theorem runBlocks_lossless_silence :
    ∃ a' packets,
      runBlocks ⟨1, 0, List.replicate 4096 0xcc⟩ (List.replicate 15 silence) = some (a', packets) ∧
      (∀ p ∈ packets, p.length = opusSampleCount * 1 * sampleSize) ∧
      packets.flatten ++ a'.remainingBytes.take a'.remainingCount =
        ((List.replicate 15 silence).map Block.samples).flatten ∧
      a'.remainingCount ≤ a'.remainingBytes.length ∧ a'.remainingBytes.length = remainingSize ∧
      0 ≤ a'.freeBytes ∧
      ∀ b : Block, b.samples.length = inputSampleCount * 1 * sampleSize → NextBlockExact a' b :=
  runBlocks_lossless ⟨1, 0, List.replicate 4096 0xcc⟩ (.inl rfl) List.length_replicate rfl _ fun b hb => by
    rw [List.eq_of_mem_replicate hb]
    exact List.length_replicate

end Rtmpg.Opus
