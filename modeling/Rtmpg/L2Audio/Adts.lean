import Rtmpg.Core.AdtsFormat
import Rtmpg.Core.Mem
import Rtmpg.L1Chain.Nginx

/-!
# ADTS framing of AAC messages (`ngx_agora_send_audio`)

`ngx_agora_helper.c:663-861`: an AAC message is copied into one reused buffer
behind five free bytes, an ADTS header is written over these and the two
bytes of RTMP audio header, and the frame is given to `decode_acc_audio` when
the next message arrives.

`NgxBuf` is the buffer by offsets from `start`; its memory is not cleared.
`allocate_buffer` succeeds with stale content, fails before there is a buffer
(`b` stays `NULL`, and the caller dereferences it: the result is `none`), or
leaves a buffer without memory. A call of `decode_acc_audio` is represented
by its arguments: it neither reads nor changes the buffer otherwise.
-/
namespace Rtmpg.Adts

open Rtmpg.Bytes Rtmpg.Chain

/-- `MAX_AUDIO_BUFFER_SIZE` -/
def maxAudioBufferSize : Nat := 2 * 1024

/-- `ngx_buf_t`, `mem` being the bytes in `[start, end)`. -/
structure NgxBuf where
  mem : Bytes
  pos : Nat
  last : Nat
  deriving DecidableEq, Repr

/-- The bytes in `[pos, last)`. -/
def NgxBuf.content (b : NgxBuf) : Bytes := (b.mem.take b.last).drop b.pos

/-- `b` of `agora_audio_context_t`. -/
structure AudioCtx where
  b : Option NgxBuf
  deriving DecidableEq, Repr

def AudioCtx.content (a : AudioCtx) : Bytes :=
  match a.b with
  | none => []
  | some b => b.content

/-- What the allocator does in `allocate_buffer`. -/
inductive Alloc where
  | ok (stale : Bytes) (size : stale.length = maxAudioBufferSize)
  | noBuf
  | noStart

/-- mirrors ngx_agora_helper.c:738-754 -/
def allocateBuffer : Alloc → Option NgxBuf
  | .ok stale _ => some ⟨stale, 0, 0⟩
  | .noBuf => none
  | .noStart => some ⟨[], 0, 0⟩

/-- A call of `decode_acc_audio`. -/
structure DecodeCall where
  data : Bytes
  timestamp : Nat
  deriving DecidableEq, Repr

/-- mirrors ngx_agora_helper.c:663-680 -/
def ngxFlushAudio (h : RtmpHeader) (b : NgxBuf) : NgxBuf × List DecodeCall :=
  if b.pos = b.last then (b, [])
  else
    let bufferSize := (b.last - b.pos) % 2 ^ 16
    ({ b with pos := 0, last := 0 }, [⟨(b.mem.drop b.pos).take bufferSize, h.timestamp⟩])

/-- `NGX_ERROR` is `none`.
mirrors ngx_agora_helper.c:682-736 -/
def ngxParseAacHeader (codec : CodecCtx) : Option (Nat × Nat × Nat) :=
  let skip := ngxCustomCopy 2 codec.aacHeader
  if skip.rc = .error then none
  else
    let r₀ := ngxCustomCopy 1 skip.rest
    if r₀.rc = .error then none
    else
      let r₁ := ngxCustomCopy 1 r₀.rest
      if r₁.rc = .error then none
      else
        let b₀ := (r₀.dst.headD 0).toNat
        let b₁ := (r₁.dst.headD 0).toNat
        let objtype := b₀ >>> 3
        if objtype = 0 ∨ objtype = 0x1f then none
        else
          let objtype := if 4 < objtype then 2 else objtype
          let srindex := ((b₀ <<< 1) &&& 0x0f) ||| ((b₁ &&& 0x80) >>> 7)
          if srindex = 0x0f then none
          else some (objtype, srindex, (b₁ >>> 3) &&& 0x0f)

/-- The seven bytes stored at `p`.
mirrors ngx_agora_helper.c:842-849 -/
def adtsHeader (objtype srindex chconf size : Nat) : Bytes :=
  [0xff, 0xf1,
    UInt8.ofNat (((objtype - 1) <<< 6) ||| (srindex <<< 2) ||| ((chconf &&& 0x04) >>> 2)),
    UInt8.ofNat (((chconf &&& 0x03) <<< 6) ||| ((size >>> 11) &&& 0x03)),
    UInt8.ofNat (size >>> 3),
    UInt8.ofNat ((size <<< 5) ||| 0x1f),
    0xfc]

/-- Store at `last` and advance it. -/
def NgxBuf.append (b : NgxBuf) (bs : Bytes) : NgxBuf :=
  { b with mem := Mem.store b.mem b.last bs, last := b.last + bs.length }

/-- The payload loop; it stops at the end of the chain or of the buffer.
mirrors ngx_agora_helper.c:818-827 -/
def copyPayload : Chain → NgxBuf → NgxBuf
  | [], b => b
  | cur :: next, b =>
    if b.last < b.mem.length then copyPayload next (b.append (cur.take (b.mem.length - b.last))) else b

/-- From `p = b->last` on; a rejected `aac_header` leaves the payload behind.
mirrors ngx_agora_helper.c:814-860 -/
def appendFrame (codec : CodecCtx) (size : Nat) (msg : Chain) (b : NgxBuf) : NgxBuf :=
  let p := b.last
  let b := copyPayload msg { b with last := b.last + 5 }
  match ngxParseAacHeader codec with
  | none => b
  | some (objtype, srindex, chconf) =>
    { b with mem := Mem.store b.mem p (adtsHeader objtype srindex chconf size) }

/-- `ctx` is `none` when `ctx` or `ctx->audio_context` is `NULL`. The result is the
context after the call and the calls of `decode_acc_audio`.
mirrors ngx_agora_helper.c:755-861 -/
def ngxAgoraSendAudio (R : NginxRtmp) (alloc : Alloc) (codec : Option CodecCtx) (h : RtmpHeader)
    (msg : Chain) (ctx : Option AudioCtx) : Option (Option AudioCtx × List DecodeCall) :=
  match ctx, codec with
  | none, _ => some (none, [])
  | some a, none => some (some a, [])
  | some a, some codec =>
    if h.mlen < 2 then some (some a, [])
    else if codec.audioCodecId ≠ R.audioAac ∨ codec.aacHeader = [] ∨ R.isCodecHeader msg = true then
      some (some a, [])
    else
      match a.b.or (allocateBuffer alloc) with
      | none => none
      | some b =>
        let size := h.mlen - 2 + 7
        if b.mem.length < size then some (some ⟨some b⟩, [])
        else
          let f := if b.pos < b.last then ngxFlushAudio h b else (b, [])
          let g := if f.1.mem.length < f.1.last + size then ngxFlushAudio h f.1 else (f.1, [])
          if g.1.mem.length < g.1.last + 7 then some (some ⟨some g.1⟩, f.2 ++ g.2)
          else some (some ⟨some (appendFrame codec size msg g.1)⟩, f.2 ++ g.2)

/-- One delivered message, with what the allocator would do during its call. -/
structure AudioMessage where
  codec : Option CodecCtx
  h : RtmpHeader
  chain : Chain
  alloc : Alloc

def runAudio (R : NginxRtmp) (ctx : Option AudioCtx) :
    List AudioMessage → Option (Option AudioCtx × List DecodeCall)
  | [] => some (ctx, [])
  | m :: ms =>
    (ngxAgoraSendAudio R m.alloc m.codec m.h m.chain ctx).bind fun (ctx, calls) =>
    (runAudio R ctx ms).map fun (ctx, more) => (ctx, calls ++ more)

/-! ## The payload loop, on flat bytes -/

theorem append_append (b : NgxBuf) (as bs : Bytes) (h : b.last + as.length ≤ b.mem.length) :
    (b.append as).append bs = b.append (as ++ bs) := by
  have hlast : b.last ≤ b.mem.length := by omega
  simp only [NgxBuf.append, Mem.store_store as bs hlast, List.length_append, Nat.add_assoc]

theorem append_nil (b : NgxBuf) : b.append [] = b := by simp [NgxBuf.append, Mem.store_nil]

/-- The loop copies what fits. -/
theorem copyPayload_eq : ∀ (c : Chain) (b : NgxBuf), b.last ≤ b.mem.length →
    copyPayload c b = b.append ((flat c).take (b.mem.length - b.last))
  | [], b, _ => by rw [copyPayload, flat, List.flatten_nil, List.take_nil, append_nil]
  | cur :: next, b, h => by
    rw [copyPayload]
    split
    · have hlen : (cur.take (b.mem.length - b.last)).length ≤ b.mem.length - b.last :=
        List.length_take_le _ _
      have hmem : (b.append (cur.take (b.mem.length - b.last))).mem.length = b.mem.length :=
        Mem.store_length (by omega)
      have hlast : (b.append (cur.take (b.mem.length - b.last))).last =
        b.last + (cur.take (b.mem.length - b.last)).length := rfl
      have hf : flat (cur :: next) = cur ++ flat next := rfl
      rw [copyPayload_eq next _ (by omega), hmem, hlast, append_append _ _ _ (by omega), hf,
        List.take_append]
      congr 3
      rw [List.length_take]
      omega
    · have : b.mem.length - b.last = 0 := by omega
      rw [this, List.take_zero, append_nil]

end Rtmpg.Adts
