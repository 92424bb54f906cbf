import Rtmpg.L1Chain.Nginx

/-!
# Video conversion (`avcc_to_annexb`)

`ngx_agora_helper.c:62-430`: an RTMP video message in AVCC form (every NAL
unit behind its length) becomes an Annex B byte stream in a static buffer of
`bufSize` bytes, with an access unit delimiter and the parameter sets of
`avc_header` inserted.

The buffer is `Out`: its capacity, the bytes up to `out.last`, and `hi`, the
end of the furthest byte stored so far. A store behind `out.last` that is
not followed by an advance of `out.last` (a body copy that fails) only
raises `hi`.

`nnals` is an `int8_t`; `nnalsTurns` bounds the turns of the `for` loops by
one more than the largest value of a byte. The fuel of `convLoop` is the
number of bytes of the message. `none` stands for a call that does not
return: `avc_nal_bytes = 0` never leaves the `while` loop, more than four
length bytes overrun `rlen`, and a `NULL` message is dereferenced.

Logging, and `ftype` and `cts`, which no statement reads, are left out.
-/
namespace Rtmpg.Video

open Rtmpg.Bytes Rtmpg.Chain

/-- `NGX_RTMP_HLS_BUFSIZE` -/
def bufSize : Nat := 1024 * 1024

/-! ## The output buffer -/

/-- `ngx_buf_t out`, by offsets from `out.start`. -/
structure Out where
  cap : Nat
  data : Bytes
  hi : Nat
  deriving DecidableEq, Repr

def Out.empty (cap : Nat) : Out := ⟨cap, [], 0⟩

/-- `hi` after a store of `bs` at `out.last`. -/
def Out.reach (o : Out) (bs : Bytes) : Nat :=
  if bs = [] then o.hi else max o.hi (o.data.length + bs.length)

/-- Store at `out.last`, which stays. -/
def Out.store (o : Out) (bs : Bytes) : Out := { o with hi := o.reach bs }

/-- Store at `out.last` and advance it. -/
def Out.push (o : Out) (bs : Bytes) : Out := { o with data := o.data ++ bs, hi := o.reach bs }

/-- `out.end - out.last < n`, on signed differences. -/
def Out.lacks (o : Out) (n : Nat) : Bool := decide (o.cap < o.data.length + n)

@[simp] theorem push_cap (o : Out) (bs : Bytes) : (o.push bs).cap = o.cap := rfl
@[simp] theorem push_data (o : Out) (bs : Bytes) : (o.push bs).data = o.data ++ bs := rfl
@[simp] theorem store_cap (o : Out) (bs : Bytes) : (o.store bs).cap = o.cap := rfl
@[simp] theorem store_data (o : Out) (bs : Bytes) : (o.store bs).data = o.data := rfl

theorem lacks_eq_false {o : Out} {n : Nat} : o.lacks n = false ↔ o.data.length + n ≤ o.cap := by
  simp [Out.lacks]

theorem push_nil (o : Out) : o.push [] = o := by simp [Out.push, Out.reach]

theorem push_push (o : Out) (as bs : Bytes) : (o.push as).push bs = o.push (as ++ bs) := by
  simp only [Out.push, Out.reach, List.append_assoc, List.length_append, List.append_eq_nil_iff,
    Out.mk.injEq, true_and]
  by_cases ha : as = [] <;> by_cases hb : bs = [] <;> simp [ha, hb]
  omega

/-- `aud_nal` -/
def audNal : Bytes := [0x00, 0x00, 0x00, 0x01, 0x09, 0xf0]

/-- mirrors ngx_agora_helper.c:62-73 -/
def appendAud (o : Out) : Rc × Out :=
  if o.lacks audNal.length then (.error, o) else (.ok, o.push audNal)

/-! ## SPS and PPS -/

/-- One turn of the inner `for` loop: a parameter set behind its 16-bit length.
mirrors ngx_agora_helper.c:175-210 -/
def appendHeaderNal (R : NginxRtmp) (p : Chain) (o : Out) : Rc × Chain × Out :=
  let r := ngxCustomCopy 2 p
  if r.rc = .error then (.error, r.rest, o)
  else
    let len := R.readInt r.dst
    if o.lacks 4 then (.error, r.rest, o)
    else
      let o := o.push [0, 0, 0, 1]
      if o.lacks len then (.error, r.rest, o)
      else
        let k := ngxCustomCopy len r.rest
        if k.rc = .error then (.error, k.rest, o.store k.dst) else (.ok, k.rest, o.push k.dst)

/-- `for (; nnals; --nnals)`, on the wrapping `int8_t`.
mirrors ngx_agora_helper.c:174-210 -/
def headerLoop (R : NginxRtmp) : Nat → Int8 → Chain → Out → Rc × Chain × Out
  | 0, _, p, o => (.ok, p, o)
  | turns + 1, nnals, p, o =>
    if nnals = 0 then (.ok, p, o)
    else
      match appendHeaderNal R p o with
      | (.error, p, o) => (.error, p, o)
      | (.ok, p, o) => headerLoop R turns (nnals - 1) p o

def nnalsTurns : Nat := 256

/-- mirrors ngx_agora_helper.c:122-226 -/
def appendSpsPps (R : NginxRtmp) (codec : CodecCtx) (o : Out) : Rc × Out :=
  let skip := ngxCustomCopy 10 codec.avcHeader
  if skip.rc = .error then (.error, o)
  else
    let c := ngxCustomCopy 1 skip.rest
    if c.rc = .error then (.error, o)
    else
      match headerLoop R nnalsTurns ((c.dst.headD 0).toInt8 &&& 0x1f) c.rest o with
      | (.error, _, o) => (.error, o)
      | (.ok, p, o) =>
        let c := ngxCustomCopy 1 p
        if c.rc = .error then (.error, o)
        else
          match headerLoop R nnalsTurns (c.dst.headD 0).toInt8 c.rest o with
          | (.error, _, o) => (.error, o)
          | (.ok, _, o) => (.ok, o)

/-! ## The conversion loop -/

/-- The variables of the `while` loop. -/
structure Conv where
  rest : Chain
  out : Out
  audSent : Bool
  spsPpsSent : Bool
  deriving DecidableEq, Repr

/-- How a turn of the loop ends: with the next turn, or with a `return`. -/
inductive Turn where
  | next (s : Conv)
  | ret (rc : Rc)
  deriving DecidableEq, Repr

/-- `if (!aud_sent) switch (nal_type)`; a failing `append_aud` is logged only.
mirrors ngx_agora_helper.c:327-341 -/
def audSwitch (nalType : UInt8) (s : Conv) : Conv :=
  if s.audSent then s
  else if nalType = 1 ∨ nalType = 5 ∨ nalType = 6 then
    { s with out := (appendAud s.out).2, audSent := true }
  else if nalType = 9 then { s with audSent := true }
  else s

/-- The second `switch (nal_type)`; a failing `append_sps_pps` is logged only.
mirrors ngx_agora_helper.c:343-357 -/
def spsPpsSwitch (R : NginxRtmp) (codec : CodecCtx) (nalType : UInt8) (s : Conv) : Conv :=
  if nalType = 1 then { s with spsPpsSent := false }
  else if nalType = 5 then
    if s.spsPpsSent then s
    else { s with out := (appendSpsPps R codec s.out).2, spsPpsSent := true }
  else s

/-- The Annex B prefix, long at the very start of the buffer, and the type byte.
mirrors ngx_agora_helper.c:367-376 -/
def prefixBytes (o : Out) (srcNalType : UInt8) : Bytes :=
  (if o.data = [] then [0] else []) ++ [0, 0, 1, srcNalType]

/-- One turn of `while (in)`: on to the `next` turn, or a `return` (`ret`) that leaves the
buffer behind.
mirrors ngx_agora_helper.c:299-391 -/
def turnWith {α : Type} (ret : Rc → Out → α) (next : Conv → α) (R : NginxRtmp) (codec : CodecCtx)
    (s : Conv) : α :=
  let l := ngxCustomCopy codec.avcNalBytes s.rest
  if l.rc = .error then ret .ok s.out
  else
    let len := R.readInt l.dst
    if len = 0 then next { s with rest := l.rest }
    else
      let t := ngxCustomCopy 1 l.rest
      if t.rc = .error then ret .ok s.out
      else
        let srcNalType := t.dst.headD 0
        let nalType := srcNalType &&& 0x1f
        if 7 ≤ nalType ∧ nalType ≤ 9 then
          let k := ngxCustomCopy (len - 1) t.rest
          if k.rc = .error then ret .error s.out else next { s with rest := k.rest }
        else
          let s := spsPpsSwitch R codec nalType (audSwitch nalType s)
          if s.out.lacks 5 then ret .ok s.out
          else
            let o := s.out.push (prefixBytes s.out srcNalType)
            if o.lacks len then ret .ok o
            else
              let k := ngxCustomCopy (len - 1) t.rest
              if k.rc = .error then ret .error (o.store k.dst)
              else next { s with rest := k.rest, out := o.push k.dst }

/-- What the loop goes by. -/
def nalTurn : NginxRtmp → CodecCtx → Conv → Turn := turnWith (fun rc _ => .ret rc) .next

/-- `out` at the end of a turn, with the next turn or with a `return`. -/
def turnOut : NginxRtmp → CodecCtx → Conv → Out := turnWith (fun _ o => o) Conv.out

/-- How the loop ends: it leaves the chain used up with `out` filled, or returns
from inside. -/
inductive Done where
  | filled (o : Out)
  | ret (rc : Rc)
  deriving DecidableEq, Repr

def convLoop (R : NginxRtmp) (codec : CodecCtx) : Nat → Conv → Option Done
  | fuel, s =>
    if s.rest = [] then some (.filled s.out)
    else if 4 < codec.avcNalBytes then none
    else
      match fuel with
      | 0 => none
      | fuel + 1 =>
        match nalTurn R codec s with
        | .ret rc => some (.ret rc)
        | .next s => convLoop R codec fuel s

/-- The return value of `avcc_to_annexb` and `*out_buffer` (`none`: left `NULL`). -/
structure Annexb where
  ret : Int
  outBuffer : Option Bytes
  deriving DecidableEq, Repr

/-- `malloc` and `memcpy` of the filled part of the buffer.
mirrors ngx_agora_helper.c:394-400 -/
def deliver (R : NginxRtmp) (o : Out) : Annexb :=
  ⟨o.data.length, if o.data = [] ∧ R.mallocZero = false then none else some o.data⟩

/-- mirrors ngx_agora_helper.c:228-401 -/
def avccToAnnexb (R : NginxRtmp) (codec : Option CodecCtx) (h : RtmpHeader) (msg : Chain) :
    Option Annexb :=
  match codec with
  | none => some ⟨0, none⟩
  | some codec =>
    if codec.avcHeader = [] ∨ h.mlen < 1 then some ⟨0, none⟩
    else if codec.videoCodecId ≠ R.videoH264 then some ⟨0, none⟩
    else if msg = [] then none
    else
      let fmt := ngxCustomCopy 1 msg
      if fmt.rc = .error then some ⟨-1, none⟩
      else
        let htype := ngxCustomCopy 1 fmt.rest
        if htype.rc = .error then some ⟨-1, none⟩
        else if htype.dst ≠ [1] then some ⟨0, none⟩
        else
          let cts := ngxCustomCopy 3 htype.rest
          if cts.rc = .error then some ⟨-1, none⟩
          else
            match convLoop R codec (flat msg).length ⟨cts.rest, Out.empty bufSize, false, false⟩ with
            | none => none
            | some (.ret rc) => some ⟨rc.toInt, none⟩
            | some (.filled o) => some (deliver R o)

/-! ## Handing the frame on -/

/-- The arguments of one call of `agora_send_video`. -/
structure SendVideo where
  buffer : Bytes
  len : Int
  isKeyFrame : Bool
  timestamp : Nat
  deriving DecidableEq, Repr

/-- `connected`: `ctx != NULL`. The result is the return value and the call of
`agora_send_video`, if there is one.
mirrors ngx_agora_helper.c:403-430 -/
def ngxAgoraSendVideo (R : NginxRtmp) (connected : Bool) (codec : Option CodecCtx) (h : RtmpHeader)
    (msg : Chain) : Option (Int × Option SendVideo) :=
  if connected = false then some (0, none)
  else
    match avccToAnnexb R codec h msg with
    | none => none
    | some ⟨_, none⟩ => some (0, none)
    | some ⟨len, some buffer⟩ => some (len, some ⟨buffer, len, R.isKeyFrame msg, h.timestamp⟩)

end Rtmpg.Video
