import Rtmpg.L1Chain.CustomCopy

/-!
# What the helper takes from nginx-rtmp

`ngx_agora_helper.c` is compiled into nginx-rtmp, whose sources are not part
of this repository. The functions and constants it uses are the fields of
`NginxRtmp`; everything below is stated for an arbitrary one.

* `rmemcpy`: the bytes `ngx_rtmp_rmemcpy` stores, in memory order. It copies
  in reverse (`rmemcpy_rev`), which turns a network-order field into a
  little-endian integer.
* `isCodecHeader`, `isKeyFrame`: `ngx_rtmp_is_codec_header` and
  `ngx_rtmp_get_video_frame_type(..) == NGX_RTMP_VIDEO_KEY_FRAME`.
* `mallocZero`: whether `malloc(0)` is a non-`NULL` pointer, which C leaves
  to the implementation. `malloc` of a positive size succeeds.

A message length is a three-byte field of the RTMP chunk header
(`RtmpHeader.mlen_lt`).
-/
namespace Rtmpg

structure NginxRtmp where
  rmemcpy : Bytes → Bytes
  rmemcpy_rev : ∀ bs, rmemcpy bs = bs.reverse
  videoH264 : Nat
  audioAac : Nat
  isCodecHeader : Chain → Bool
  isKeyFrame : Chain → Bool
  mallocZero : Bool

/-- The fields of `ngx_rtmp_codec_ctx_t` the helper reads; a header that has
not arrived is the `NULL` chain. -/
structure CodecCtx where
  videoCodecId : Nat
  audioCodecId : Nat
  avcNalBytes : Nat
  avcHeader : Chain
  aacHeader : Chain
  deriving DecidableEq, Repr

/-- `ngx_rtmp_header_t`. -/
structure RtmpHeader where
  mlen : Nat
  timestamp : Nat
  mlen_lt : mlen < 2 ^ 24

namespace NginxRtmp

/-- An integer copied with `ngx_rtmp_rmemcpy` into a zeroed variable. -/
def readInt (R : NginxRtmp) (field : Bytes) : Nat := Bytes.leNat (R.rmemcpy field)

/-- nginx-rtmp as released, and a C library whose `malloc(0)` is not `NULL`. -/
def released : NginxRtmp where
  rmemcpy := List.reverse
  rmemcpy_rev _ := rfl
  videoH264 := 7
  audioAac := 10
  isCodecHeader c := match c with
    | (_ :: 0 :: _) :: _ => true
    | _ => false
  isKeyFrame c := match c with
    | (b :: _) :: _ => (b &&& 0xf0) >>> 4 = 1
    | _ => false
  mallocZero := true

theorem readInt_eq (R : NginxRtmp) (field : Bytes) : R.readInt field = Bytes.beNat field := by
  rw [readInt, R.rmemcpy_rev, Bytes.beNat]

end NginxRtmp

end Rtmpg
