import Rtmpg.Core.AnnexB
import Rtmpg.L2Video.Convert

/-!
# What the video conversion is for

The purpose of `avcc_to_annexb`, without chains, cursors or buffers: the
`avc_header` is the encoding of an `AvcConfig`, a message the encoding of a
list of NAL units, and the frame to deliver is their `translation`:

* zero-length units and units of type 7, 8 and 9 are dropped;
* an access unit delimiter stands before the first unit of type 1, 5 or 6;
* the SPS and then the PPS of the header stand before a unit of type 5,
  unless they were emitted since the last unit of type 1 (or the start);
* delimiter and parameter sets have the long start code, a kept unit the
  short one unless it is the first thing emitted.
-/
namespace Rtmpg.Video

open Rtmpg.Bytes Rtmpg.AnnexB

/-! ## The AVC configuration message -/

/-- A NAL unit a 16-bit length can announce. -/
def ParamSet (u : Bytes) : Prop := u ≠ [] ∧ u.length < 65536

instance (u : Bytes) : Decidable (ParamSet u) := inferInstanceAs (Decidable (_ ∧ _))

/-- A well-formed configuration message: ten bytes the parser skips, the SPS
count in the low five bits of a byte, the SPS, the PPS count, the PPS. -/
structure AvcConfig where
  skipped : Bytes
  spsCount : UInt8
  sps : List Bytes
  pps : List Bytes
  trailing : Bytes
  skipped_length : skipped.length = 10
  spsCount_eq : (spsCount &&& 0x1f).toNat = sps.length
  sps_ok : ∀ u ∈ sps, ParamSet u
  pps_length : pps.length < 256
  pps_ok : ∀ u ∈ pps, ParamSet u

def AvcConfig.encode (c : AvcConfig) : Bytes :=
  c.skipped ++ (c.spsCount :: frames 2 c.sps) ++
    (UInt8.ofNat c.pps.length :: frames 2 c.pps) ++ c.trailing

/-- A video message: `fmt`, 1, the three `cts` bytes, and the units behind their
lengths of `nalBytes` bytes. -/
def encodeMessage (nalBytes : Nat) (fmt : UInt8) (cts : Bytes) (us : List Bytes) : Bytes :=
  fmt :: 1 :: cts ++ frames nalBytes us

/-! ## The translation -/

/-- `nal_unit_type` -/
def nalTypeOf (u : Bytes) : UInt8 := u.headD 0 &&& 0x1f

/-- Zero-length units, SPS, PPS and delimiters of the sender. -/
def Dropped (u : Bytes) : Prop := u = [] ∨ (7 ≤ nalTypeOf u ∧ nalTypeOf u ≤ 9)

instance (u : Bytes) : Decidable (Dropped u) := inferInstanceAs (Decidable (_ ∨ _))

def WantsAud (u : Bytes) : Prop := nalTypeOf u = 1 ∨ nalTypeOf u = 5 ∨ nalTypeOf u = 6

instance (u : Bytes) : Decidable (WantsAud u) := inferInstanceAs (Decidable (_ ∨ _))

def audUnit : Nalu := ⟨true, [0x09, 0xf0]⟩

def paramUnits (c : AvcConfig) : List Nalu := (c.sps ++ c.pps).map (Nalu.mk true)

/-- What has been emitted so far: anything, the delimiter, the parameter sets
since the last unit of type 1. -/
structure Emitted where
  any : Bool
  aud : Bool
  params : Bool
  deriving DecidableEq, Repr

def Emitted.none : Emitted := ⟨false, false, false⟩

/-- The delimiter and the parameter sets that go in front of the kept unit `u`. -/
def inserted (c : AvcConfig) (e : Emitted) (u : Bytes) : List Nalu :=
  (if e.aud = false ∧ WantsAud u then [audUnit] else []) ++
    (if nalTypeOf u = 5 ∧ e.params = false then paramUnits c else [])

def Emitted.after (e : Emitted) (u : Bytes) : Emitted where
  any := true
  aud := e.aud || decide (WantsAud u)
  params := if nalTypeOf u = 1 then false else if nalTypeOf u = 5 then true else e.params

def translateFrom (c : AvcConfig) (e : Emitted) : List Bytes → List Nalu
  | [] => []
  | u :: us =>
    if Dropped u then translateFrom c e us
    else
      inserted c e u ++ ⟨!e.any && (inserted c e u).isEmpty, u⟩ ::
        translateFrom c (e.after u) us

/-- The units of the frame to deliver. -/
def translate (c : AvcConfig) (us : List Bytes) : List Nalu := translateFrom c .none us

/-- Its bytes. -/
def translation (c : AvcConfig) (us : List Bytes) : Bytes := serialize (translate c us)

end Rtmpg.Video
