import Rtmpg.Core.Bytes

/-!
# ADTS headers and the AudioSpecificConfig

The two bit formats of AAC in a stream, read as the standard lays them out:
`field bs off w` is the unsigned value of the `w` bits of `bs` from bit `off`
on, most significant bit first.

* `AdtsHeader.parse`: the 56 bits of a header without CRC.
* `AudioConfig.parse`: object type, sampling index and channel configuration.
  The escape values 31 and 15, which make the config longer, are not read.
-/
namespace Rtmpg.AdtsFormat

open Rtmpg.Bytes

def field (bs : Bytes) (off w : Nat) : Nat := beNat bs / 2 ^ (8 * bs.length - off - w) % 2 ^ w

structure AdtsHeader where
  syncword : Nat
  mpeg2 : Nat
  layer : Nat
  protectionAbsent : Nat
  profile : Nat
  samplingIndex : Nat
  privateBit : Nat
  channelConfig : Nat
  original : Nat
  home : Nat
  copyrightBit : Nat
  copyrightStart : Nat
  frameLength : Nat
  fullness : Nat
  rawBlocks : Nat
  deriving DecidableEq, Repr

/-- The header in the first seven bytes of `bs`. -/
def AdtsHeader.parse (bs : Bytes) : Option AdtsHeader :=
  let h := bs.take 7
  if h.length < 7 then none
  else some {
    syncword := field h 0 12
    mpeg2 := field h 12 1
    layer := field h 13 2
    protectionAbsent := field h 15 1
    profile := field h 16 2
    samplingIndex := field h 18 4
    privateBit := field h 22 1
    channelConfig := field h 23 3
    original := field h 26 1
    home := field h 27 1
    copyrightBit := field h 28 1
    copyrightStart := field h 29 1
    frameLength := field h 30 13
    fullness := field h 43 11
    rawBlocks := field h 54 2 }

structure AudioConfig where
  objectType : Nat
  samplingIndex : Nat
  channelConfig : Nat
  deriving DecidableEq, Repr

def AudioConfig.parse (bs : Bytes) : Option AudioConfig :=
  let c := bs.take 2
  if c.length < 2 ∨ field c 0 5 = 31 ∨ field c 5 4 = 15 then none
  else some ⟨field c 0 5, field c 5 4, field c 9 4⟩

theorem beNat_two (b₀ b₁ : UInt8) : beNat [b₀, b₁] = 256 * b₀.toNat + b₁.toNat := by
  simp [beNat, leNat]
  omega

theorem beNat_seven (b₀ b₁ b₂ b₃ b₄ b₅ b₆ : UInt8) : beNat [b₀, b₁, b₂, b₃, b₄, b₅, b₆] =
    281474976710656 * b₀.toNat + 1099511627776 * b₁.toNat + 4294967296 * b₂.toNat + 16777216 * b₃.toNat +
      65536 * b₄.toNat + 256 * b₅.toNat + b₆.toNat := by
  simp [beNat, leNat]
  omega

end Rtmpg.AdtsFormat
