import Rtmpg.Core.Binary
import Rtmpg.L2Audio.Decode

/-!
# Floats to 16-bit samples (`convert_audio_sample_f32_s16`)

`ngx_agora_helper.c:432-458` in the arithmetic of the machine: `float` is
binary32, in memory with the low byte first, the product with 32768 and the
difference with 1 are each rounded to the nearest `float`, the conversion to
`int16_t` truncates. Where C leaves that conversion open, for a number with
an integral part out of range and for what is not a number, it is the
parameter `undefined`.

* `scaledValue_range`: of the numbers between -1 and 1 one is out of range, the
  one next to -1: with 1 taken off it is a tie, and goes to -32769.
* `scaledValue_close`: all others come out below 32768 times the number, by
  less than 2.
* `sample_mono`: a larger float is never a smaller sample.
* `quantised_samples`: all this of a list of floats, in the bytes their samples are left as.
-/
namespace Rtmpg.Opus

open Rtmpg.Bytes Rtmpg.Binary

abbrev binary32 : Format := interchange 8 23

/-- `x * 32768 - 1` without its fraction. -/
def scaledValue (v : ℚ) : ℤ := truncate (binary32.round (binary32.round (v * 32768) - 1))

def InRange (n : ℤ) : Prop := -32768 ≤ n ∧ n ≤ 32767

instance (n : ℤ) : Decidable (InRange n) := inferInstanceAs (Decidable (_ ∧ _))

def ieee (undefined : Datum → ℤ) : FloatFormat Datum where
  ofBytes b := decode 8 23 (leNat b)
  geOne
    | .nan => false
    | .inf negative => !negative
    | .finite v => decide (1 ≤ v)
  leNegOne
    | .nan => false
    | .inf negative => negative
    | .finite v => decide (v ≤ -1)
  scaled
    | .finite v => if InRange (scaledValue v) then scaledValue v else undefined (.finite v)
    | x => undefined x

/-! ## Between -1 and 1 -/

/-- The `float` next to -1. -/
def edge : ℚ := -(1 - 1 / 2 ^ 24)

theorem binary32_prec : (2 : ℤ) ^ binary32.prec = 16777216 := rfl

theorem binary32_scaled {v : ℚ} (h : binary32.Holds v) : binary32.round (v * 32768) = v * 32768 := by
  have hscale := h.scale 15
  norm_num at hscale
  exact Format.round_eq hscale

theorem scaledValue_mono {v w : ℚ} (h : v ≤ w) : scaledValue v ≤ scaledValue w := by
  refine truncate_mono (binary32.round_mono ?_)
  have := binary32.round_mono (mul_le_mul_of_nonneg_right h (show (0 : ℚ) ≤ 32768 by norm_num))
  linarith

/-- Truncation and rounding stay between two neighbouring integers. -/
theorem scaledValue_between {v : ℚ} (h : binary32.Holds v) (hlow : -1 < v) (hhigh : v < 1) :
    ⌊v * 32768 - 1⌋ ≤ scaledValue v ∧ scaledValue v ≤ ⌈v * 32768 - 1⌉ := by
  have hfloor : -32769 ≤ ⌊v * 32768 - 1⌋ := Int.le_floor.mpr (by push_cast; linarith)
  have hceil : ⌈v * 32768 - 1⌉ ≤ 32767 := Int.ceil_le.mpr (by push_cast; linarith)
  have horder := (Int.floor_le_ceil (v * 32768 - 1))
  have hbelow := Format.floor_le_round (f := binary32) (by decide) (v := v * 32768 - 1)
    (abs_le.mpr (by rw [binary32_prec]; omega))
  have habove := Format.round_le_ceil (f := binary32) (by decide) (v := v * 32768 - 1)
    (abs_le.mpr (by rw [binary32_prec]; omega))
  rw [scaledValue, binary32_scaled h]
  constructor
  · rw [← truncate_intCast ⌊v * 32768 - 1⌋]
    exact truncate_mono hbelow
  · rw [← truncate_intCast ⌈v * 32768 - 1⌉]
    exact truncate_mono habove

theorem scaledValue_close {v : ℚ} (h : binary32.Holds v) (hlow : -1 < v) (hhigh : v < 1) :
    -2 < scaledValue v - 32768 * v ∧ scaledValue v - 32768 * v < 0 := by
  obtain ⟨hfloor, hceil⟩ := scaledValue_between h hlow hhigh
  have hf : (⌊v * 32768 - 1⌋ : ℚ) ≤ scaledValue v := by exact_mod_cast hfloor
  have hc : (scaledValue v : ℚ) ≤ ⌈v * 32768 - 1⌉ := by exact_mod_cast hceil
  have := Int.lt_floor_add_one (v * 32768 - 1)
  have := Int.ceil_lt_add_one (v * 32768 - 1)
  constructor <;> linarith

theorem edge_holds : binary32.Holds edge := ⟨-16777215, -24, by decide, by decide, by norm_num [edge]⟩

/-- The tie: with its last bit 0, -32769 is the even neighbour. -/
theorem scaledValue_edge : scaledValue edge = -32769 := by decide +kernel

/-- Behind the edge the next `float` is two steps above -1. -/
theorem edge_next {v : ℚ} (h : binary32.Holds v) (hlow : -1 < v) (hne : v ≠ edge) : -(1 - 1 / 2 ^ 23) ≤ v := by
  by_contra hlt
  rw [not_le] at hlt
  norm_num at hlt
  have hexp : binary32.exponent v = -24 := by
    have habs : |v| = -v := abs_of_neg (by linarith)
    exact Format.exponent_eq (by decide) (by rw [habs]; norm_num [interchange]; linarith)
      (by rw [habs]; norm_num [interchange]; linarith)
  obtain ⟨n, hn⟩ := h.multiple
  rw [hexp] at hn
  norm_num at hn
  have hn₀ : -16777216 < n := by
    have : (-16777216 : ℚ) < n := by linarith
    exact_mod_cast this
  have hn₁ : n < -16777214 := by
    have : (n : ℚ) < -16777214 := by linarith
    exact_mod_cast this
  obtain rfl : n = -16777215 := by omega
  exact hne (by rw [hn, edge]; norm_num)

theorem scaledValue_range {v : ℚ} (h : binary32.Holds v) (hlow : -1 < v) (hhigh : v < 1) :
    InRange (scaledValue v) ↔ v ≠ edge := by
  constructor
  · rintro hrange rfl
    rw [scaledValue_edge] at hrange
    exact absurd hrange (by decide)
  · intro hne
    obtain ⟨-, hceil⟩ := scaledValue_between h hlow hhigh
    have htop : ⌈v * 32768 - 1⌉ ≤ 32767 := Int.ceil_le.mpr (by push_cast; linarith)
    have hnext := scaledValue_mono (edge_next h hlow hne)
    have hbottom : scaledValue (-(1 - 1 / 2 ^ 23)) = -32768 := by decide +kernel
    exact ⟨hbottom ▸ hnext, hceil.trans htop⟩

/-! ## One sample -/

/-- The branch the float takes has a result in C. -/
def Defined : Datum → Prop
  | .nan => False
  | .inf _ => True
  | .finite v => 1 ≤ v ∨ v ≤ -1 ∨ InRange (scaledValue v)

/-- The sample is the float's. -/
def Follows : Datum → ℤ → Prop
  | .nan, _ => False
  | .inf negative, n => n = if negative then -32768 else 32767
  | .finite v, n =>
    (1 ≤ v → n = 32767) ∧ (v ≤ -1 → n = -32768) ∧ (-1 < v → v < 1 → -2 < n - 32768 * v ∧ n - 32768 * v < 0)

/-- One of the numbers a `float` can be. -/
def IsFloat (x : Datum) : Prop := ∀ v, x = .finite v → binary32.Holds v

variable (undefined : Datum → ℤ)

theorem defined_iff {x : Datum} (hx : IsFloat x) : Defined x ↔ x ≠ .nan ∧ x ≠ .finite edge := by
  cases x with
  | nan => exact ⟨False.elim, fun h => h.1 rfl⟩
  | inf negative => exact iff_of_true trivial (by simp)
  | finite v =>
    have hedge : (Datum.finite v ≠ .nan ∧ Datum.finite v ≠ .finite edge) ↔ v ≠ edge := by simp
    rw [hedge]
    by_cases hin : -1 < v ∧ v < 1
    · rw [← scaledValue_range (hx v rfl) hin.1 hin.2]
      refine ⟨fun h => ?_, fun h => .inr (.inr h)⟩
      rcases h with h | h | h
      · exact absurd hin.2 h.not_gt
      · exact absurd hin.1 h.not_gt
      · exact h
    · refine iff_of_true ?_ ?_
      · rcases not_and_or.mp hin with h | h
        · exact .inr (.inl (not_lt.mp h))
        · exact .inl (not_lt.mp h)
      · rintro rfl
        exact hin (by norm_num [edge])

theorem sample_finite (v : ℚ) : (ieee undefined).sample (.finite v) =
    if 1 ≤ v then 32767 else if v ≤ -1 then -32768
    else if InRange (scaledValue v) then scaledValue v else undefined (.finite v) := by
  simp only [FloatFormat.sample, ieee, decide_eq_true_eq]

theorem sample_follows {x : Datum} (hx : IsFloat x) (hd : Defined x) : Follows x ((ieee undefined).sample x) := by
  cases x with
  | nan => exact hd
  | inf negative => cases negative <;> rfl
  | finite v =>
    rw [sample_finite]
    refine ⟨fun h => if_pos h, fun h => ?_, fun hlow hhigh => ?_⟩
    · rw [if_neg (by linarith), if_pos h]
    · have hrange : InRange (scaledValue v) :=
        (scaledValue_range (hx v rfl) hlow hhigh).mpr fun he => ((defined_iff hx).mp hd).2 (congrArg _ he)
      rw [if_neg hhigh.not_ge, if_neg hlow.not_ge, if_pos hrange]
      exact scaledValue_close (hx v rfl) hlow hhigh

/-- A sample that follows is an `int16_t`. -/
theorem sample_range {x : Datum} (hd : Defined x) : InRange ((ieee undefined).sample x) := by
  cases x with
  | nan => exact hd.elim
  | inf negative =>
    cases negative
    · exact ⟨show (-32768 : ℤ) ≤ 32767 by decide, le_rfl⟩
    · exact ⟨le_rfl, show (-32768 : ℤ) ≤ 32767 by decide⟩
  | finite v =>
    rw [sample_finite]
    split_ifs with h₁ h₂ h₃
    · decide
    · decide
    · exact h₃
    · rcases hd with h | h | h
      · exact absurd h h₁
      · exact absurd h h₂
      · exact absurd h h₃

theorem sample_mono {x y : Datum} (hx : Defined x) (hy : Defined y) (h : x.le y) :
    (ieee undefined).sample x ≤ (ieee undefined).sample y := by
  have hxr := sample_range undefined hx
  have hyr := sample_range undefined hy
  cases x with
  | nan => exact h.elim
  | inf negative =>
    cases negative with
    | true => exact hyr.1
    | false =>
      cases y with
      | nan => exact h.elim
      | inf negative =>
        cases negative with
        | true => exact absurd h (by simp [Datum.le])
        | false => exact le_rfl
      | finite w => exact absurd h Bool.false_ne_true
  | finite v =>
    cases y with
    | nan => exact h.elim
    | inf negative =>
      cases (show negative = false from h)
      exact hxr.2
    | finite w =>
      have hle : v ≤ w := h
      by_cases hw : 1 ≤ w
      · exact hxr.2.trans_eq (by rw [sample_finite, if_pos hw])
      by_cases hv : v ≤ -1
      · refine le_trans (le_of_eq ?_) hyr.1
        rw [sample_finite, if_neg (by linarith), if_pos hv]
      have hv₁ : ¬ 1 ≤ v := fun h => hw (h.trans hle)
      have hw₁ : ¬ w ≤ -1 := fun h => hv (hle.trans h)
      have hrv : InRange (scaledValue v) := (hx.resolve_left hv₁).resolve_left hv
      have hrw : InRange (scaledValue w) := (hy.resolve_left hw).resolve_left hw₁
      rw [sample_finite, sample_finite, if_neg hv₁, if_neg hv, if_pos hrv, if_neg hw, if_neg hw₁, if_pos hrw]
      exact scaledValue_mono hle

/-! ## The bytes of the samples -/

/-- The array as its `int16_t`s. -/
def int16s : Bytes → List ℤ
  | low :: high :: bytes => Int.bmod (leNat [low, high]) (2 ^ 16) :: int16s bytes
  | _ => []

theorem int16s_int16Bytes (n : ℤ) (bytes : Bytes) :
    int16s (int16Bytes n ++ bytes) = Int.bmod n (2 ^ 16) :: int16s bytes := by
  have hlt := Int.emod_lt_of_pos n (show (0 : ℤ) < 65536 by decide)
  have hnonneg := Int.emod_nonneg n (show (65536 : ℤ) ≠ 0 by decide)
  have hvalue : (leNat (int16Bytes n) : ℤ) = n % 65536 := by
    simp only [int16Bytes, leNat, UInt8.toNat_ofNat']
    omega
  show Int.bmod (leNat (int16Bytes n)) (2 ^ 16) :: int16s bytes = _
  rw [hvalue]
  congr 1
  exact Int.emod_bmod n 65536

theorem int16s_samples (q : FloatFormat Datum) : ∀ xs : List Datum,
    int16s (xs.flatMap fun x => int16Bytes (q.sample x)) = xs.map fun x => Int.bmod (q.sample x) (2 ^ 16)
  | [] => rfl
  | x :: xs => by rw [List.flatMap_cons, int16s_int16Bytes, int16s_samples q xs, List.map_cons]

theorem bmod_inRange {n : ℤ} (h : InRange n) : Int.bmod n (2 ^ 16) = n :=
  Int.bmod_eq_of_le h.1 (by have := h.2; omega)

/-- The floats of a frame. -/
def DecodedFrame.floats (ch : Nat) (f : DecodedFrame) : List Datum :=
  (List.range (f.nbSamples * ch)).map fun i => decode 8 23 (leNat ((f.data.drop (4 * i)).take 4))

theorem floats_isFloat {ch : Nat} {f : DecodedFrame} {x : Datum} (h : x ∈ f.floats ch) : IsFloat x := by
  obtain ⟨i, -, rfl⟩ := List.mem_map.mp h
  exact fun v hv => decode_holds hv

theorem converted_ieee (ch : Nat) (f : DecodedFrame) : f.converted (ieee undefined) ch =
    (f.floats ch).flatMap fun x => int16Bytes ((ieee undefined).sample x) := by
  rw [DecodedFrame.converted, convertedSamples, DecodedFrame.floats, List.flatMap_map]
  rfl

/-- The samples `ns` are those of the floats `xs`. -/
structure Quantised (xs : List Datum) (ns : List ℤ) : Prop where
  length : ns.length = xs.length
  defined : ∀ x ∈ xs, Defined x ↔ x ≠ .nan ∧ x ≠ .finite edge
  follows : ∀ p ∈ xs.zip ns, Defined p.1 → Follows p.1 p.2
  order : ∀ p ∈ xs.zip ns, ∀ p' ∈ xs.zip ns, Defined p.1 → Defined p'.1 → p.1.le p'.1 → p.2 ≤ p'.2

theorem quantised_samples {xs : List Datum} (h : ∀ x ∈ xs, IsFloat x) :
    Quantised xs (int16s (xs.flatMap fun x => int16Bytes ((ieee undefined).sample x))) := by
  have hpair : ∀ p ∈ xs.zip (int16s (xs.flatMap fun x => int16Bytes ((ieee undefined).sample x))),
      Defined p.1 → p.1 ∈ xs ∧ p.2 = (ieee undefined).sample p.1 := by
    intro p hp hd
    have hzip := List.zip_map' (l := xs) (f := id) (g := fun x => Int.bmod ((ieee undefined).sample x) (2 ^ 16))
    rw [List.map_id, ← int16s_samples] at hzip
    rw [hzip, List.mem_map] at hp
    obtain ⟨x, hmem, rfl⟩ := hp
    exact ⟨hmem, bmod_inRange (sample_range undefined hd)⟩
  refine ⟨by rw [int16s_samples, List.length_map], fun x hx => defined_iff (h x hx), fun p hp hd => ?_,
    fun p hp p' hp' hd hd' hle => ?_⟩
  · obtain ⟨hmem, he⟩ := hpair p hp hd
    rw [he]
    exact sample_follows undefined (h _ hmem) hd
  · obtain ⟨-, he⟩ := hpair p hp hd
    obtain ⟨-, he'⟩ := hpair p' hp' hd'
    rw [he, he']
    exact sample_mono undefined hd hd' hle

end Rtmpg.Opus
