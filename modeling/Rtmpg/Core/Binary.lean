import Mathlib.Data.Int.Log
import Mathlib.Data.Rat.Floor
import Mathlib.Tactic.Positivity
import Mathlib.Tactic.Ring

/-!
# Binary floating-point numbers

The numbers of a binary format are the `m * 2 ^ e` with `m` of `prec` bits and
`e` from `emin` on; `round` gives the one next to a rational number, and of
two at the same distance the one whose `m` is even. There is no largest
exponent: nothing here overflows. `decode` reads the bits of an interchange
format, `truncate` is the conversion to an integer.

Results:
* `round_near`, `round_eq`: no number of the format is closer, and a number of
  the format is its own rounding.
* `round_mono`: this alone makes rounding monotone, whatever the ties do.
* `floor_le_round`, `round_le_ceil`: rounding does not cross an integer, as
  long as the integers are numbers of the format.
* `decode_holds`: what is read is infinite, not a number, or of the format.
-/
namespace Rtmpg.Binary

/-! ## To an integer -/

/-- Ties go to the even one. -/
def nearestEven (q : ℚ) : ℤ :=
  if 2 * Int.fract q < 1 then ⌊q⌋
  else if 1 < 2 * Int.fract q then ⌊q⌋ + 1
  else if Even ⌊q⌋ then ⌊q⌋
  else ⌊q⌋ + 1

theorem nearestEven_near (q : ℚ) (n : ℤ) : |q - nearestEven q| ≤ |q - n| := by
  have hq := Int.floor_add_fract q
  have h0 := Int.fract_nonneg q
  have h1 := Int.fract_lt_one q
  have hn : Int.fract q ≤ |q - n| ∨ 1 - Int.fract q ≤ |q - n| := by
    rcases le_or_gt n ⌊q⌋ with hle | hlt
    · have hcast : (n : ℚ) ≤ ⌊q⌋ := by exact_mod_cast hle
      exact .inl (le_trans (by linarith) (le_abs_self _))
    · have hcast : (⌊q⌋ : ℚ) + 1 ≤ n := by exact_mod_cast hlt
      exact .inr (le_trans (by linarith) (neg_le_abs _))
  have hdown : |q - (⌊q⌋ : ℤ)| = Int.fract q := by rw [← Int.fract, abs_of_nonneg h0]
  have hup : |q - (⌊q⌋ + 1 : ℤ)| = 1 - Int.fract q := by
    push_cast
    rw [abs_of_nonpos (by linarith)]
    linarith
  unfold nearestEven
  split_ifs
  all_goals
    simp only [hdown, hup]
    rcases hn with hn | hn <;> linarith

/-- The nearest integer does not lie behind another one. -/
theorem nearestEven_le {q : ℚ} {n : ℤ} (h : q ≤ n) : nearestEven q ≤ n := by
  have hnear := nearestEven_near q n
  by_contra hlt
  have hcast : (n : ℚ) < nearestEven q := by exact_mod_cast not_le.mp hlt
  rw [abs_of_nonpos (by linarith), abs_of_nonpos (by linarith)] at hnear
  linarith

theorem le_nearestEven {q : ℚ} {n : ℤ} (h : n ≤ q) : n ≤ nearestEven q := by
  have hnear := nearestEven_near q n
  by_contra hlt
  have hcast : (nearestEven q : ℚ) < n := by exact_mod_cast not_le.mp hlt
  rw [abs_of_nonneg (by linarith), abs_of_nonneg (by linarith)] at hnear
  linarith

/-- Towards zero. -/
def truncate (q : ℚ) : ℤ := if 0 ≤ q then ⌊q⌋ else ⌈q⌉

theorem truncate_mono {p q : ℚ} (h : p ≤ q) : truncate p ≤ truncate q := by
  unfold truncate
  split_ifs with hp hq hq
  · exact Int.floor_mono h
  · exact absurd (hp.trans h) hq
  · exact (Int.ceil_nonpos.mpr (not_le.mp hp).le).trans (Int.floor_nonneg.mpr hq)
  · exact Int.ceil_mono h

theorem truncate_intCast (n : ℤ) : truncate n = n := by
  rw [truncate, Int.floor_intCast, Int.ceil_intCast, ite_self]

/-! ## A format -/

/-- `prec` bits, and the exponents from `emin` on. -/
structure Format where
  prec : ℕ
  emin : ℤ
  prec_pos : 0 < prec

namespace Format

variable {f : Format}

/-- The number is one of the format. -/
def Holds (f : Format) (v : ℚ) : Prop := ∃ m e : ℤ, |m| < 2 ^ f.prec ∧ f.emin ≤ e ∧ v = m * 2 ^ e

/-- The exponent of the numbers next to `v`. -/
def exponent (f : Format) (v : ℚ) : ℤ := max (Int.log 2 |v| + 1 - f.prec) f.emin

def round (f : Format) (v : ℚ) : ℚ := nearestEven (v / 2 ^ f.exponent v) * 2 ^ f.exponent v

theorem two_zpow_pos (e : ℤ) : (0 : ℚ) < 2 ^ e := zpow_pos (by norm_num) e

theorem abs_lt_exponent (f : Format) (v : ℚ) : |v| < 2 ^ (f.prec + f.exponent v) := by
  refine (Int.lt_zpow_succ_log_self (b := 2) (by decide) |v|).trans_le ?_
  rw [Nat.cast_ofNat]
  exact zpow_le_zpow_right₀ (by norm_num) (by unfold exponent; omega)

theorem exponent_eq {v : ℚ} {e : ℤ} (he : f.emin ≤ e) (hle : 2 ^ (f.prec + e - 1) ≤ |v|)
    (hlt : |v| < 2 ^ (f.prec + e)) : f.exponent v = e := by
  have hpos : 0 < |v| := (two_zpow_pos _).trans_le hle
  have hlow := (Int.zpow_le_iff_le_log (b := 2) (by decide) hpos).mp (by rwa [Nat.cast_ofNat])
  have hhigh := (Int.lt_zpow_iff_log_lt (b := 2) (by decide) hpos).mp (by rwa [Nat.cast_ofNat])
  unfold exponent
  omega

theorem holds_two_zpow (f : Format) {e : ℤ} (he : f.emin ≤ e) : f.Holds (2 ^ e) := by
  refine ⟨1, e, ?_, he, by simp⟩
  rw [abs_one]
  exact one_lt_pow₀ (by norm_num) f.prec_pos.ne'

theorem Holds.neg {v : ℚ} : f.Holds v → f.Holds (-v)
  | ⟨m, e, hm, he, hv⟩ => ⟨-m, e, by rwa [abs_neg], he, by rw [hv]; push_cast; ring⟩

/-- All multiples up to the largest coefficient, and that included. -/
theorem holds_of_abs_le {m e : ℤ} (hm : |m| ≤ 2 ^ f.prec) (he : f.emin ≤ e) : f.Holds (m * 2 ^ e) := by
  rcases hm.lt_or_eq with hlt | heq
  · exact ⟨m, e, hlt, he, rfl⟩
  · have htop : f.Holds (2 ^ (f.prec + e)) := f.holds_two_zpow (by omega)
    have hpow : (2 : ℚ) ^ (f.prec + e) = 2 ^ f.prec * 2 ^ e := by rw [zpow_add₀ (by norm_num), zpow_natCast]
    rcases abs_eq (by positivity) |>.mp heq with rfl | rfl
    · rw [hpow] at htop
      exact_mod_cast htop
    · have hneg := htop.neg
      rw [hpow, ← neg_mul] at hneg
      exact_mod_cast hneg

theorem round_holds (f : Format) (v : ℚ) : f.Holds (f.round v) := by
  refine holds_of_abs_le ?_ (le_max_right _ _)
  have hlt := f.abs_lt_exponent v
  rw [zpow_add₀ (by norm_num), zpow_natCast, ← div_lt_iff₀ (two_zpow_pos _),
    ← abs_of_pos (two_zpow_pos (f.exponent v)), ← abs_div, abs_lt] at hlt
  exact abs_le.mpr ⟨le_nearestEven (by push_cast; exact hlt.1.le), nearestEven_le (by push_cast; exact hlt.2.le)⟩

/-- The multiples of the exponent's power of two are rounded like integers. -/
theorem round_near_multiple (f : Format) (v : ℚ) (n : ℤ) :
    |v - f.round v| ≤ |v - n * 2 ^ f.exponent v| := by
  have hpos := two_zpow_pos (f.exponent v)
  have hscaled : ∀ k : ℤ, |v - k * 2 ^ f.exponent v| = |v / 2 ^ f.exponent v - k| * 2 ^ f.exponent v := by
    intro k
    rw [← abs_of_pos hpos, ← abs_mul, abs_of_pos hpos, sub_mul, div_mul_cancel₀ _ hpos.ne']
  rw [round, hscaled, hscaled]
  exact mul_le_mul_of_nonneg_right (nearestEven_near _ n) hpos.le

/-- A number of the format that is no multiple lies below the smallest power of two that
has this exponent, and this one is a multiple. -/
theorem Holds.multiple_or_small {v w : ℚ} (hv : v ≠ 0) (hw : f.Holds w) : (∃ n : ℤ, w = n * 2 ^ f.exponent v) ∨
    ∃ n : ℕ, |w| ≤ n * 2 ^ f.exponent v ∧ n * 2 ^ f.exponent v ≤ |v| := by
  obtain ⟨m, e, hm, he, rfl⟩ := hw
  rcases le_or_gt (f.exponent v) e with hle | hlt
  · left
    refine ⟨m * 2 ^ (e - f.exponent v).toNat, ?_⟩
    push_cast
    rw [mul_assoc, ← zpow_natCast, ← zpow_add₀ (by norm_num)]
    congr 2
    omega
  · right
    have hexp : f.exponent v = Int.log 2 |v| + 1 - f.prec := by
      unfold exponent at hlt ⊢
      omega
    have hpow : ((2 ^ (f.prec - 1) : ℕ) : ℚ) * 2 ^ f.exponent v = 2 ^ Int.log 2 |v| := by
      have hprec := f.prec_pos
      push_cast
      rw [← zpow_natCast, ← zpow_add₀ (by norm_num), hexp]
      congr 1
      omega
    refine ⟨2 ^ (f.prec - 1), ?_, ?_⟩
    · rw [abs_mul, abs_of_pos (two_zpow_pos e), ← Int.cast_abs, hpow]
      calc ((|m| : ℤ) : ℚ) * 2 ^ e ≤ 2 ^ f.prec * 2 ^ e :=
            mul_le_mul_of_nonneg_right (by exact_mod_cast hm.le) (two_zpow_pos e).le
        _ = 2 ^ (f.prec + e) := by rw [zpow_add₀ (by norm_num), zpow_natCast]
        _ ≤ 2 ^ Int.log 2 |v| := zpow_le_zpow_right₀ (by norm_num) (by omega)
    · rw [hpow]
      exact Int.zpow_log_le_self (by decide) (abs_pos.mpr hv)

theorem round_near (f : Format) (v : ℚ) {w : ℚ} (hw : f.Holds w) : |v - f.round v| ≤ |v - w| := by
  rcases eq_or_ne v 0 with rfl | hne
  · refine (f.round_near_multiple 0 0).trans ?_
    rw [Int.cast_zero, zero_mul, sub_self, abs_zero]
    exact abs_nonneg _
  rcases hw.multiple_or_small hne with ⟨n, rfl⟩ | ⟨n, hsmall, hle⟩
  · exact f.round_near_multiple v n
  · rcases le_or_gt 0 v with hv | hv
    · refine (f.round_near_multiple v n).trans ?_
      rw [abs_of_nonneg hv] at hle
      rw [Int.cast_natCast, abs_of_nonneg (by linarith)]
      exact le_trans (by linarith [le_abs_self w]) (le_abs_self _)
    · refine (f.round_near_multiple v (-n)).trans ?_
      rw [abs_of_neg hv] at hle
      push_cast
      rw [abs_of_nonpos (by linarith)]
      exact le_trans (by linarith [neg_abs_le w]) (neg_le_abs _)

theorem round_eq {v : ℚ} (hv : f.Holds v) : f.round v = v := by
  have hnear := f.round_near v hv
  rw [sub_self, abs_zero, abs_nonpos_iff, sub_eq_zero] at hnear
  exact hnear.symm

/-- The numbers of the format with one exponent are the multiples of its power of two. -/
theorem Holds.multiple {v : ℚ} (hv : f.Holds v) : ∃ n : ℤ, v = n * 2 ^ f.exponent v :=
  ⟨_, (round_eq hv).symm⟩

theorem round_mono (f : Format) {v w : ℚ} (h : v ≤ w) : f.round v ≤ f.round w := by
  rcases h.eq_or_lt with rfl | hlt
  · exact le_rfl
  by_contra hgt
  have hv := f.round_near v (f.round_holds w)
  have hw := f.round_near w (f.round_holds v)
  -- `v` is above and `w` below the middle of the two results
  have hlow : f.round v + f.round w ≤ 2 * v := by
    rcases abs_cases (v - f.round v) with ⟨h₁, s₁⟩ | ⟨h₁, s₁⟩ <;>
      rcases abs_cases (v - f.round w) with ⟨h₂, s₂⟩ | ⟨h₂, s₂⟩ <;> linarith
  have hhigh : 2 * w ≤ f.round v + f.round w := by
    rcases abs_cases (w - f.round v) with ⟨h₁, s₁⟩ | ⟨h₁, s₁⟩ <;>
      rcases abs_cases (w - f.round w) with ⟨h₂, s₂⟩ | ⟨h₂, s₂⟩ <;> linarith
  linarith

/-- As long as the integers up to `v` are numbers of the format. -/
theorem holds_intCast (hf : f.emin ≤ 0) {n : ℤ} (hn : |n| ≤ 2 ^ f.prec) : f.Holds n := by
  simpa using holds_of_abs_le hn hf

theorem floor_le_round (hf : f.emin ≤ 0) {v : ℚ} (hv : |⌊v⌋| ≤ 2 ^ f.prec) : (⌊v⌋ : ℚ) ≤ f.round v := by
  rw [← round_eq (holds_intCast hf hv)]
  exact f.round_mono (Int.floor_le v)

theorem round_le_ceil (hf : f.emin ≤ 0) {v : ℚ} (hv : |⌈v⌉| ≤ 2 ^ f.prec) : f.round v ≤ ⌈v⌉ := by
  rw [← round_eq (holds_intCast hf hv)]
  exact f.round_mono (Int.le_ceil v)

/-- A larger exponent is always there. -/
theorem Holds.scale {v : ℚ} (k : ℕ) : f.Holds v → f.Holds (v * 2 ^ k)
  | ⟨m, e, hm, he, hv⟩ => ⟨m, e + k, hm, by omega, by rw [hv, mul_assoc, zpow_add₀ (by norm_num), zpow_natCast]⟩

end Format

/-! ## An interchange format -/

inductive Datum
  | nan
  | inf (negative : Bool)
  | finite (v : ℚ)
  deriving DecidableEq

/-- The comparison `<=`. -/
def Datum.le : Datum → Datum → Prop
  | .nan, _ => False
  | _, .nan => False
  | .inf negative, .inf negative' => negative = true ∨ negative' = false
  | .inf negative, .finite _ => negative = true
  | .finite _, .inf negative => negative = false
  | .finite v, .finite w => v ≤ w

/-- The format of a number of `w` exponent bits and `t` fraction bits. -/
def interchange (w t : ℕ) : Format := ⟨t + 1, 2 - 2 ^ (w - 1) - t, t.succ_pos⟩

/-- The bits `bits` of such a number, its sign on top. -/
def decode (w t bits : ℕ) : Datum :=
  let fraction := bits % 2 ^ t
  let exponent := bits / 2 ^ t % 2 ^ w
  let negative := decide (bits / 2 ^ (t + w) % 2 = 1)
  if exponent = 2 ^ w - 1 then if fraction = 0 then .inf negative else .nan
  else
    -- subnormal numbers have the exponent of the field 1
    let coefficient : ℤ := if exponent = 0 then fraction else fraction + 2 ^ t
    .finite ((if negative then -coefficient else coefficient : ℤ) * 2 ^ ((interchange w t).emin + (exponent - 1 : ℕ)))

theorem decode_holds {w t bits : ℕ} {v : ℚ} (h : decode w t bits = .finite v) : (interchange w t).Holds v := by
  simp only [decode] at h
  split at h
  · split at h <;> cases h
  rw [Datum.finite.injEq] at h
  refine ⟨_, _, ?_, by omega, h.symm⟩
  have hfraction : bits % 2 ^ t < 2 ^ t := Nat.mod_lt _ (by positivity)
  have hprec : (2 : ℤ) ^ (interchange w t).prec = 2 * 2 ^ t := by rw [interchange, pow_succ']
  have hcast : ((bits % 2 ^ t : ℕ) : ℤ) < 2 ^ t := by exact_mod_cast hfraction
  have habs : ∀ (c : ℤ) (negative : Bool), 0 ≤ c → c < 2 * 2 ^ t →
      |if negative = true then -c else c| < 2 * 2 ^ t := by
    intro c negative h0 hlt
    split_ifs
    · rwa [abs_neg, abs_of_nonneg h0]
    · rwa [abs_of_nonneg h0]
  rw [hprec]
  refine habs _ _ ?_ ?_ <;> split_ifs <;> omega

end Rtmpg.Binary
