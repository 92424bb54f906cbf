import Mathlib.Data.Nat.Digits.Defs
import Mathlib.Tactic.Ring
import Rtmpg.Core.Mem
import Rtmpg.Core.Replace

/-!
# C strings

A string is the list of its bytes before the NUL, a pointer into it the
suffix that starts there. `strstr` and `strchr` search from the left;
`ascii` is a string literal. `atoi` is that of glibc: `strtol`, which saturates
at 64 bits, cut down to an `int`.

Results:
* `strstr_split`: what `strstr` returns, as a first occurrence.
* `strstr_fields`: a key without the separator, searched in fields joined by
  it, is found in the first field that contains it.
* `numeral_decimal`: what `strtol` reads of a decimal integer.
* `atoi_slash`: a slash behind a number is not read.
-/
namespace Rtmpg.CStr

def ascii (s : String) : Bytes := s.toList.map fun c => c.toNat.toUInt8

/-- `NULL` is `none`. -/
def strstr (key : Bytes) : Bytes → Option Bytes
  | [] => if key = [] then some [] else none
  | a :: s => if key <+: a :: s then some (a :: s) else strstr key s

def strchr (c : UInt8) : Bytes → Option Bytes
  | [] => none
  | a :: s => if a = c then some (a :: s) else strchr c s

def isSpace (b : UInt8) : Bool := b = 0x20 || (0x09 ≤ b && b ≤ 0x0d)

def digits (n : Nat) : Bytes → Nat
  | [] => n
  | b :: s => if 0x30 ≤ b ∧ b ≤ 0x39 then digits (10 * n + (b.toNat - 0x30)) s else n

/-- `strtol(s, NULL, 10)` -/
def strtol (s : Bytes) : Int :=
  let v : Int := match s.dropWhile isSpace with
    | 0x2d :: s => -digits 0 s
    | 0x2b :: s => digits 0 s
    | s => digits 0 s
  max (-2 ^ 63) (min (2 ^ 63 - 1) v)

def atoi (s : Bytes) : Int := Mem.i32 (Mem.u32 (strtol s))

/-- The integer that `strtol` reads, however large it is. -/
def numeral (s : Bytes) : Int :=
  match s.dropWhile isSpace with
  | 0x2d :: s => -digits 0 s
  | 0x2b :: s => digits 0 s
  | s => digits 0 s

theorem strtol_numeral (s : Bytes) : strtol s = max (-2 ^ 63) (min (2 ^ 63 - 1) (numeral s)) := rfl

theorem atoi_mod (s : Bytes) : atoi s % 65536 = strtol s % 65536 := by
  unfold atoi Mem.i32 Mem.u32
  split <;> omega

theorem atoi_numeral {s : Bytes} (hlow : -2 ^ 31 ≤ numeral s) (hhigh : numeral s < 2 ^ 31) : atoi s = numeral s := by
  have hstrtol : strtol s = numeral s := by
    rw [strtol_numeral]
    omega
  unfold atoi Mem.i32 Mem.u32
  rw [hstrtol]
  split <;> omega

/-- The distance of a pointer into `s` from its start. -/
def offset (s ptr : Bytes) : Nat := s.length - ptr.length

theorem strchr_none (c : UInt8) : ∀ s : Bytes, c ∉ s → strchr c s = none
  | [], _ => rfl
  | a :: s, h => by
    rw [strchr, if_neg fun e => h (by simp [e]), strchr_none c s fun m => h (List.mem_cons_of_mem _ m)]

theorem strchr_append (c : UInt8) : ∀ s t : Bytes, c ∉ s → strchr c (s ++ c :: t) = some (c :: t)
  | [], _, _ => by simp [strchr]
  | a :: s, t, h => by
    rw [List.cons_append, strchr, if_neg fun e => h (by simp [e]),
      strchr_append c s t fun m => h (List.mem_cons_of_mem _ m)]

/-- `strstr` returns a suffix that starts with the key. -/
theorem strstr_split (key : Bytes) : ∀ (s r : Bytes), strstr key s = some r → key <+: r ∧ r <:+ s
  | [], r, h => by
    unfold strstr at h
    split at h
    · next hk => cases h; exact ⟨hk ▸ List.prefix_rfl, List.suffix_rfl⟩
    · cases h
  | a :: s, r, h => by
    unfold strstr at h
    split at h
    · next hk => cases h; exact ⟨hk, List.suffix_rfl⟩
    · obtain ⟨h1, h2⟩ := strstr_split key s r h
      exact ⟨h1, h2.trans (List.suffix_cons a s)⟩

/-- What comes behind a string does not change its first occurrence. -/
theorem strstr_append {key : Bytes} (t : Bytes) {s r : Bytes} (h : strstr key s = some r) :
    strstr key (s ++ t) = some (r ++ t) := by
  induction s with
  | nil =>
    unfold strstr at h
    split at h
    · next hk =>
      cases h
      cases t <;> simp [strstr, hk]
    · cases h
  | cons a s ih =>
    unfold strstr at h
    rw [List.cons_append, strstr]
    split at h
    · next hp =>
      cases h
      have hp' : key <+: a :: (s ++ t) := hp.trans (List.prefix_append (a :: s) t)
      rw [if_pos hp', List.cons_append]
    · next hp =>
      have hlen : key.length ≤ s.length := by
        obtain ⟨h1, h2⟩ := strstr_split key s r h
        exact le_trans h1.length_le h2.length_le
      -- an earlier one would end in `s`
      have hp' : ¬ key <+: a :: (s ++ t) := fun hlong =>
        hp (List.prefix_of_prefix_length_le hlong (List.prefix_append (a :: s) t) (Nat.le_succ_of_le hlen))
      rw [if_neg hp', ih h]

theorem strstr_none {key : Bytes} : ∀ {s : Bytes}, strstr key s = none ↔ ¬ key <:+: s
  | [] => by
    rw [strstr, List.infix_nil]
    split <;> simp_all
  | a :: s => by
    rw [strstr, List.infix_cons_iff, not_or, ← strstr_none (s := s)]
    split <;> simp_all

theorem strstr_self (key s : Bytes) (h : key <+: s) : strstr key s = some s := by
  cases s with
  | nil => rw [strstr, if_pos (List.prefix_nil.mp h)]
  | cons a s => rw [strstr, if_pos h]

theorem strstr_fields {key : Bytes} {sep : UInt8} (hk : sep ∉ key) (hne : key ≠ []) (t : Bytes) :
    ∀ s : Bytes, strstr key (s ++ sep :: t) =
      match strstr key s with
      | some r => some (r ++ sep :: t)
      | none => strstr key t
  | [] => by
    have hp : ¬ key <+: sep :: t := fun h => hne (List.prefix_nil.mp ((prefix_before_sep hk [] t).mp h))
    have hnil : strstr key [] = none := if_neg hne
    rw [List.nil_append, hnil, strstr, if_neg hp]
  | a :: s => by
    have hp := prefix_before_sep hk (a :: s) t
    rw [List.cons_append] at hp
    rw [List.cons_append, strstr, strstr]
    by_cases h : key <+: a :: s
    · rw [if_pos (hp.mpr h), if_pos h]
      rfl
    · rw [if_neg fun h' => h (hp.mp h'), if_neg h, strstr_fields hk hne t s]

/-- `strstr` makes the first cut. -/
theorem strstr_cut (key : Bytes) (hne : key ≠ []) (s : Bytes) :
    cut key s = (strstr key s).map fun r => (s.take (offset s r), r.drop key.length) := by
  induction s with
  | nil => rw [cut, strstr, if_neg hne, Option.map_none]
  | cons a s ih =>
    rw [cut, strstr]
    by_cases hp : key <+: a :: s
    · simp [hp, offset]
    · rw [if_neg hp, if_neg hp, ih]
      cases hr : strstr key s with
      | none => rfl
      | some r =>
        have hle := (strstr_split key s r hr).2.length_le
        have hoff : offset (a :: s) r = offset s r + 1 := by
          unfold offset
          rw [List.length_cons]
          omega
        simp [hoff]

/-! ## Strings in arrays -/

/-- The string at the start of an array; `none`: it does not end there. -/
def stringIn (a : Bytes) : Option Bytes := if 0 ∈ a then some (a.takeWhile (· ≠ 0)) else none

/-- A zeroed array of `n` bytes with the string in it. -/
def padded (n : Nat) (s : Bytes) : Bytes := s ++ List.replicate (n - s.length) 0

theorem padded_length {n : Nat} {s : Bytes} (h : s.length ≤ n) : (padded n s).length = n := by
  simp only [padded, List.length_append, List.length_replicate]
  omega

theorem padded_last {n : Nat} {s : Bytes} (h : s.length < n) : (padded n s).getLast? = some 0 := by
  obtain ⟨m, hm⟩ : ∃ m, n - s.length = m + 1 := ⟨n - s.length - 1, by omega⟩
  simp [padded, hm, List.getLast?_append, List.getLast?_replicate]

theorem stringIn_padded {n : Nat} {s : Bytes} (hs : 0 ∉ s) (h : s.length < n) : stringIn (padded n s) = some s := by
  obtain ⟨m, hm⟩ : ∃ m, n - s.length = m + 1 := ⟨n - s.length - 1, by omega⟩
  have hmem : 0 ∈ padded n s := by simp [padded, hm]
  have htake : (padded n s).takeWhile (· ≠ 0) = s := by
    have hall : ∀ b ∈ s, decide (b ≠ 0) = true := fun b hb => decide_eq_true fun e => hs (e ▸ hb)
    unfold padded
    rw [hm, List.takeWhile_append_of_pos hall]
    simp [List.replicate_succ]
  rw [stringIn, if_pos hmem, htake]

/-- A copy behind the string. -/
theorem copy_padded {n off k : Nat} {s src : Bytes} (hd : s.length + k ≤ n) (hs : off + k ≤ src.length) :
    Mem.copy (padded n s) s.length src off k = some (padded n (s ++ (src.drop off).take k)) := by
  have hlen := padded_length (n := n) (s := s) (by omega)
  have hk : ((src.drop off).take k).length = k := by
    rw [List.length_take, List.length_drop]
    omega
  have htake : (padded n s).take s.length = s := List.take_left
  have hdrop : (padded n s).drop (s.length + k) = List.replicate (n - (s.length + k)) 0 := by
    have hall : s.drop (s.length + k) = [] := List.drop_of_length_le (by omega)
    unfold padded
    rw [List.drop_append, hall, List.nil_append, List.drop_replicate]
    congr 1
    omega
  unfold Mem.copy
  rw [if_pos ⟨by omega, hs⟩, htake, hdrop, ← List.append_assoc]
  unfold padded
  rw [List.length_append, hk]

/-- A copy of what stands between `u` and `w`. -/
theorem copy_between (n : Nat) (s u v w : Bytes) (h : s.length + v.length ≤ n) :
    Mem.copy (padded n s) s.length (u ++ (v ++ w)) u.length v.length = some (padded n (s ++ v)) := by
  have hs : u.length + v.length ≤ (u ++ (v ++ w)).length := by
    simp only [List.length_append]
    omega
  rw [copy_padded h hs, List.drop_left, List.take_left]

/-! ## Decimal integers -/

def isDigit (b : UInt8) : Bool := 0x30 ≤ b && b ≤ 0x39

/-- The value of a text of digits. -/
def decimal (ds : Bytes) : Nat := Nat.ofDigits 10 (ds.reverse.map fun b => b.toNat - 0x30)

def IsDigits (ds : Bytes) : Prop := ds ≠ [] ∧ ∀ b ∈ ds, isDigit b = true

/-- A decimal integer, with or without a sign. -/
inductive Decimal : Bytes → Int → Prop
  | plain {ds : Bytes} : IsDigits ds → Decimal ds (decimal ds)
  | plus {ds : Bytes} : IsDigits ds → Decimal (0x2b :: ds) (decimal ds)
  | minus {ds : Bytes} : IsDigits ds → Decimal (0x2d :: ds) (-decimal ds)

theorem digits_decimal (ds : Bytes) (n : Nat) (h : ∀ b ∈ ds, isDigit b = true) :
    digits n ds = n * 10 ^ ds.length + decimal ds := by
  induction ds generalizing n with
  | nil => simp [digits, decimal]
  | cons b ds ih =>
    have hb : 0x30 ≤ b ∧ b ≤ 0x39 := by simpa [isDigit] using h b List.mem_cons_self
    rw [digits, if_pos hb, ih _ fun b' hmem => h b' (List.mem_cons_of_mem _ hmem)]
    simp only [decimal, List.reverse_cons, List.map_append, List.map_cons, List.map_nil, Nat.ofDigits_append,
      List.length_map, List.length_reverse, List.length_cons, Nat.ofDigits_singleton]
    ring

theorem digits_zero {ds : Bytes} (h : IsDigits ds) : digits 0 ds = decimal ds := by
  rw [digits_decimal ds 0 h.2, Nat.zero_mul, Nat.zero_add]

theorem isDigit_cases {b : UInt8} (h : isDigit b = true) : isSpace b = false ∧ b ≠ 0x2d ∧ b ≠ 0x2b := by
  simp only [isDigit, isSpace, Bool.and_eq_true, decide_eq_true_eq, Bool.or_eq_false_iff, decide_eq_false_iff_not,
    Bool.and_eq_false_iff, ne_eq, UInt8.le_iff_toNat_le, ← UInt8.toNat_inj, UInt8.reduceToNat] at h ⊢
  omega

theorem numeral_decimal {s : Bytes} {v : Int} (h : Decimal s v) : numeral s = v := by
  cases h with
  | plain hds =>
    obtain ⟨b, ds, rfl⟩ := List.exists_cons_of_ne_nil hds.1
    obtain ⟨hspace, hminus, hplus⟩ := isDigit_cases (hds.2 b List.mem_cons_self)
    unfold numeral
    rw [List.dropWhile_cons_of_neg (by simp [hspace])]
    split
    · next heq => exact absurd (List.cons.inj heq).1 hminus
    · next heq => exact absurd (List.cons.inj heq).1 hplus
    · rw [digits_zero hds]
  | plus hds => exact congrArg Nat.cast (digits_zero hds)
  | minus hds => exact congrArg (fun n : Nat => -(n : Int)) (digits_zero hds)

theorem digits_slash (s : Bytes) (n : Nat) : digits n (s ++ [0x2f]) = digits n s := by
  induction s generalizing n with
  | nil => rfl
  | cons b s ih =>
    rw [List.cons_append, digits, digits, ih]

/-- A slash behind a number is not read. -/
theorem numeral_slash (s : Bytes) : numeral (s ++ [0x2f]) = numeral s := by
  unfold numeral
  rw [List.dropWhile_append]
  cases hs : s.dropWhile isSpace with
  | nil => rfl
  | cons b s =>
    rw [List.isEmpty_cons, if_neg Bool.false_ne_true, List.cons_append]
    by_cases hminus : b = 0x2d
    · subst hminus
      exact congrArg (fun n : Nat => -(n : Int)) (digits_slash s 0)
    by_cases hplus : b = 0x2b
    · subst hplus
      exact congrArg Nat.cast (digits_slash s 0)
    split
    · next heq => exact absurd (List.cons.inj heq).1 hminus
    · next heq => exact absurd (List.cons.inj heq).1 hplus
    · split
      · next heq => exact absurd (List.cons.inj heq).1 hminus
      · next heq => exact absurd (List.cons.inj heq).1 hplus
      · exact congrArg (fun n : Nat => (n : Int)) (digits_slash (b :: s) 0)

theorem atoi_slash (s : Bytes) : atoi (s ++ [0x2f]) = atoi s := by
  unfold atoi
  rw [strtol_numeral, strtol_numeral, numeral_slash]

end Rtmpg.CStr
