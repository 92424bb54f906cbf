import Rtmpg.L4Session.Getline
import Rtmpg.L4Session.Options

/-!
# Is the initial size of the jitter buffer validated?

`agora_init` takes `getInitialJbSize()` whatever `loadConfig` returned
(`libagorac/agorac.cpp:90-95`). The check against 8000 comes behind the last
line (`helpers/localconfig.cpp:108-111`), on a value that is a `uint16_t` by
then; at a line without `=` `readConfig` returns before it. `given` is the
integer of the last `jb-initial-size-ms` line that was read, however large.

* `stored_size`: what the last line leaves in the field.
* `initialSize_validated`: the size is the one given, or the default, exactly
  when the value meets `Survives`.
* `initialSize_unchecked`: 65600 becomes 64, and 9000 before a malformed line stays.
-/
namespace Rtmpg.Config

open Rtmpg.CStr

/-- The integer that a line gives for the size. -/
def sizeGiven (a : Bytes × Bytes) : Option Int :=
  if a.1 = Number.initialJbSize.key then some (numeral a.2) else none

def given (file : Bytes) : Option Int :=
  lastOf sizeGiven ((linesRead (file.splitOn newline)).filterMap assignment)

/-- What `getInitialJbSize` is to return. -/
def validSize : Option Int → Int
  | some v => if 0 ≤ v ∧ v ≤ 8000 then v else 120
  | none => 120

/-- The `uint16_t` that is left of a value. -/
def narrowed (v : Int) : Int := max (-2 ^ 63) (min (2 ^ 63 - 1) v) % 65536

/-- The value is in range, or narrowing makes the default of it, or the check finds it. -/
def Survives (file : Bytes) : Prop :=
  ∀ v, given file = some v → (0 ≤ v ∧ v ≤ 8000) ∨ narrowed v = 120 ∨
    ((∀ text ∈ file.splitOn newline, ¬ Malformed text) ∧ 8000 < narrowed v)

theorem narrow_atoi (s : Bytes) : Number.initialJbSize.narrow (atoi s) = narrowed (numeral s) := by
  have h := atoi_mod s
  rw [strtol_numeral] at h
  show ((UInt16.ofInt (atoi s)).toNat : Int) = _
  rw [ofInt_toNat, h]
  rfl

/-- The size behind the lines that were read. -/
theorem stored_size (file : Bytes) :
    ((assignAll defaults (linesRead (file.splitOn newline))).initialJbSize.toNat : Int) =
      match given file with
      | some v => narrowed v
      | none => 120 := by
  have hget := Number.get_assignAll .initialJbSize defaults (linesRead (file.splitOn newline))
  have hval : Number.val .initialJbSize = fun a => (sizeGiven a).map narrowed := by
    funext a
    unfold Number.val sizeGiven
    split
    · rw [narrow_atoi]
      rfl
    · rfl
  rw [hval, lastOf_map] at hget
  unfold given
  cases hg : lastOf sizeGiven ((linesRead (file.splitOn newline)).filterMap assignment) with
  | none =>
    rw [hg] at hget
    exact hget
  | some v =>
    rw [hg] at hget
    exact hget

theorem linesRead_all {lines : List Bytes} (h : ∀ text ∈ lines, ¬ Malformed text) : linesRead lines = lines :=
  List.takeWhile_eq_self_iff.mpr fun text hmem => by simpa using h text hmem

theorem validate_size (c : LocalConfig) : ((validate c).initialJbSize.toNat : Int) =
    if 8000 < (c.initialJbSize.toNat : Int) then 120 else (c.initialJbSize.toNat : Int) := by
  have hgt : c.initialJbSize > 8000 ↔ 8000 < (c.initialJbSize.toNat : Int) := by
    rw [gt_iff_lt, UInt16.lt_iff_toNat_lt]
    exact Int.ofNat_lt.symm
  unfold validate
  simp only [hgt]
  split <;> rfl

theorem validSize_narrowed (v : Int) (h : 0 ≤ v ∧ v ≤ 8000) : narrowed v = v := by
  unfold narrowed
  omega

/-- The initial size is the one given if that is valid and the default if not, exactly when the
last value given survives the narrowing to 16 bits and the check at the end of the file. -/
theorem initialSize_validated (file : Bytes) (b : Bool) (c : LocalConfig) (h : readConfig file = some (b, c)) :
    (c.initialJbSize.toNat : Int) = validSize (given file) ↔ Survives file := by
  have hstored := stored_size file
  obtain ⟨hok, hfail⟩ := readLines_returns _ defaults c b h
  unfold Survives
  by_cases hall : ∀ text ∈ file.splitOn newline, ¬ Malformed text
  · -- every line is read, and then the size is checked
    obtain ⟨-, rfl⟩ := hok hall
    rw [linesRead_all hall] at hstored
    rw [validate_size, hstored]
    cases hg : given file with
    | none => simp [validSize]
    | some v =>
      have hn := validSize_narrowed v
      have hchecked : (∀ text ∈ file.splitOn newline, ¬ Malformed text) ∧ 8000 < narrowed v ↔ 8000 < narrowed v :=
        and_iff_right hall
      simp only [validSize, Option.some.injEq, forall_eq', hchecked]
      split <;> split <;> omega
  · obtain ⟨-, rfl⟩ := hfail (by simpa using hall)
    rw [hstored]
    cases hg : given file with
    | none => simp [validSize]
    | some v =>
      have hn := validSize_narrowed v
      have hchecked : ¬ ((∀ text ∈ file.splitOn newline, ¬ Malformed text) ∧ 8000 < narrowed v) := fun h => hall h.1
      simp only [validSize, Option.some.injEq, forall_eq', hchecked, or_false]
      split <;> omega

/-- 500 ms. -/
def halfSecond : Bytes := ascii "jb-initial-size-ms=500"

theorem initialSize_validated_halfSecond :
    ((({ defaults with initialJbSize := 500 } : LocalConfig).initialJbSize.toNat : Int) =
        validSize (given halfSecond)) ↔
      Survives halfSecond :=
  initialSize_validated halfSecond true { defaults with initialJbSize := 500 } (by decide +kernel)

/-- Over 16 bits, and over 8000 before a line without `=`. -/
def wide : Bytes := ascii "jb-initial-size-ms=65600"

def unfinished : Bytes := ascii "jb-initial-size-ms=9000" ++ newline :: ascii "fps-log"

theorem initialSize_unchecked :
    (given wide = some 65600 ∧ readConfig wide = some (true, { defaults with initialJbSize := 64 }) ∧
        validSize (given wide) = 120) ∧
      given unfinished = some 9000 ∧ readConfig unfinished = some (false, { defaults with initialJbSize := 9000 }) ∧
        validSize (given unfinished) = 120 := by
  decide +kernel

end Rtmpg.Config
