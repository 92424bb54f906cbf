import Rtmpg.L4Session.Getline
import Rtmpg.L4Session.Options

/-!
# Does the last line count?

A file as it is meant to be: text without NUL bytes, short lines that are
empty or have a key and a value, numbers in the range of their fields
(`WellFormed`). Its options are to be those of the last line for each key
(`LastWins`). An `Edit` of its lines is one that should not matter: white
space, comments, blank lines, unknown keys, the order of different keys.

* `Number.get_lastLine`, `Flag.get_lastLine`: what an option is in the end. A flag is
  set if any line sets it.
* `comment_sets`: a comment that is put behind a slash takes that slash away,
  and `yes/` becomes `yes`.
* `options_last_line`: the file is accepted, the last lines count exactly when
  no line clears a flag behind one that sets it, and edits do not matter
  exactly when no comment sets a flag that is not set yet.
* `flag_stays`: `fps-log=yes`, `fps-log=no`; and `fps-log=yes/`.
-/
namespace Rtmpg.Config

open Rtmpg.CStr

def assignments (file : Bytes) : List (Bytes × Bytes) := (file.splitOn newline).filterMap assignment

/-- The range of an option, `jb-initial-size-ms` with that of the check. -/
def Number.InRange (v : Int) : Number → Prop
  | .initialJbSize => 0 ≤ v ∧ v ≤ 8000
  | .qMin | .qMax => -2 ^ 31 ≤ v ∧ v < 2 ^ 31
  | _ => 0 ≤ v ∧ v < 2 ^ 16

structure WellFormed (file : Bytes) : Prop where
  ascii : ∀ b ∈ file, b ≠ 0 ∧ b < 0x80
  short : ∀ text ∈ file.splitOn newline, text.length < 1024
  lines : ∀ text ∈ file.splitOn newline, lineOf text = [] ∨ 0x3d ∈ lineOf text
  numbers : ∀ a ∈ assignments file, ∀ n : Number, a.1 = n.key → ∃ v, Decimal a.2 v ∧ n.InRange v

/-- The value that an assignment gives to the key. -/
def valueOf (key : Bytes) (a : Bytes × Bytes) : Option Bytes := if a.1 = key then some a.2 else none

/-- The value of the last line for the key. -/
def lastValue (file key : Bytes) : Option Bytes := lastOf (valueOf key) (assignments file)

structure LastWins (file : Bytes) (c : LocalConfig) : Prop where
  numbers : ∀ n : Number, match lastValue file n.key with
    | some s => Decimal s (n.get c)
    | none => n.get c = n.get defaults
  flags : ∀ f : Flag, f.get c = match lastValue file f.key with
    | some s => decide (s = ascii "yes")
    | none => f.get defaults

/-- Behind a line that sets a flag none clears it. -/
def NeverCleared (file : Bytes) : Prop :=
  ∀ f : Flag, (f.key, ascii "yes") ∈ assignments file → lastValue file f.key = some (ascii "yes")

def withoutSpace (text : Bytes) : Bytes := text.filter fun b => !isSpace b

/-- An edit of the lines that should not matter. `sets` are the flags that a comment
sets: put behind the slash of `yes/`, it begins with that slash. -/
inductive Edit : List Bytes → List Bytes → (Flag → Prop) → Prop
  | space (before after : List Bytes) {text text' : Bytes} : 0 ∉ text → 0 ∉ text' →
      withoutSpace text = withoutSpace text' →
      Edit (before ++ text :: after) (before ++ text' :: after) fun _ => False
  | comment (before after : List Bytes) {text : Bytes} (note : Bytes) : 0 ∉ text →
      Edit (before ++ text :: after) (before ++ (text ++ ascii "//" ++ note) :: after)
        fun f => withoutSpace text = f.key ++ ascii "=yes/"
  | idle (before after : List Bytes) {text : Bytes} : lineOf text = [] →
      Edit (before ++ after) (before ++ text :: after) fun _ => False
  | unknown (before after : List Bytes) {text : Bytes} {a : Bytes × Bytes} : assignment text = some a →
      (∀ f : Flag, a.1 ≠ f.key) → (∀ n : Number, a.1 ≠ n.key) →
      Edit (before ++ after) (before ++ text :: after) fun _ => False
  | swap (before after : List Bytes) {text text' : Bytes} :
      (∀ a a', assignment text = some a → assignment text' = some a' → a.1 ≠ a'.1) →
      Edit (before ++ text :: text' :: after) (before ++ text' :: text :: after) fun _ => False

/-- One edit after another, with all the flags that their comments set. -/
inductive Edits (lines : List Bytes) : List Bytes → (Flag → Prop) → Prop
  | refl : Edits lines lines fun _ => False
  | tail {lines' lines'' : List Bytes} {sets sets' : Flag → Prop} : Edits lines lines' sets →
      Edit lines' lines'' sets' → Edits lines lines'' fun f => sets f ∨ sets' f

/-- Some line sets the flag. -/
def Sets (f : Flag) (lines : List Bytes) : Prop := (f.key, ascii "yes") ∈ lines.filterMap assignment

/-! ## One line -/

theorem takeWhile_text {text : Bytes} (h : 0 ∉ text) (more : Bytes) :
    (text ++ more).takeWhile (· ≠ 0) = text ++ more.takeWhile (· ≠ 0) :=
  List.takeWhile_append_of_pos fun _ hb => decide_eq_true fun e => h (e ▸ hb)

theorem lineOf_eq {text : Bytes} (h : 0 ∉ text) : lineOf text = prepareLine (withoutSpace text) := by
  have hall := takeWhile_text h []
  rw [List.append_nil, List.takeWhile_nil, List.append_nil] at hall
  unfold lineOf withoutSpace
  rw [hall]

/-- A comment cut off at its start. -/
theorem strstr_comment (note s : Bytes) (hnone : strstr (ascii "//") s = none) (hlast : s.getLast? ≠ some 0x2f) :
    strstr (ascii "//") (s ++ ascii "//" ++ note) = some (ascii "//" ++ note) := by
  induction s with
  | nil => exact strstr_self _ _ (List.prefix_append _ _)
  | cons a s ih =>
    unfold strstr at hnone
    split at hnone
    · cases hnone
    · next hp =>
      have hp' : ¬ ascii "//" <+: a :: (s ++ ascii "//" ++ note) := by
        intro hlong
        obtain ⟨rfl, htail⟩ := List.cons_prefix_cons.mp hlong
        cases s with
        | nil => exact hlast rfl
        | cons b s =>
          obtain ⟨rfl, -⟩ := List.cons_prefix_cons.mp htail
          exact hp ⟨s, rfl⟩
      have hlast' : s.getLast? ≠ some 0x2f := by
        cases s with
        | nil => simp
        | cons b s => rwa [List.getLast?_cons_cons] at hlast
      rw [List.cons_append, List.cons_append, strstr, if_neg hp', ih hnone hlast']

/-- A comment changes nothing behind another one, or behind any byte but a slash. -/
theorem prepareLine_comment {s : Bytes} (note : Bytes)
    (hs : strstr (ascii "//") s = none → s.getLast? ≠ some 0x2f) :
    prepareLine (s ++ ascii "//" ++ note) = prepareLine s := by
  unfold prepareLine offset
  cases h : strstr (ascii "//") s with
  | some r =>
    have hle : r.length ≤ s.length := (strstr_split _ s r h).2.length_le
    have hlong := strstr_append (ascii "//" ++ note) h
    have hoff : (s ++ (ascii "//" ++ note)).length - (r ++ (ascii "//" ++ note)).length = s.length - r.length := by
      simp only [List.length_append]
      omega
    rw [List.append_assoc, hlong]
    dsimp only
    rw [hoff, List.take_append_of_le_length (by omega)]
  | none =>
    rw [strstr_comment note s h (hs h), List.append_assoc]
    dsimp only
    rw [List.length_append, Nat.add_sub_cancel]
    exact List.take_left

theorem lineOf_append {text : Bytes} (note : Bytes) (h : 0 ∉ text) :
    lineOf (text ++ ascii "//" ++ note) =
      prepareLine (withoutSpace text ++ ascii "//" ++ withoutSpace (note.takeWhile (· ≠ 0))) := by
  have hslashes : (ascii "//" ++ note).takeWhile (· ≠ 0) = ascii "//" ++ note.takeWhile (· ≠ 0) := rfl
  unfold lineOf withoutSpace
  rw [List.append_assoc, takeWhile_text h, hslashes, List.filter_append, List.filter_append, List.append_assoc]
  rfl

theorem lineOf_comment {text : Bytes} (note : Bytes) (h : 0 ∉ text)
    (hs : strstr (ascii "//") (withoutSpace text) = none → (withoutSpace text).getLast? ≠ some 0x2f) :
    lineOf (text ++ ascii "//" ++ note) = lineOf text := by
  rw [lineOf_append note h, prepareLine_comment _ hs, lineOf_eq h]

/-- Behind a slash the comment begins with that slash. -/
theorem lineOf_slash {text r : Bytes} (note : Bytes) (h : 0 ∉ text) (hr : withoutSpace text = r ++ [0x2f])
    (hnone : strstr (ascii "//") (r ++ [0x2f]) = none) :
    lineOf text = r ++ [0x2f] ∧ lineOf (text ++ ascii "//" ++ note) = r := by
  have hplain : prepareLine (r ++ [0x2f]) = r ++ [0x2f] := by
    unfold prepareLine
    rw [hnone]
  rw [strstr_none] at hnone
  have hr' : strstr (ascii "//") r = none :=
    strstr_none.mpr fun hin => hnone (hin.trans (List.prefix_append ..).isInfix)
  have hlast : r.getLast? ≠ some 0x2f := by
    intro hlast
    obtain ⟨q, rfl⟩ := List.getLast?_eq_some_iff.mp hlast
    exact hnone ⟨q, [], by simp [ascii]⟩
  have hcut : prepareLine r = r := by
    unfold prepareLine
    rw [hr']
  refine ⟨by rw [lineOf_eq h, hr, hplain], ?_⟩
  rw [lineOf_append note h, hr]
  -- the slash goes to the comment
  have hmove : r ++ [0x2f] ++ ascii "//" ++ withoutSpace (note.takeWhile (· ≠ 0)) =
      r ++ ascii "//" ++ (0x2f :: withoutSpace (note.takeWhile (· ≠ 0))) := by simp [ascii]
  rw [hmove, prepareLine_comment _ fun _ => hlast, hcut]

theorem lineOf_space {text text' : Bytes} (h : 0 ∉ text) (h' : 0 ∉ text')
    (heq : withoutSpace text = withoutSpace text') : lineOf text = lineOf text' := by
  rw [lineOf_eq h, lineOf_eq h', heq]

theorem getKeyValue_eq {line key value : Bytes} :
    getKeyValue line = some (key, value) ↔ 0x3d ∉ key ∧ line = key ++ 0x3d :: value := by
  constructor
  · intro h
    have hmem : 0x3d ∈ line := by
      by_contra hnot
      rw [getKeyValue_none.mpr hnot] at h
      cases h
    obtain ⟨key', value', rfl, hkey⟩ := List.eq_append_cons_of_mem hmem
    rw [getKeyValue_split hkey] at h
    cases h
    exact ⟨hkey, rfl⟩
  · rintro ⟨hkey, rfl⟩
    exact getKeyValue_split hkey value

/-- A slash at the end of a line is one at the end of its value. -/
theorem getKeyValue_slash (r : Bytes) :
    getKeyValue (r ++ [0x2f]) = (getKeyValue r).map fun a => (a.1, a.2 ++ [0x2f]) := by
  cases h : getKeyValue r with
  | none =>
    rw [getKeyValue_none] at h
    exact getKeyValue_none.mpr (by simp [h])
  | some a =>
    obtain ⟨hkey, rfl⟩ := getKeyValue_eq.mp h
    rw [List.append_assoc, List.cons_append]
    exact getKeyValue_split hkey _

/-- What a comment does to its line. -/
theorem assignment_comment {text : Bytes} (note : Bytes) (h : 0 ∉ text) :
    assignment (text ++ ascii "//" ++ note) = assignment text ∧
        (∀ r, withoutSpace text = r ++ [0x2f] → ascii "//" <:+: r ++ [0x2f]) ∨
      ∃ r, withoutSpace text = r ++ [0x2f] ∧ assignment (text ++ ascii "//" ++ note) = getKeyValue r ∧
        assignment text = (getKeyValue r).map fun a => (a.1, a.2 ++ [0x2f]) := by
  by_cases hslash : ∃ r, withoutSpace text = r ++ [0x2f] ∧ strstr (ascii "//") (r ++ [0x2f]) = none
  · obtain ⟨r, hr, hnone⟩ := hslash
    obtain ⟨hold, hnew⟩ := lineOf_slash note h hr hnone
    refine .inr ⟨r, hr, congrArg getKeyValue hnew, ?_⟩
    rw [← getKeyValue_slash]
    exact congrArg getKeyValue hold
  · refine .inl ⟨congrArg getKeyValue (lineOf_comment note h fun hnone hlast => ?_), fun r hr => ?_⟩
    · obtain ⟨r, hr⟩ := List.getLast?_eq_some_iff.mp hlast
      rw [hr] at hnone
      exact hslash ⟨r, hr, hnone⟩
    · by_contra hnot
      exact hslash ⟨r, hr, strstr_none.mpr hnot⟩

/-! ## One edit -/

theorem Flag.key_plain (f : Flag) : 0x3d ∉ f.key ∧ ¬ ascii "//" <:+: f.key ++ ascii "=yes/" := by
  rw [← strstr_none]
  cases f <;> exact ⟨by decide, by decide⟩

/-- A comment sets a flag exactly behind the slash of `yes/`. -/
theorem comment_sets {text : Bytes} (note : Bytes) (h : 0 ∉ text) (f : Flag) :
    assignment (text ++ ascii "//" ++ note) = some (f.key, ascii "yes") ↔
      assignment text = some (f.key, ascii "yes") ∨ withoutSpace text = f.key ++ ascii "=yes/" := by
  obtain ⟨hkey, hplain⟩ := f.key_plain
  have hyes : f.key ++ ascii "=yes/" = (f.key ++ 0x3d :: ascii "yes") ++ [0x2f] := by simp [ascii]
  rcases assignment_comment note h with ⟨hsame, hcomment⟩ | ⟨r, hr, hnew, hold⟩
  · rw [hsame]
    refine ⟨.inl, fun hset => hset.resolve_right fun htext => ?_⟩
    rw [hyes] at htext hplain
    exact hplain (hcomment _ htext)
  · have hno : assignment text ≠ some (f.key, ascii "yes") := by
      intro hset
      rw [hold] at hset
      obtain ⟨a, -, ha⟩ := Option.map_eq_some_iff.mp hset
      have hlast := congrArg (fun a : Bytes × Bytes => a.2.getLast?) ha
      simp [ascii] at hlast
    rw [or_iff_right hno, hnew, hr, getKeyValue_eq, hyes, and_iff_right hkey, List.append_cancel_right_eq]

variable {lines lines' : List Bytes} {sets : Flag → Prop}

theorem edit_sets (h : Edit lines lines' sets) (f : Flag) : Sets f lines' ↔ Sets f lines ∨ sets f := by
  unfold Sets
  cases h with
  | space before after h h' heq =>
    have hsame : assignment _ = assignment _ := congrArg getKeyValue (lineOf_space h h' heq)
    simp only [List.filterMap_append, List.filterMap_cons, hsame, or_false]
  | comment before after note h =>
    have hline := comment_sets note h f
    simp only [List.mem_filterMap, List.mem_append, List.mem_cons, or_and_right, exists_or, exists_eq_left, hline]
    simp only [or_assoc, or_comm, or_left_comm]
  | @idle before after text hempty =>
    have hnone : assignment text = none := by rw [assignment, hempty]; rfl
    simp only [List.filterMap_append, List.filterMap_cons, hnone, or_false]
  | @unknown before after text a ha hflag hnumber =>
    have hother : (f.key, ascii "yes") ≠ a := fun heq => hflag f (congrArg Prod.fst heq).symm
    simp only [List.filterMap_append, List.filterMap_cons, ha, List.mem_append, List.mem_cons, hother, false_or,
      or_false]
  | swap before after hne =>
    simp only [List.mem_filterMap, List.mem_append, List.mem_cons, or_false]
    exact exists_congr fun text => and_congr_left fun _ => or_congr_right or_left_comm

/-- No edit changes what the last line for a number is, or its value. -/
theorem edit_number (h : Edit lines lines' sets) (n : Number) :
    lastOf n.val (lines'.filterMap assignment) = lastOf n.val (lines.filterMap assignment) := by
  have hval : ∀ a : Bytes × Bytes, a.1 ≠ n.key → n.val a = none := fun a ha => if_neg ha
  cases h with
  | space before after h h' heq =>
    have hsame : assignment _ = assignment _ := congrArg getKeyValue (lineOf_space h h' heq)
    simp only [List.filterMap_append, List.filterMap_cons, hsame]
  | @comment before after text note h =>
    have hline : (assignment (text ++ ascii "//" ++ note)).bind n.val = (assignment text).bind n.val := by
      rcases assignment_comment note h with ⟨hsame, -⟩ | ⟨r, -, hnew, hold⟩
      · rw [hsame]
      · rw [hnew, hold]
        cases getKeyValue r with
        | none => rfl
        | some a => simp only [Option.bind_some, Option.map_some, Number.val, atoi_slash]
    simp only [lastOf, List.filterMap_filterMap]
    simp only [List.filterMap_append, List.filterMap_cons, hline]
  | @idle before after text hempty =>
    have hnone : assignment text = none := by rw [assignment, hempty]; rfl
    simp only [List.filterMap_append, List.filterMap_cons, hnone]
  | @unknown before after text a ha hflag hnumber =>
    simp only [List.filterMap_append, List.filterMap_cons, ha]
    exact lastOf_insert (hval _ (hnumber n)) _ _
  | @swap before after text text' hne =>
    simp only [List.filterMap_append, List.filterMap_cons]
    cases ha : assignment text with
    | none => rfl
    | some a =>
      cases ha' : assignment text' with
      | none => rfl
      | some a' =>
        have hkeys := hne a a' ha ha'
        have hnone : n.val a' = none ∨ n.val a = none := by
          by_cases hk : a.1 = n.key
          · exact .inl (hval a' fun hk' => hkeys (hk.trans hk'.symm))
          · exact .inr (hval a hk)
        exact lastOf_swap hnone _ _

theorem options_ext {c d : LocalConfig} (hflag : ∀ f : Flag, f.get c = f.get d)
    (hnumber : ∀ n : Number, n.get c = n.get d) : c = d := by
  have hnat : ∀ {x y : UInt16}, (x.toNat : Int) = y.toNat → x = y := fun h => UInt16.toNat_inj.mp (Int.ofNat_inj.mp h)
  obtain ⟨c1, c2, c3, c4, c5, c6, c7, c8, c9, c10⟩ := c
  obtain ⟨d1, d2, d3, d4, d5, d6, d7, d8, d9, d10⟩ := d
  have h1 : c1 = d1 := hflag .detailedVideoLog
  have h2 : c2 = d2 := hflag .detailedAudioLog
  have h3 : c3 = d3 := hflag .speedupLog
  have h4 : c4 = d4 := hflag .fpsLog
  have h5 : c5 = d5 := hnat (hnumber .initialJbSize)
  have h6 : c6 = d6 := hnat (hnumber .maxJbSize)
  have h7 : c7 = d7 := hnat (hnumber .timeToIncreaseJbSize)
  have h8 : c8 = d8 := hflag .dumpRawAudioToFile
  have h9 : c9 = d9 := hnumber .qMin
  have h10 : c10 = d10 := hnumber .qMax
  rw [h1, h2, h3, h4, h5, h6, h7, h8, h9, h10]

theorem edits_sets (h : Edits lines lines' sets) (f : Flag) : Sets f lines' ↔ Sets f lines ∨ sets f := by
  induction h with
  | refl => exact (or_iff_left id).symm
  | tail _ hedit ih => rw [edit_sets hedit, ih, or_assoc]

theorem edits_number (h : Edits lines lines' sets) (n : Number) (c : LocalConfig) :
    n.get (assignAll c lines') = n.get (assignAll c lines) := by
  induction h with
  | refl => rfl
  | tail _ hedit ih => rw [n.get_assignAll, edit_number hedit, ← n.get_assignAll, ih]

/-! ## The last line -/

theorem Flag.get_lastLine (f : Flag) (file : Bytes) (c : LocalConfig) :
    f.get (assignAll c (file.splitOn newline)) =
      (decide ((f.key, ascii "yes") ∈ assignments file) || f.get c) := by
  rw [f.get_assignAll]
  show (lastOf f.val (assignments file)).getD _ = _
  cases hl : lastOf f.val (assignments file) with
  | none =>
    have hnot : (f.key, ascii "yes") ∉ assignments file := by
      intro hmem
      have hnone := lastOf_none.mp hl _ hmem
      simp [Flag.val] at hnone
    simp [hnot]
  | some b =>
    obtain ⟨a, hmem, ha⟩ := lastOf_mem hl
    unfold Flag.val at ha
    split at ha
    · next hyes =>
      cases ha
      have hin : (f.key, ascii "yes") ∈ assignments file := by
        rw [← hyes.1, ← hyes.2]
        exact hmem
      simp [hin]
    · cases ha

@[simp] theorem Flag.get_defaults (f : Flag) : f.get defaults = false := by
  cases f <;> rfl

theorem Number.get_lastLine (n : Number) (file : Bytes) (c : LocalConfig) :
    n.get (assignAll c (file.splitOn newline)) =
      ((lastValue file n.key).map fun s => n.narrow (atoi s)).getD (n.get c) := by
  have hval : n.val = fun a => (valueOf n.key a).map fun s => n.narrow (atoi s) := by
    funext a
    unfold Number.val valueOf
    split <;> rfl
  rw [n.get_assignAll, hval, lastOf_map]
  rfl

/-- A value in the range of its field is not cut down. -/
theorem Number.narrow_decimal {n : Number} {s : Bytes} {v : Int} (hs : Decimal s v) (hv : n.InRange v) :
    n.narrow (atoi s) = v := by
  have hnum := numeral_decimal hs
  have hatoi : -2 ^ 31 ≤ v → v < 2 ^ 31 → atoi s = v := fun h1 h2 => by
    rw [← hnum] at h1 h2 ⊢
    exact atoi_numeral h1 h2
  have hsmall : 0 ≤ v → v < 2 ^ 16 → ((UInt16.ofInt (atoi s)).toNat : Int) = v := fun h1 h2 => by
    rw [ofInt_toNat, hatoi (by omega) (by omega)]
    omega
  cases n with
  | initialJbSize => exact hsmall hv.1 (lt_of_le_of_lt hv.2 (by decide))
  | maxJbSize => exact hsmall hv.1 hv.2
  | timeToIncreaseJbSize => exact hsmall hv.1 hv.2
  | qMin => exact hatoi hv.1 hv.2
  | qMax => exact hatoi hv.1 hv.2

/-- The value of the last line is one of the file. -/
theorem lastValue_mem {file key s : Bytes} (h : lastValue file key = some s) : (key, s) ∈ assignments file := by
  obtain ⟨a, hmem, ha⟩ := lastOf_mem h
  unfold valueOf at ha
  split at ha
  · next hkey =>
    cases ha
    rw [← hkey]
    exact hmem
  · cases ha

section
variable {file : Bytes} (h : WellFormed file)
include h

theorem wellFormed_number (n : Number) : match lastValue file n.key with
    | some s => Decimal s (n.get (assignAll defaults (file.splitOn newline))) ∧
        n.InRange (n.get (assignAll defaults (file.splitOn newline)))
    | none => n.get (assignAll defaults (file.splitOn newline)) = n.get defaults := by
  rw [n.get_lastLine]
  cases hl : lastValue file n.key with
  | none => rfl
  | some s =>
    obtain ⟨v, hs, hv⟩ := h.numbers _ (lastValue_mem hl) n rfl
    show Decimal s (n.narrow (atoi s)) ∧ n.InRange (n.narrow (atoi s))
    rw [Number.narrow_decimal hs hv]
    exact ⟨hs, hv⟩

theorem wellFormed_initial : (assignAll defaults (file.splitOn newline)).initialJbSize ≤ 8000 := by
  have hnumber := wellFormed_number h .initialJbSize
  have hle : ((assignAll defaults (file.splitOn newline)).initialJbSize.toNat : Int) ≤ 8000 := by
    cases hl : lastValue file Number.initialJbSize.key with
    | none =>
      rw [hl] at hnumber
      exact le_of_eq_of_le hnumber (by decide)
    | some s =>
      rw [hl] at hnumber
      exact hnumber.2.2
  rw [UInt16.le_iff_toNat_le]
  exact Int.ofNat_le.mp hle

theorem wellFormed_accepted : readConfig file = some (true, assignAll defaults (file.splitOn newline)) := by
  have hshort : NoneTooLong (file.splitOn newline) := by
    intro before long behind hsplit hlong
    have hlt := h.short long (by rw [hsplit]; simp)
    omega
  have hgood : ∀ text ∈ file.splitOn newline, ¬ Malformed text := by
    intro text hmem hbad
    unfold Malformed at hbad
    have hlt := h.short text hmem
    rw [List.take_of_length_le (by omega)] at hbad
    rcases h.lines text hmem with hempty | heq
    · exact hbad.1 hempty
    · exact hbad.2 heq
  obtain ⟨⟨b, d⟩, hr⟩ := (readLines_ends _ defaults).mpr hshort
  obtain ⟨rfl, rfl⟩ := (readLines_returns _ _ _ _ hr).1 hgood
  have hvalid : validate (assignAll defaults (file.splitOn newline)) = assignAll defaults (file.splitOn newline) :=
    if_neg (UInt16.not_lt.mpr (wellFormed_initial h))
  rw [← hvalid]
  exact hr

theorem lastWins_iff : LastWins file (assignAll defaults (file.splitOn newline)) ↔ NeverCleared file := by
  have hflag : ∀ f : Flag, f.get (assignAll defaults (file.splitOn newline)) =
      decide ((f.key, ascii "yes") ∈ assignments file) := by
    intro f
    rw [f.get_lastLine, Flag.get_defaults, Bool.or_false]
  constructor
  · intro hlast f hmem
    have hf := hlast.flags f
    rw [hflag, decide_eq_true hmem] at hf
    cases hl : lastValue file f.key with
    | none =>
      rw [hl, Flag.get_defaults] at hf
      cases hf
    | some s =>
      rw [hl] at hf
      rw [of_decide_eq_true hf.symm]
  · intro hnever
    refine ⟨fun n => ?_, fun f => ?_⟩
    · have hnumber := wellFormed_number h n
      cases hl : lastValue file n.key with
      | none => rwa [hl] at hnumber
      | some s =>
        rw [hl] at hnumber
        exact hnumber.1
    · rw [hflag]
      cases hl : lastValue file f.key with
      | none =>
        have hnot : (f.key, ascii "yes") ∉ assignments file := by
          intro hmem
          rw [hnever f hmem] at hl
          cases hl
        rw [Flag.get_defaults, decide_eq_false hnot]
      | some s =>
        refine decide_eq_decide.mpr ⟨fun hmem => ?_, fun hs => ?_⟩
        · have hyes := hnever f hmem
          rw [hl] at hyes
          exact Option.some.inj hyes
        · rw [← hs]
          exact lastValue_mem hl

end

/-- The options after the edits are those before, if every flag that a comment sets is set. -/
theorem edits_result {file file' : Bytes} {sets : Flag → Prop}
    (h : Edits (file.splitOn newline) (file'.splitOn newline) sets) :
    assignAll defaults (file'.splitOn newline) = assignAll defaults (file.splitOn newline) ↔
      ∀ f, sets f → Sets f (file.splitOn newline) := by
  have hflag : ∀ f : Flag, ∀ g : Bytes, f.get (assignAll defaults (g.splitOn newline)) = true ↔
      Sets f (g.splitOn newline) := by
    intro f g
    rw [f.get_lastLine, f.get_defaults, Bool.or_false, decide_eq_true_iff]
    rfl
  constructor
  · intro hsame f hf
    rw [← hflag f file, ← hsame, hflag f file', edits_sets h]
    exact .inr hf
  · intro hset
    refine options_ext (fun f => Bool.eq_iff_iff.mpr ?_) fun n => edits_number h n defaults
    rw [hflag, hflag, edits_sets h]
    exact or_iff_left_of_imp (hset f)

/-- A well-formed file is accepted, and its last lines count exactly when no line clears a
flag behind one that sets it. Edits that should not matter do not, exactly when every
comment behind the slash of a flag's `yes/` finds the flag set by another line. -/
theorem options_last_line (file : Bytes) (h : WellFormed file) :
    ∃ c, readConfig file = some (true, c) ∧ (LastWins file c ↔ NeverCleared file) ∧
      ∀ file' sets, WellFormed file' → Edits (file.splitOn newline) (file'.splitOn newline) sets →
        (readConfig file' = some (true, c) ↔ ∀ f, sets f → Sets f (file.splitOn newline)) :=
  ⟨_, wellFormed_accepted h, lastWins_iff h, fun _ _ h' hedits => by
    rw [wellFormed_accepted h', ← edits_result hedits, Option.some_inj, Prod.mk.injEq, and_iff_right rfl]⟩

/-- `fps-log=yes`, `qmax=28` -/
def cleanFile : Bytes := ascii "fps-log=yes //on" ++ newline :: ascii "qmax=28"

theorem cleanFile_wellFormed : WellFormed cleanFile := by
  refine ⟨by decide +kernel, by decide +kernel, by decide +kernel, ?_⟩
  have hassignments : assignments cleanFile = [(ascii "fps-log", ascii "yes"), (ascii "qmax", ascii "28")] := by
    decide +kernel
  rw [hassignments]
  intro a ha n hn
  simp only [List.mem_cons, List.not_mem_nil, or_false] at ha
  rcases ha with rfl | rfl
  · exact absurd hn (Flag.key_ne .fpsLog n)
  · cases Number.key_inj.mp (show Number.qMax.key = n.key from hn)
    exact ⟨28, .plain ⟨by decide, by decide +kernel⟩, by decide, by decide⟩

theorem options_last_line_clean :
    ∃ c, readConfig cleanFile = some (true, c) ∧ (LastWins cleanFile c ↔ NeverCleared cleanFile) ∧
      ∀ file' sets, WellFormed file' → Edits (cleanFile.splitOn newline) (file'.splitOn newline) sets →
        (readConfig file' = some (true, c) ↔ ∀ f, sets f → Sets f (cleanFile.splitOn newline)) :=
  options_last_line cleanFile cleanFile_wellFormed

/-- `fps-log=yes`, `fps-log=no` -/
def clearedFile : Bytes := ascii "fps-log=yes" ++ newline :: ascii "fps-log=no"

def slashFile : Bytes := ascii "fps-log=yes/"

def notedFile : Bytes := ascii "fps-log=yes/ // note"

/-- A file of lines for one flag. -/
theorem wellFormed_flag {file : Bytes} (hascii : ∀ b ∈ file, b ≠ 0 ∧ b < 0x80)
    (hshort : ∀ text ∈ file.splitOn newline, text.length < 1024)
    (hlines : ∀ text ∈ file.splitOn newline, lineOf text = [] ∨ 0x3d ∈ lineOf text)
    (hkeys : ∀ a ∈ assignments file, a.1 = Flag.fpsLog.key) : WellFormed file :=
  ⟨hascii, hshort, hlines, fun a ha n hn => absurd ((hkeys a ha).symm.trans hn) (Flag.key_ne .fpsLog n)⟩

/-- The second line does not clear the flag; and a comment sets it. -/
theorem flag_stays :
    (WellFormed clearedFile ∧ readConfig clearedFile = some (true, { defaults with useFpsLog := true }) ∧
      lastValue clearedFile Flag.fpsLog.key = some (ascii "no") ∧
      ¬ LastWins clearedFile { defaults with useFpsLog := true }) ∧
    WellFormed slashFile ∧ WellFormed notedFile ∧
      (∃ sets, Edits (slashFile.splitOn newline) (notedFile.splitOn newline) sets) ∧
      readConfig slashFile = some (true, defaults) ∧
      readConfig notedFile = some (true, { defaults with useFpsLog := true }) := by
  have hlast : lastValue clearedFile Flag.fpsLog.key = some (ascii "no") := by decide +kernel
  refine ⟨⟨wellFormed_flag (by decide +kernel) (by decide +kernel) (by decide +kernel) (by decide +kernel),
    by decide +kernel, hlast, fun h => ?_⟩, ?_, ?_, ?_, by decide +kernel, by decide +kernel⟩
  · have hflag := h.flags .fpsLog
    rw [hlast] at hflag
    exact absurd hflag (by decide)
  · exact wellFormed_flag (by decide +kernel) (by decide +kernel) (by decide +kernel) (by decide +kernel)
  · exact wellFormed_flag (by decide +kernel) (by decide +kernel) (by decide +kernel) (by decide +kernel)
  · have hslash : slashFile.splitOn newline = [slashFile] := by decide +kernel
    have hnoted : notedFile.splitOn newline = [slashFile ++ [0x20] ++ ascii "//" ++ ascii " note"] := by decide +kernel
    rw [hslash, hnoted]
    exact ⟨_, .tail (.tail .refl (.space [] [] (by decide +kernel) (by decide +kernel) (by decide +kernel)))
      (.comment [] [] (ascii " note") (by decide +kernel))⟩

end Rtmpg.Config
