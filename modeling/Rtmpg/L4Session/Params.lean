import Rtmpg.L4Session.Init

/-!
# Does every argument fit its array?

`get_arg_value` copies a value to the caller's array with no word about its
size (`ngx_agora_helper.c:1143-1163`). `ngx_agora_init` has eleven arrays on
its stack, ten of `PARAM_MAX_LEN` zeros and `char encryption_str[2] = "0"`, and
reads each of them as a string (lines 904-1076). The arguments are the bytes
before the NUL it puts behind them, fewer than `NGX_RTMP_MAX_ARGS`.

* `fetch_fits`: a value shorter than its array is there as a string.
* `arguments_fit`: all values fit exactly when at most five bytes stand between
  the first `enc` and the end of its parameter, `enc` included.
* `enc_unterminated`: `enc=10` leaves no NUL in its array, `enc=100` leaves the array.
-/
namespace Rtmpg.Args

open Rtmpg.CStr Rtmpg.Mem

/-- `PARAM_MAX_LEN` -/
def paramMaxLen : Nat := 1024

/-- `NGX_RTMP_MAX_ARGS`, with the patch. -/
def maxArgs : Nat := 512

/-- The size of the array for this key.
mirrors ngx_agora_helper.c:904-916 -/
def ArgKey.size : ArgKey → Nat
  | .enc => 2
  | _ => paramMaxLen

/-- Its content before the call.
mirrors ngx_agora_helper.c:904-941 -/
def ArgKey.initial : ArgKey → Bytes
  | .enc => [0x30, 0]
  | _ => List.replicate paramMaxLen 0

/-- `get_arg_value` with the array it writes to; `none`: the copy leaves the array.
mirrors ngx_agora_helper.c:1143-1163 -/
def fetch (args key value : Bytes) : Option (Int × Bytes) :=
  match strstr key args with
  | none => some (-1, value)
  | some keyStartPos =>
    let valueStartPos := key.length + 1
    let valueEndPos := findArgEnd keyStartPos
    if valueEndPos ≤ valueStartPos then some (-1, value)
    else (copy value 0 keyStartPos valueStartPos (valueEndPos - valueStartPos)).map fun value => (0, value)

/-- The calls `ngx_agora_init` makes.
mirrors ngx_agora_helper.c:949-1076 -/
def argCalls (args : Bytes) : List ArgKey :=
  match getArgValue args ArgKey.appid.text with
  | none => [.appid]
  | some _ =>
    match getArgValue args ArgKey.channel.text with
    | none => [.appid, .channel]
    | some _ => [.appid, .channel, .abr, .uid, .enc, .dvbr, .dwidth, .dheight, .dfps, .dual, .jb]

/-- The number of bytes the call copies. -/
def copied (args key : Bytes) : Nat :=
  match getArgValue args key with
  | none => 0
  | some v => v.length

/-- At most one byte behind `enc` and the character that follows it. -/
def EncShort (args : Bytes) : Prop :=
  (getArgValue args ArgKey.appid.text).isSome = true → (getArgValue args ArgKey.channel.text).isSome = true →
    ∀ r, strstr ArgKey.enc.text args = some r → findArgEnd r ≤ 5

/-! ## One call -/

theorem findArgEnd_le (r : Bytes) : findArgEnd r ≤ r.length := by
  unfold findArgEnd offset
  split
  · exact Nat.sub_le _ _
  · exact le_refl _

/-- What is copied is what the lookup finds. -/
theorem fetch_eq (args key value : Bytes) : fetch args key value =
    match getArgValue args key with
    | none => some (-1, value)
    | some v => (copy value 0 v 0 v.length).map fun value => (0, value) := by
  unfold fetch getArgValue
  cases strstr key args with
  | none => rfl
  | some r =>
    dsimp only
    have hle := findArgEnd_le r
    split
    · rfl
    · next hlong =>
      dsimp only
      rw [copy_slice (by omega)]

theorem copied_absent {args key : Bytes} (h : strstr key args = none) : copied args key = 0 := by
  unfold copied getArgValue
  rw [h]

theorem copied_found {args key r : Bytes} (h : strstr key args = some r) :
    copied args key = findArgEnd r - (key.length + 1) := by
  have hle := findArgEnd_le r
  unfold copied getArgValue
  rw [h]
  dsimp only
  by_cases hend : findArgEnd r ≤ key.length + 1
  · rw [if_pos hend]
    exact (Nat.sub_eq_zero_of_le hend).symm
  · rw [if_neg hend]
    dsimp only
    rw [List.length_take, List.length_drop]
    exact Nat.min_eq_left (Nat.sub_le_sub_right hle _)

/-- A value that is found is not empty, and is what stands behind the first occurrence of the key. -/
theorem getArgValue_found {args key v : Bytes} (h : getArgValue args key = some v) :
    ∃ r, strstr key args = some r ∧ key.length + 1 < findArgEnd r ∧
      v = (r.drop (key.length + 1)).take (findArgEnd r - (key.length + 1)) := by
  unfold getArgValue at h
  cases hs : strstr key args with
  | none =>
    rw [hs] at h
    cases h
  | some r =>
    rw [hs] at h
    dsimp only at h
    split at h
    · cases h
    · next hlong =>
      cases h
      exact ⟨r, rfl, Nat.lt_of_not_le hlong, rfl⟩

theorem getArgValue_ne_nil {args key v : Bytes} (h : getArgValue args key = some v) : v ≠ [] := by
  obtain ⟨r, -, hlong, rfl⟩ := getArgValue_found h
  have hle := findArgEnd_le r
  apply List.ne_nil_of_length_pos
  rw [List.length_take, List.length_drop]
  omega

/-- What is found is a part of the arguments. -/
theorem getArgValue_part {args key v : Bytes} (h : getArgValue args key = some v) : v <:+: args := by
  obtain ⟨r, hr, -, rfl⟩ := getArgValue_found h
  have hsuffix := (strstr_split key args r hr).2
  have htake := List.take_prefix (findArgEnd r - (key.length + 1)) (r.drop (key.length + 1))
  exact htake.isInfix.trans ((List.drop_suffix _ r).trans hsuffix).isInfix

theorem initial_zero {k : ArgKey} (h : k ≠ .enc) : k.initial = padded k.size [] := by
  cases k <;> first | rfl | exact absurd rfl h

theorem copy_initial {k : ArgKey} {v : Bytes} (hne : v ≠ []) (h : v.length < k.size) :
    copy k.initial 0 v 0 v.length = some (padded k.size v) := by
  by_cases hkey : k = .enc
  · subst hkey
    cases v with
    | nil => exact absurd rfl hne
    | cons b v =>
      have hsize : ArgKey.enc.size = 2 := rfl
      rw [List.length_cons, hsize] at h
      obtain rfl : v = [] := List.eq_nil_of_length_eq_zero (by omega)
      rfl
  · have hcopy : copy (padded k.size []) 0 v 0 v.length = some (padded k.size ([] ++ (v.drop 0).take v.length)) :=
      copy_padded (by rw [List.length_nil]; omega) (by rw [Nat.zero_add])
    rw [initial_zero hkey, hcopy, List.drop_zero, List.take_length, List.nil_append]

/-- A value that fits leaves the array zeroed behind it. -/
theorem fetch_fits (args : Bytes) (k : ArgKey) (h : copied args k.text < k.size) :
    ∃ rc value, fetch args k.text k.initial = some (rc, value) ∧ value.length = k.size ∧
      value.getLast? = some 0 ∧ ∀ v, getArgValue args k.text = some v → rc = 0 ∧ value = padded k.size v := by
  have hinitial : k.initial.length = k.size ∧ k.initial.getLast? = some 0 := by
    by_cases hkey : k = .enc
    · subst hkey
      exact ⟨rfl, rfl⟩
    · rw [initial_zero hkey]
      have hsize : 0 < k.size := by cases k <;> decide
      exact ⟨padded_length (Nat.zero_le _), padded_last hsize⟩
  unfold copied at h
  rw [fetch_eq]
  cases hv : getArgValue args k.text with
  | none => exact ⟨-1, k.initial, rfl, hinitial.1, hinitial.2, fun _ h => by cases h⟩
  | some v =>
    rw [hv] at h
    have hcopy := copy_initial (getArgValue_ne_nil hv) h
    dsimp only
    rw [hcopy]
    refine ⟨0, padded k.size v, rfl, padded_length (le_of_lt h), padded_last h, fun w hw => ?_⟩
    cases hw
    exact ⟨rfl, rfl⟩

/-! ## All calls -/

theorem copied_le (args key : Bytes) : copied args key ≤ args.length := by
  unfold copied
  cases hv : getArgValue args key with
  | none => exact Nat.zero_le _
  | some v => exact (getArgValue_part hv).length_le

theorem copied_enc (args : Bytes) :
    copied args ArgKey.enc.text < 2 ↔ ∀ r, strstr ArgKey.enc.text args = some r → findArgEnd r ≤ 5 := by
  have hkey : ArgKey.enc.text.length = 3 := rfl
  cases hs : strstr ArgKey.enc.text args with
  | none =>
    rw [copied_absent hs]
    simp
  | some r =>
    rw [copied_found hs, hkey]
    simp only [Option.some.injEq, forall_eq']
    omega

theorem argCalls_enc (args : Bytes) : ArgKey.enc ∈ argCalls args ↔
    (getArgValue args ArgKey.appid.text).isSome = true ∧ (getArgValue args ArgKey.channel.text).isSome = true := by
  unfold argCalls
  cases getArgValue args ArgKey.appid.text with
  | none => simp
  | some _ =>
    cases getArgValue args ArgKey.channel.text with
    | none => simp
    | some _ => simp

/-- The call is made exactly when the start goes on. -/
theorem parseOptions_enc (args : Bytes) :
    ArgKey.enc ∈ argCalls args ↔ (Init.parseOptions args).isSome = true := by
  rw [argCalls_enc]
  unfold Init.parseOptions
  cases getArgValue args ArgKey.appid.text with
  | none => simp
  | some _ =>
    cases getArgValue args ArgKey.channel.text with
    | none => simp
    | some _ => simp

/-- All arguments fit their arrays exactly when `enc` is short; and what fits is read back with
its terminating NUL, without a change. -/
theorem arguments_fit (args : Bytes) (h : args.length < maxArgs) :
    ((∀ k ∈ argCalls args, copied args k.text < k.size) ↔ EncShort args) ∧
      ∀ k ∈ argCalls args, copied args k.text < k.size →
        ∃ rc value, fetch args k.text k.initial = some (rc, value) ∧ value.length = k.size ∧
          value.getLast? = some 0 ∧ ∀ v, getArgValue args k.text = some v → rc = 0 ∧ value = padded k.size v := by
  refine ⟨?_, fun k _ hk => fetch_fits args k hk⟩
  constructor
  · intro hall happid hchannel
    exact (copied_enc args).mp (hall .enc ((argCalls_enc args).mpr ⟨happid, hchannel⟩))
  · intro henc k hk
    by_cases hkey : k = .enc
    · subst hkey
      obtain ⟨happid, hchannel⟩ := (argCalls_enc args).mp hk
      exact (copied_enc args).mpr (henc happid hchannel)
    · have hsize : k.size = 1024 := by
        cases k <;> first | rfl | exact absurd rfl hkey
      have hle := copied_le args k.text
      unfold maxArgs at h
      omega

theorem arguments_fit_short :
    ((∀ k ∈ argCalls (ascii "appid=a&channel=c&enc=1"), copied (ascii "appid=a&channel=c&enc=1") k.text < k.size) ↔
        EncShort (ascii "appid=a&channel=c&enc=1")) ∧
      ∀ k ∈ argCalls (ascii "appid=a&channel=c&enc=1"), copied (ascii "appid=a&channel=c&enc=1") k.text < k.size →
        ∃ rc value, fetch (ascii "appid=a&channel=c&enc=1") k.text k.initial = some (rc, value) ∧
          value.length = k.size ∧ value.getLast? = some 0 ∧
          ∀ v, getArgValue (ascii "appid=a&channel=c&enc=1") k.text = some v → rc = 0 ∧ value = padded k.size v :=
  arguments_fit (ascii "appid=a&channel=c&enc=1") (by decide)

theorem enc_unterminated :
    (ascii "appid=a&channel=c&enc=10").length < maxArgs ∧ ArgKey.enc ∈ argCalls (ascii "appid=a&channel=c&enc=10") ∧
      ¬ copied (ascii "appid=a&channel=c&enc=10") ArgKey.enc.text < ArgKey.enc.size ∧
      fetch (ascii "appid=a&channel=c&enc=10") ArgKey.enc.text ArgKey.enc.initial = some (0, ascii "10") ∧
      fetch (ascii "appid=a&channel=c&enc=100") ArgKey.enc.text ArgKey.enc.initial = none := by
  decide

end Rtmpg.Args
