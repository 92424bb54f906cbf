import Rtmpg.L4Session.Params

/-!
# The slashes of the application id (`ngx_agora_replace_forward_slash`)

`ngx_agora_helper.c:863-892`. A `/` of the id arrives as `%2F`. Each round looks
for the first one from the start, puts the string together anew in a second
array, and copies it back. A copy that leaves an array is `none`, and so is a
loop that has not ended after `fuel` rounds.

* `replaceFirst_eq`: one round replaces the first occurrence.
* `slash_exact`: the loop ends with the replacement of all of them at once (`replaceAll`).
* `appid_slash`: for the id that `get_arg_value` leaves in its array.
-/
namespace Rtmpg.Args

open Rtmpg.CStr Rtmpg.Mem

/-- `forward_slash_text` -/
def forwardSlashText : Bytes := ascii "%2F"

def slash : UInt8 := 0x2f

/-- `memset(dst, 0, n)` -/
def clear (dst : Bytes) (n : Nat) : Option Bytes := copy dst 0 (List.replicate n 0) 0 n

/-- The body of the loop; `forwardSlashStartPos` is what `strstr` returned.
mirrors ngx_agora_helper.c:870-886 -/
def replaceFirst (appid forwardSlashStartPos : Bytes) : Option Bytes := do
  let str ← stringIn appid
  let tempBuffer := List.replicate paramMaxLen 0
  let beforeSlashTextLen := offset str forwardSlashStartPos
  let afterSlashTextLen := str.length - beforeSlashTextLen - forwardSlashText.length
  let tempBuffer ← copy tempBuffer 0 appid 0 beforeSlashTextLen
  let tempBuffer ← copy tempBuffer beforeSlashTextLen (ascii "/") 0 1
  let tempBuffer ← copy tempBuffer (beforeSlashTextLen + 1) appid (beforeSlashTextLen + forwardSlashText.length)
    afterSlashTextLen
  let appid ← clear appid paramMaxLen
  let replaced ← stringIn tempBuffer
  copy appid 0 tempBuffer 0 replaced.length

/-- mirrors ngx_agora_helper.c:863-892 -/
def replaceForwardSlash : Nat → Bytes → Option Bytes
  | 0, _ => none
  | fuel + 1, appid => do
    let str ← stringIn appid
    match strstr forwardSlashText str with
    | none => some appid
    | some forwardSlashStartPos => replaceForwardSlash fuel (← replaceFirst appid forwardSlashStartPos)

theorem text_ne_nil : forwardSlashText ≠ [] := by decide

theorem slash_notMem : slash ∉ forwardSlashText := by decide

/-! ## One round -/

theorem clear_padded {n : Nat} {s : Bytes} (h : s.length ≤ n) : clear (padded n s) n = some (padded n []) := by
  have hlen := padded_length h
  have hcopy : (0 + n ≤ (padded n s).length ∧ 0 + n ≤ (List.replicate n (0 : UInt8)).length) := by
    rw [List.length_replicate]
    omega
  unfold clear copy
  rw [if_pos hcopy]
  simp [padded, h]

/-- The position of the first occurrence is the length of what is before it. -/
theorem offset_cut {s u t r : Bytes} (hr : strstr forwardSlashText s = some r)
    (hcut : cut forwardSlashText s = some (u, t)) : offset s r = u.length := by
  have hle : offset s r ≤ s.length := Nat.sub_le _ _
  rw [strstr_cut forwardSlashText text_ne_nil, hr] at hcut
  cases hcut
  rw [List.length_take, Nat.min_eq_left hle]

/-- A round leaves a shorter string. -/
theorem spliced_string {s u t : Bytes} (hs : 0 ∉ s) (hcut : cut forwardSlashText s = some (u, t)) :
    0 ∉ u ++ slash :: t ∧ (u ++ slash :: t).length + 2 = s.length := by
  obtain ⟨rfl, -⟩ := cut_some text_ne_nil hcut
  have htext : forwardSlashText.length = 3 := rfl
  constructor
  · simp only [List.mem_append, List.mem_cons, not_or] at hs ⊢
    exact ⟨hs.1.1, by decide, hs.2⟩
  · simp only [List.length_append, List.length_cons, htext]
    omega

theorem replaceFirst_eq {s u t r : Bytes} (hs : 0 ∉ s) (hlen : s.length < paramMaxLen)
    (hr : strstr forwardSlashText s = some r) (hcut : cut forwardSlashText s = some (u, t)) :
    replaceFirst (padded paramMaxLen s) r = some (padded paramMaxLen (u ++ slash :: t)) := by
  obtain ⟨hsplit, -⟩ := cut_some text_ne_nil hcut
  obtain ⟨hfree, hshort⟩ := spliced_string hs hcut
  have htext : forwardSlashText.length = 3 := rfl
  have hlens : (u ++ slash :: t).length = u.length + 1 + t.length := by
    rw [List.length_append, List.length_cons]
    omega
  have hpadded : padded paramMaxLen s =
      u ++ (forwardSlashText ++ (t ++ List.replicate (paramMaxLen - s.length) 0)) := by
    unfold padded
    conv => lhs; lhs; rw [hsplit]
    simp only [List.append_assoc]
  have hbefore : copy (List.replicate paramMaxLen 0) 0 (padded paramMaxLen s) 0 u.length =
      some (padded paramMaxLen u) := by
    rw [hpadded]
    exact copy_between paramMaxLen [] [] u _ (by rw [List.length_nil]; omega)
  have hslash : copy (padded paramMaxLen u) u.length (ascii "/") 0 1 = some (padded paramMaxLen (u ++ [slash])) :=
    copy_between paramMaxLen u [] [slash] [] (by rw [List.length_singleton]; omega)
  have hafter : copy (padded paramMaxLen (u ++ [slash])) (u.length + 1) (padded paramMaxLen s) (u.length + 3) t.length =
      some (padded paramMaxLen (u ++ slash :: t)) := by
    have hcopy := copy_between paramMaxLen (u ++ [slash]) (u ++ forwardSlashText) t
      (List.replicate (paramMaxLen - s.length) 0) (by rw [List.length_append, List.length_singleton]; omega)
    rw [List.length_append, List.length_append, List.length_singleton, htext, List.append_assoc u, List.append_assoc u,
      List.singleton_append] at hcopy
    rw [hpadded]
    exact hcopy
  have hback : copy (padded paramMaxLen []) 0 (padded paramMaxLen (u ++ slash :: t)) 0 (u ++ slash :: t).length =
      some (padded paramMaxLen (u ++ slash :: t)) :=
    copy_between paramMaxLen [] [] (u ++ slash :: t) _ (by rw [List.length_nil]; omega)
  have hcount : s.length - u.length - 3 = t.length := by omega
  have hreplaced : stringIn (padded paramMaxLen (u ++ slash :: t)) = some (u ++ slash :: t) :=
    stringIn_padded hfree (by omega)
  unfold replaceFirst
  simp only [stringIn_padded hs hlen, offset_cut hr hcut, htext, hcount, hbefore, hslash, hafter,
    clear_padded (le_of_lt hlen), hreplaced, Option.bind_eq_bind, Option.bind_some, hback]

/-! ## The loop -/

/-- Every round makes the string shorter and leaves the replacement of the whole as it is. -/
theorem replaceForwardSlash_eq {s : Bytes} {fuel : Nat} (hs : 0 ∉ s) (hlen : s.length < paramMaxLen)
    (hfuel : s.length < fuel) : replaceForwardSlash fuel (padded paramMaxLen s) =
      some (padded paramMaxLen (replaceAll forwardSlashText slash s)) := by
  induction fuel generalizing s with
  | zero => exact absurd hfuel (Nat.not_lt_zero _)
  | succ fuel ih =>
    have hcut := strstr_cut forwardSlashText text_ne_nil s
    cases hr : strstr forwardSlashText s with
    | none =>
      rw [hr] at hcut
      have hfree := (cut_none text_ne_nil).mp hcut
      rw [replaceForwardSlash, stringIn_padded hs hlen, replaceAll_none text_ne_nil hfree]
      simp only [Option.bind_eq_bind, Option.bind_some, hr]
    | some r =>
      rw [hr] at hcut
      obtain ⟨⟨u, t⟩, hcut⟩ : ∃ p, cut forwardSlashText s = some p := ⟨_, hcut⟩
      obtain ⟨hfree, hshort⟩ := spliced_string hs hcut
      have hrest := ih hfree (by omega) (by omega)
      rw [replaceForwardSlash, stringIn_padded hs hlen]
      simp only [Option.bind_eq_bind, Option.bind_some, hr, replaceFirst_eq hs hlen hr hcut, hrest,
        replaceAll_step text_ne_nil slash_notMem hcut]

/-- The string behind the loop is again one that the loop can be given. -/
theorem replaced_string {s : Bytes} (hs : 0 ∉ s) (hlen : s.length < paramMaxLen) :
    0 ∉ replaceAll forwardSlashText slash s ∧ (replaceAll forwardSlashText slash s).length < paramMaxLen := by
  constructor
  · intro hzero
    rcases mem_replaceAll hzero with hslash | hmem
    · cases hslash
    · exact hs hmem
  · exact lt_of_le_of_lt (replaceAll_length forwardSlashText slash s) hlen

/-- Every `%2F` becomes a slash, at once and from the left, inside the array; nothing is left to
replace, and a token that was written with `%2F` is read back. -/
theorem slash_exact (s : Bytes) (hs : 0 ∉ s) (hlen : s.length < paramMaxLen) :
    ∃ appid, (∀ fuel, s.length < fuel → replaceForwardSlash fuel (padded paramMaxLen s) = some appid) ∧
      appid.length = paramMaxLen ∧ stringIn appid = some (replaceAll forwardSlashText slash s) ∧
      (∃ us : List Bytes, us ≠ [] ∧ (∀ u ∈ us, ¬ forwardSlashText <:+: u) ∧ s = forwardSlashText.intercalate us ∧
        replaceAll forwardSlashText slash s = [slash].intercalate us) ∧
      ¬ forwardSlashText <:+: replaceAll forwardSlashText slash s ∧
      (∀ fuel, s.length < fuel → replaceForwardSlash fuel appid = some appid) ∧
      ∀ token, ¬ forwardSlashText <:+: token → s = expandAll forwardSlashText slash token →
        stringIn appid = some token := by
  obtain ⟨hfree, hshort⟩ := replaced_string hs hlen
  have hstring := stringIn_padded hfree hshort
  refine ⟨padded paramMaxLen (replaceAll forwardSlashText slash s), ?_, padded_length (le_of_lt hshort), hstring,
    replaceAll_pieces text_ne_nil slash s, replaceAll_free text_ne_nil slash_notMem s, ?_, ?_⟩
  · intro fuel hfuel
    exact replaceForwardSlash_eq hs hlen hfuel
  · intro fuel hfuel
    have hle := replaceAll_length forwardSlashText slash s
    rw [replaceForwardSlash_eq hfree hshort (by omega), replaceAll_idem text_ne_nil slash_notMem]
  · intro token htoken henc
    have hback : replaceAll forwardSlashText slash (expandAll forwardSlashText slash token) = token :=
      replaceAll_expandAll (by decide) htoken
    rw [hstring, henc, hback]

/-- `a%2%2FF`, where the replacement leaves the letters of `%2F` apart -/
theorem slash_exact_split :
    ∃ appid, (∀ fuel, (ascii "a%2%2FF").length < fuel →
        replaceForwardSlash fuel (padded paramMaxLen (ascii "a%2%2FF")) = some appid) ∧
      appid.length = paramMaxLen ∧ stringIn appid = some (replaceAll forwardSlashText slash (ascii "a%2%2FF")) ∧
      (∃ us : List Bytes, us ≠ [] ∧ (∀ u ∈ us, ¬ forwardSlashText <:+: u) ∧
        ascii "a%2%2FF" = forwardSlashText.intercalate us ∧
        replaceAll forwardSlashText slash (ascii "a%2%2FF") = [slash].intercalate us) ∧
      ¬ forwardSlashText <:+: replaceAll forwardSlashText slash (ascii "a%2%2FF") ∧
      (∀ fuel, (ascii "a%2%2FF").length < fuel → replaceForwardSlash fuel appid = some appid) ∧
      ∀ token, ¬ forwardSlashText <:+: token → ascii "a%2%2FF" = expandAll forwardSlashText slash token →
        stringIn appid = some token :=
  slash_exact (ascii "a%2%2FF") (by decide) (by decide)

example : replaceAll forwardSlashText slash (ascii "a%2%2FF") = ascii "a%2/F" := by decide

/-- The id that `ngx_agora_init` is given: `get_arg_value` leaves it as the loop wants it. -/
theorem appid_slash {args v : Bytes} (h : args.length < maxArgs) (hargs : 0 ∉ args)
    (hv : getArgValue args ArgKey.appid.text = some v) :
    ∃ value, fetch args ArgKey.appid.text ArgKey.appid.initial = some (0, value) ∧
      ∀ fuel, v.length < fuel →
        replaceForwardSlash fuel value = some (padded paramMaxLen (replaceAll forwardSlashText slash v)) := by
  have hcopied : copied args ArgKey.appid.text = v.length := by
    unfold copied
    rw [hv]
  have hpart := getArgValue_part hv
  have hlen : v.length < paramMaxLen := lt_of_le_of_lt hpart.length_le (h.trans (by decide))
  obtain ⟨rc, value, hfetch, -, -, hvalue⟩ := fetch_fits args .appid (hcopied.trans_lt hlen)
  obtain ⟨rfl, rfl⟩ := hvalue v hv
  have hfree : 0 ∉ v := fun hmem => hargs (hpart.subset hmem)
  exact ⟨_, hfetch, fun fuel hfuel => replaceForwardSlash_eq hfree hlen hfuel⟩

end Rtmpg.Args
