import Rtmpg.Core.CStr

/-!
# The URL arguments (`get_arg_value`)

`ngx_agora_helper.c:1131-1163`. The arguments of a stream URL are parameters
`name=value` joined by `&`; `get_arg_value` looks for a key with `strstr`,
anywhere in the string, and skips one character behind it.

* `getArgValue_render`: what the lookup returns is decided by the first
  parameter whose text contains the key (`scan`).
* `getArgValue_exact`: it is the value of the first parameter of that name
  exactly when no other parameter's text shadows it (`Unshadowed`).
* `getArgValue_shadowed`: an `appid` that ends in `jb` hides the `jb`
  parameter behind it.
-/
namespace Rtmpg.Args

open Rtmpg.CStr

def amp : UInt8 := 0x26
def eq : UInt8 := 0x3d

/-- The end of the argument that `arg` points into, as an offset from `arg`.
mirrors ngx_agora_helper.c:1131-1141 -/
def findArgEnd (arg : Bytes) : Nat :=
  match strchr amp arg with
  | some endPos => offset arg endPos
  | none => arg.length

/-- `none` is -1, and `some v` is 0 with `v` written to `value`. Positions are
offsets from `key_start_pos`.
mirrors ngx_agora_helper.c:1143-1163 -/
def getArgValue (args key : Bytes) : Option Bytes :=
  match strstr key args with
  | none => none
  | some keyStartPos =>
    let valueStartPos := key.length + 1
    let valueEndPos := findArgEnd keyStartPos
    if valueEndPos ≤ valueStartPos then none
    else some ((keyStartPos.drop valueStartPos).take (valueEndPos - valueStartPos))

/-- The keys `ngx_agora_init` asks for.
mirrors ngx_agora_helper.c:949-1076 -/
inductive ArgKey where
  | appid | channel | abr | uid | enc | dvbr | dwidth | dheight | dfps | dual | jb
  deriving DecidableEq, Repr

def ArgKey.text : ArgKey → Bytes
  | .appid => ascii "appid"
  | .channel => ascii "channel"
  | .abr => ascii "abr"
  | .uid => ascii "uid"
  | .enc => ascii "enc"
  | .dvbr => ascii "dvbr"
  | .dwidth => ascii "dwidth"
  | .dheight => ascii "dheight"
  | .dfps => ascii "dfps"
  | .dual => ascii "dual"
  | .jb => ascii "jb"

theorem text_plain (k : ArgKey) : k.text ≠ [] ∧ amp ∉ k.text ∧ eq ∉ k.text := by
  cases k <;> decide

/-! ## Parameters -/

structure Param where
  name : Bytes
  value : Bytes
  name_amp : amp ∉ name
  name_eq : eq ∉ name
  value_amp : amp ∉ value

def Param.text (p : Param) : Bytes := p.name ++ eq :: p.value

/-- The argument string. -/
def render : List Param → Bytes
  | [] => []
  | [p] => p.text
  | p :: q :: ps => p.text ++ amp :: render (q :: ps)

def firstNamed (key : Bytes) (ps : List Param) : Option Param := ps.find? fun p => p.name = key

/-- The value of the first parameter of that name, empty when there is none. -/
def valueOf (key : Bytes) (ps : List Param) : Bytes := ((firstNamed key ps).map Param.value).getD []

/-- The lookup does what it is for. -/
def Exact (key : Bytes) (ps : List Param) : Prop :=
  ((getArgValue (render ps) key).isSome ↔ ∃ p, firstNamed key ps = some p ∧ p.value ≠ []) ∧
    ∀ v, getArgValue (render ps) key = some v → ∃ p, firstNamed key ps = some p ∧ v = p.value

/-- No text of another parameter changes the result for `key`: the first parameter
whose text contains it is named so, or the text behind that first occurrence,
less one byte, happens to be the value that was asked for. -/
def Unshadowed (key : Bytes) : List Param → Prop
  | [] => True
  | p :: ps =>
    p.name = key ∨
      match strstr key p.text with
      | none => Unshadowed key ps
      | some r => r.drop (key.length + 1) = valueOf key ps

/-! ## The lookup, parameter by parameter -/

/-- What the code makes of the text from the key on, inside one parameter. -/
def behindKey (key r : Bytes) : Option Bytes :=
  if r.drop (key.length + 1) = [] then none else some (r.drop (key.length + 1))

def scan (key : Bytes) : List Param → Option Bytes
  | [] => none
  | p :: ps =>
    match strstr key p.text with
    | none => scan key ps
    | some r => behindKey key r

theorem text_amp (p : Param) : amp ∉ p.text := by
  rw [Param.text, List.mem_append, List.mem_cons]
  rintro (h | h | h)
  · exact p.name_amp h
  · exact absurd h (by decide)
  · exact p.value_amp h

theorem findArgEnd_last (s : Bytes) (h : amp ∉ s) : findArgEnd s = s.length := by
  rw [findArgEnd, strchr_none amp s h]

theorem findArgEnd_amp (s t : Bytes) (h : amp ∉ s) : findArgEnd (s ++ amp :: t) = s.length := by
  rw [findArgEnd, strchr_append amp s t h]
  simp [offset]

/-- The pointer arithmetic of `get_arg_value`, on the text up to the next `&`. -/
theorem behindKey_eq (key r t : Bytes) :
    (if r.length ≤ key.length + 1 then none
      else some (((r ++ t).drop (key.length + 1)).take (r.length - (key.length + 1)))) = behindKey key r := by
  unfold behindKey
  by_cases h : r.length ≤ key.length + 1
  · rw [if_pos h, if_pos (List.drop_of_length_le h)]
  · rw [if_neg h, if_neg (by rw [List.drop_eq_nil_iff]; exact h), List.drop_append_of_le_length (by omega)]
    congr 1
    exact List.take_left' (List.length_drop ..)

theorem mem_of_strstr {key s r : Bytes} (h : strstr key s = some r) {b : UInt8} (hb : b ∉ s) : b ∉ r :=
  fun hr => hb ((strstr_split key s r h).2.subset hr)

theorem getArgValue_render (key : Bytes) (hk : key ≠ []) (hamp : amp ∉ key) :
    ∀ ps : List Param, getArgValue (render ps) key = scan key ps
  | [] => by rw [render, getArgValue, strstr, if_neg hk]; rfl
  | [p] => by
    rw [render, getArgValue, scan]
    cases hs : strstr key p.text with
    | none => rfl
    | some r =>
      have hend := findArgEnd_last r (mem_of_strstr hs (text_amp p))
      have hb := behindKey_eq key r []
      rw [List.append_nil] at hb
      simp only [hend, hb]
  | p :: q :: ps => by
    have ih := getArgValue_render key hk hamp (q :: ps)
    rw [render, getArgValue, scan, strstr_fields hamp hk]
    cases hs : strstr key p.text with
    | none => exact ih
    | some r =>
      have hend := findArgEnd_amp r (render (q :: ps)) (mem_of_strstr hs (text_amp p))
      simp only [hend, behindKey_eq]

/-! ## When it is exact -/

theorem firstNamed_cons (key : Bytes) (p : Param) (ps : List Param) :
    firstNamed key (p :: ps) = if p.name = key then some p else firstNamed key ps := by
  rw [firstNamed, List.find?_cons]
  by_cases h : p.name = key <;> simp [h, firstNamed]

/-- The purpose of the lookup as one equation. -/
theorem exact_iff (key : Bytes) (ps : List Param) :
    Exact key ps ↔ getArgValue (render ps) key =
      if valueOf key ps = [] then none else some (valueOf key ps) := by
  unfold Exact valueOf
  cases hp : firstNamed key ps with
  | none =>
    cases getArgValue (render ps) key <;> simp
  | some p =>
    by_cases hv : p.value = []
    · cases getArgValue (render ps) key <;> simp [hv]
    · cases getArgValue (render ps) key <;> simp [hv]

/-- A parameter named `key` contains it at its start. -/
theorem strstr_named (p : Param) : strstr p.name p.text = some p.text :=
  strstr_self _ _ (List.prefix_append _ _)

theorem drop_named (p : Param) : p.text.drop (p.name.length + 1) = p.value := by
  rw [Param.text, List.drop_append, List.drop_of_length_le (by omega)]
  simp

theorem scan_exact (key : Bytes) : ∀ ps : List Param,
    (scan key ps = if valueOf key ps = [] then none else some (valueOf key ps)) ↔ Unshadowed key ps
  | [] => by simp [scan, valueOf, firstNamed, Unshadowed]
  | p :: ps => by
    have ih := scan_exact key ps
    rw [scan, Unshadowed, valueOf, firstNamed_cons]
    by_cases hn : p.name = key
    · subst hn
      simp [strstr_named, behindKey, drop_named]
    · rw [if_neg hn, ← valueOf]
      cases hs : strstr key p.text with
      | none => simpa [hn] using ih
      | some r =>
        simp only [behindKey, hn, false_or]
        by_cases h1 : r.drop (key.length + 1) = [] <;> by_cases h2 : valueOf key ps = []
        · simp [h1, h2]
        · simp [h1, h2, Ne.symm h2]
        · simp [h1, h2]
        · simp [h1, h2]

/-- For every key `ngx_agora_init` asks for. -/
theorem getArgValue_exact (key : ArgKey) (ps : List Param) :
    Exact key.text ps ↔ Unshadowed key.text ps := by
  obtain ⟨hne, hamp, -⟩ := text_plain key
  rw [exact_iff, getArgValue_render key.text hne hamp, scan_exact]

/-- `appid=1jb&channel=c&jb=8` -/
def shadowed : List Param :=
  [⟨ascii "appid", ascii "1jb", by decide, by decide, by decide⟩,
    ⟨ascii "channel", ascii "c", by decide, by decide, by decide⟩,
    ⟨ascii "jb", ascii "8", by decide, by decide, by decide⟩]

theorem getArgValue_shadowed :
    render shadowed = ascii "appid=1jb&channel=c&jb=8" ∧
      getArgValue (render shadowed) ArgKey.jb.text = none ∧ ¬ Exact ArgKey.jb.text shadowed := by
  have hnone : getArgValue (render shadowed) ArgKey.jb.text = none := by decide
  refine ⟨by decide, hnone, ?_⟩
  rw [exact_iff, hnone]
  decide

end Rtmpg.Args
