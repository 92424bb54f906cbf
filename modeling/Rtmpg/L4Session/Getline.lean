import Rtmpg.L4Session.Config

/-!
# Does reading the configuration end?

The loop of `LocalConfig::readConfig` (`libagorac/helpers/localconfig.cpp:53-114`)
on the stream itself. `getline(buffer, 1024)` takes bytes up to a newline, to
the end of the file (then it sets eofbit), or until it has stored 1023 and
the line goes on (failbit); with one of the bits set it takes nothing. The
loop tests eofbit only.

* `getline_short`, `getline_last`, `getline_long`: what one call does to a line.
* `readLoop_failed`: from the failbit on there is no way out.
* `readLoop_eq`: a turn for each line, and the result of `readConfig`.
* `readConfig_ends`: it ends exactly when no line of 1024 bytes is read.
* `readConfig_hangs`: a comment of 1024 bytes.
-/
namespace Rtmpg.Config

structure IStream where
  rest : Bytes
  eofbit : Bool
  failbit : Bool
  deriving DecidableEq, Repr

inductive Stop where
  | eof
  | delim
  | full
  deriving DecidableEq, Repr

/-- The bytes stored, those left, and why it stopped, with room for `n` bytes. -/
def extract : Nat → Bytes → Bytes × Bytes × Stop
  | _, [] => ([], [], .eof)
  | 0, b :: s => if b = newline then ([], s, .delim) else ([], b :: s, .full)
  | n + 1, b :: s =>
    if b = newline then ([], s, .delim)
    else
      let (stored, left, stop) := extract n s
      (b :: stored, left, stop)

/-- `getline(buffer, 1024)`, with the string in `buffer`. -/
def getline (s : IStream) : IStream × Bytes :=
  if s.eofbit || s.failbit then ({ s with failbit := true }, [])
  else
    match extract 1023 s.rest with
    | (stored, left, .eof) => (⟨left, true, stored.isEmpty⟩, stored)
    | (stored, left, .delim) => (⟨left, false, false⟩, stored)
    | (stored, left, .full) => (⟨left, false, true⟩, stored)

/-- mirrors libagorac/helpers/localconfig.cpp:60-113 -/
def readLoop : Nat → LocalConfig → IStream → Option (Bool × LocalConfig)
  | 0, _, _ => none
  | fuel + 1, c, s =>
    if s.eofbit then some (true, validate c)
    else
      let (s, buffer) := getline s
      match processLine c buffer with
      | none => some (false, c)
      | some c => readLoop fuel c s

/-- `std::ifstream configFile(filePath, std::ios::in)` -/
def IStream.opened (file : Bytes) : IStream := ⟨file, false, false⟩

/-- A line of 1024 bytes is not reached, or is malformed itself. -/
def NoneTooLong (lines : List Bytes) : Prop :=
  ∀ before long behind, lines = before ++ long :: behind → 1024 ≤ long.length →
    ∃ text ∈ before ++ [long], Malformed text

/-! ## One call -/

theorem extract_line (n : Nat) (text : Bytes) (h : newline ∉ text) (more : Bytes) :
    extract n (text ++ newline :: more) =
      if text.length ≤ n then (text, more, .delim) else (text.take n, text.drop n ++ newline :: more, .full) := by
  induction text generalizing n with
  | nil => cases n <;> simp [extract]
  | cons b text ih =>
    have hb : b ≠ newline := fun e => h (e ▸ List.mem_cons_self)
    cases n with
    | zero => simp [extract, hb]
    | succ n =>
      simp only [List.cons_append, extract, if_neg hb, ih n fun hm => h (List.mem_cons_of_mem _ hm)]
      by_cases hle : text.length ≤ n <;> simp [hle]

theorem extract_last (n : Nat) (text : Bytes) (h : newline ∉ text) :
    extract n text = if text.length ≤ n then (text, [], .eof) else (text.take n, text.drop n, .full) := by
  induction text generalizing n with
  | nil => cases n <;> simp [extract]
  | cons b text ih =>
    have hb : b ≠ newline := fun e => h (e ▸ List.mem_cons_self)
    cases n with
    | zero => simp [extract, hb]
    | succ n =>
      simp only [extract, if_neg hb, ih n fun hm => h (List.mem_cons_of_mem _ hm)]
      by_cases hle : text.length ≤ n <;> simp [hle]

section
variable {text : Bytes} (hline : newline ∉ text)
include hline

theorem getline_short (h : text.length < 1024) (more : Bytes) :
    getline (.opened (text ++ newline :: more)) = (.opened more, text) := by
  unfold getline IStream.opened
  dsimp only
  rw [extract_line 1023 text hline, if_pos (Nat.le_of_lt_succ h)]
  rfl

theorem getline_last (h : text.length < 1024) : getline (.opened text) = (⟨[], true, text.isEmpty⟩, text) := by
  unfold getline IStream.opened
  dsimp only
  rw [extract_last 1023 text hline, if_pos (Nat.le_of_lt_succ h)]
  rfl

theorem getline_long (h : 1024 ≤ text.length) :
    (∀ more, ∃ left, getline (.opened (text ++ newline :: more)) = (⟨left, false, true⟩, text.take 1023)) ∧
      ∃ left, getline (.opened text) = (⟨left, false, true⟩, text.take 1023) := by
  have hlong : ¬ text.length ≤ 1023 := by omega
  unfold getline IStream.opened
  dsimp only
  refine ⟨fun more => ⟨text.drop 1023 ++ newline :: more, ?_⟩, text.drop 1023, ?_⟩
  · rw [extract_line 1023 text hline, if_neg hlong]
    rfl
  · rw [extract_last 1023 text hline, if_neg hlong]
    rfl

end

/-! ## The loop -/

/-- It reads empty lines for ever. -/
theorem readLoop_failed (c : LocalConfig) (left : Bytes) (fuel : Nat) :
    readLoop fuel c ⟨left, false, true⟩ = none := by
  have hempty : processLine c [] = some c := if_pos rfl
  have hgetline : getline ⟨left, false, true⟩ = (⟨left, false, true⟩, []) := rfl
  induction fuel with
  | zero => rfl
  | succ fuel ih => simp only [readLoop, Bool.false_eq_true, if_false, hgetline, hempty, ih]

theorem readLoop_turn {s s' : IStream} {buffer : Bytes} (hs : s.eofbit = false) (h : getline s = (s', buffer))
    (fuel : Nat) (c : LocalConfig) :
    readLoop (fuel + 1) c s = match processLine c buffer with
      | none => some (false, c)
      | some c => readLoop fuel c s' := by
  simp only [readLoop, hs, Bool.false_eq_true, if_false, h]

/-- A file is its first line and the rest, or one line. -/
theorem splitOn_newline (file : Bytes) :
    (newline ∉ file ∧ file.splitOn newline = [file]) ∨ ∃ text more, newline ∉ text ∧
      file = text ++ newline :: more ∧ file.splitOn newline = text :: more.splitOn newline := by
  by_cases h : newline ∈ file
  · obtain ⟨text, more, rfl, htext⟩ := List.eq_append_cons_of_mem h
    exact .inr ⟨text, more, htext, rfl, List.splitOn_append_cons_self_of_not_mem htext more⟩
  · exact .inl ⟨h, List.splitOn_eq_singleton h⟩

theorem readLoop_eq : ∀ (lines : List Bytes) (c : LocalConfig) (file : Bytes) (fuel : Nat),
    file.splitOn newline = lines → lines.length < fuel → readLoop fuel c (.opened file) = readLines c lines
  | _, _, _, 0, _, hfuel => absurd hfuel (Nat.not_lt_zero _)
  | [], _, _, _, h, _ => absurd h (List.splitOn_ne_nil _ _)
  | text :: rest, c, file, fuel + 1, h, hfuel => by
    rw [readLines]
    rcases splitOn_newline file with ⟨hfile, hone⟩ | ⟨text', more, htext, rfl, hsplit⟩
    · -- the last line, and the turn that finds the end
      rw [hone, List.cons.injEq] at h
      obtain ⟨rfl, rfl⟩ := h
      by_cases hlen : file.length < 1024
      · rw [readLoop_turn rfl (getline_last hfile hlen), List.take_of_length_le (by omega)]
        obtain ⟨fuel, rfl⟩ : ∃ n, fuel = n + 1 := ⟨fuel - 1, by simp at hfuel; omega⟩
        cases processLine c file with
        | none => rfl
        | some d => exact (if_neg (by omega)).symm
      · obtain ⟨left, hget⟩ := (getline_long hfile (by omega)).2
        rw [readLoop_turn rfl hget]
        cases processLine c (file.take 1023) with
        | none => rfl
        | some d => exact (readLoop_failed d left fuel).trans (if_pos (by omega)).symm
    · rw [hsplit, List.cons.injEq] at h
      obtain ⟨rfl, rfl⟩ := h
      by_cases hlen : text'.length < 1024
      · rw [readLoop_turn rfl (getline_short htext hlen more), List.take_of_length_le (by omega)]
        cases processLine c text' with
        | none => rfl
        | some d =>
          have ih := readLoop_eq (more.splitOn newline) d more fuel rfl (Nat.lt_of_succ_lt_succ hfuel)
          exact ih.trans (if_neg (by omega)).symm
      · obtain ⟨left, hget⟩ := (getline_long htext (by omega)).1 more
        rw [readLoop_turn rfl hget]
        cases processLine c (text'.take 1023) with
        | none => rfl
        | some d => exact (readLoop_failed d left fuel).trans (if_pos (by omega)).symm

theorem readLoop_mono {r : Bool × LocalConfig} (fuel more : Nat) (c : LocalConfig) (s : IStream)
    (h : readLoop fuel c s = some r) : readLoop (fuel + more) c s = some r := by
  induction fuel generalizing c s with
  | zero => cases h
  | succ fuel ih =>
    rw [Nat.add_right_comm]
    unfold readLoop at h ⊢
    split
    · next heof => rwa [if_pos heof] at h
    · next heof =>
      rw [if_neg heof] at h
      dsimp only at h ⊢
      split
      · next hp => rwa [hp] at h
      · next d hp =>
        rw [hp] at h
        exact ih d _ h

/-- The loop returns what `readConfig` does, and does not return where that is nothing. -/
theorem readLoop_iff (file : Bytes) (r : Bool × LocalConfig) :
    (∃ fuel, readLoop fuel defaults (.opened file) = some r) ↔ readConfig file = some r := by
  constructor
  · rintro ⟨fuel, h⟩
    have hmore := readLoop_mono fuel ((file.splitOn newline).length + 1) defaults _ h
    rwa [readLoop_eq _ defaults file _ rfl (by omega)] at hmore
  · exact fun h => ⟨_, (readLoop_eq _ defaults file _ rfl (Nat.lt_succ_self _)).trans h⟩

/-! ## The end -/

theorem noneTooLong_cons {text : Bytes} {lines : List Bytes} :
    NoneTooLong (text :: lines) ↔ Malformed text ∨ (text.length < 1024 ∧ NoneTooLong lines) := by
  constructor
  · intro h
    by_cases hbad : Malformed text
    · exact .inl hbad
    · refine .inr ⟨?_, fun before long behind hsplit hlong => ?_⟩
      · by_contra hlong
        obtain ⟨text', hmem, hbad'⟩ := h [] text lines rfl (by omega)
        rw [List.nil_append, List.mem_singleton] at hmem
        exact hbad (hmem ▸ hbad')
      · obtain ⟨text', hmem, hbad'⟩ := h (text :: before) long behind (by rw [hsplit, List.cons_append]) hlong
        rcases List.mem_cons.mp hmem with rfl | hmem
        · exact absurd hbad' hbad
        · exact ⟨text', hmem, hbad'⟩
  · rintro h before long behind hsplit hlong
    rcases List.cons_eq_append_iff.mp hsplit with ⟨rfl, hcons⟩ | ⟨before', rfl, htail⟩
    · cases hcons
      rcases h with hbad | ⟨hlt, -⟩
      · exact ⟨text, by simp, hbad⟩
      · omega
    · rcases h with hbad | ⟨-, hlines⟩
      · exact ⟨text, by simp, hbad⟩
      · obtain ⟨text', hmem, hbad⟩ := hlines before' long behind htail hlong
        exact ⟨text', List.mem_cons_of_mem _ hmem, hbad⟩

theorem readLines_ends (lines : List Bytes) (c : LocalConfig) :
    (∃ r, readLines c lines = some r) ↔ NoneTooLong lines := by
  induction lines generalizing c with
  | nil =>
    refine ⟨fun _ before long behind h => ?_, fun _ => ⟨_, rfl⟩⟩
    simp at h
  | cons text lines ih =>
    rw [noneTooLong_cons, readLines]
    cases hp : processLine c (text.take 1023) with
    | none => exact ⟨fun _ => .inl (processLine_none.mp hp), fun _ => ⟨_, rfl⟩⟩
    | some d =>
      have hok : ¬ Malformed text := fun hbad => by
        rw [processLine_none.mpr hbad] at hp
        cases hp
      by_cases hlong : 1024 ≤ text.length
      · simp [hok, hlong]
      · simp [hok, hlong, ih d, Nat.lt_of_not_le hlong]

/-- `readConfig` comes to an end exactly when it meets no line of 1024 bytes before it returns
false. -/
theorem readConfig_ends (file : Bytes) :
    (∃ fuel r, readLoop fuel defaults (.opened file) = some r) ↔ NoneTooLong (file.splitOn newline) := by
  rw [← readLines_ends _ defaults, exists_comm]
  exact exists_congr fun r => readLoop_iff file r

/-- A comment of 1024 bytes. -/
def longComment : Bytes := List.replicate 1024 0x2f

theorem readConfig_hangs : ¬ ∃ fuel r, readLoop fuel defaults (.opened longComment) = some r := by
  have hnone : readConfig longComment = none := by decide +kernel
  rintro ⟨fuel, r, h⟩
  rw [(readLoop_iff longComment r).mp ⟨fuel, h⟩] at hnone
  cases hnone

end Rtmpg.Config
