import Mathlib.Tactic.Common

/-!
# Replacing a pattern by one symbol

`replaceAll pat c s` puts `c` for every occurrence of `pat`, in one pass from
the left; `cut` finds the first occurrence; `expandAll` goes the other way. The
pattern is not empty and does not contain `c`, so no replacement makes a new
occurrence.

* `replaceAll_pieces`: what is between the occurrences stays.
* `replaceAll_step`: to replace the first occurrence changes nothing for the rest.
* `replaceAll_free`, `replaceAll_idem`: no occurrence is left.
* `replaceAll_expandAll`: it undoes `expandAll`, on lists without the pattern.
-/
namespace Rtmpg

variable {α : Type}

/-- A list without the separator that starts before it ends before it. -/
theorem prefix_before_sep {pat : List α} {c : α} (hc : c ∉ pat) :
    ∀ s t : List α, pat <+: s ++ c :: t ↔ pat <+: s := by
  induction pat with
  | nil => intro s t; simp
  | cons p pat ih =>
    intro s t
    have hne : p ≠ c := fun e => hc (by simp [e])
    have htl : c ∉ pat := fun m => hc (List.mem_cons_of_mem _ m)
    cases s with
    | nil => simp [hne]
    | cons a s => rw [List.cons_append, List.cons_prefix_cons, List.cons_prefix_cons, ih htl]

theorem infix_before_sep {pat : List α} {c : α} (hc : c ∉ pat) (s t : List α) (h : pat <:+: s ++ c :: t) :
    pat <:+: s ∨ pat <:+: t := by
  induction s with
  | nil =>
    rcases List.infix_cons_iff.mp h with hp | hi
    · have hnil := (prefix_before_sep hc [] t).mp hp
      exact .inl hnil.isInfix
    · exact .inr hi
  | cons a s ih =>
    rcases List.infix_cons_iff.mp h with hp | hi
    · exact .inl ((prefix_before_sep hc (a :: s) t).mp hp).isInfix
    · rcases ih hi with hs | ht
      · exact .inl (List.infix_cons_iff.mpr (.inr hs))
      · exact .inr ht

/-! ## The operations -/

variable [DecidableEq α]

/-- Behind `skip` symbols. -/
def replaceFrom (pat : List α) (c : α) : Nat → List α → List α
  | _, [] => []
  | skip + 1, _ :: s => replaceFrom pat c skip s
  | 0, a :: s =>
    if pat <+: a :: s then c :: replaceFrom pat c (pat.length - 1) s else a :: replaceFrom pat c 0 s

def replaceAll (pat : List α) (c : α) (s : List α) : List α := replaceFrom pat c 0 s

/-- What is before and behind the first occurrence. -/
def cut (pat : List α) : List α → Option (List α × List α)
  | [] => none
  | a :: s =>
    if pat <+: a :: s then some ([], (a :: s).drop pat.length)
    else (cut pat s).map fun (before, behind) => (a :: before, behind)

def expandAll (pat : List α) (c : α) (s : List α) : List α := s.flatMap fun a => if a = c then pat else [a]

/-! ## The first occurrence -/

section
variable {pat : List α} {c : α}

theorem cut_none (hne : pat ≠ []) {s : List α} : cut pat s = none ↔ ¬ pat <:+: s := by
  induction s with
  | nil => simp [cut, hne]
  | cons a s ih =>
    rw [cut, List.infix_cons_iff]
    by_cases hp : pat <+: a :: s
    · simp [hp]
    · simp [hp, ih]

theorem cut_some (hne : pat ≠ []) {s u t : List α} (h : cut pat s = some (u, t)) :
    s = u ++ pat ++ t ∧ ¬ pat <:+: u := by
  induction s generalizing u with
  | nil => cases h
  | cons a s ih =>
    rw [cut] at h
    split at h
    · next hp =>
      cases h
      obtain ⟨r, hr⟩ := hp
      refine ⟨?_, by simp [hne]⟩
      rw [← hr, List.drop_left, List.nil_append]
    · next hp =>
      obtain ⟨⟨u', t'⟩, hcut, heq⟩ := Option.map_eq_some_iff.mp h
      cases heq
      obtain ⟨rfl, hu⟩ := ih hcut
      refine ⟨rfl, fun hi => ?_⟩
      rcases List.infix_cons_iff.mp hi with hpre | hi
      · apply hp
        rw [List.append_assoc]
        exact hpre.trans (List.prefix_append (a :: u') _)
      · exact hu hi

/-! ## One pass -/

theorem replaceFrom_skip : ∀ (n : Nat) (s : List α), replaceFrom pat c n s = replaceAll pat c (s.drop n)
  | 0, _ => rfl
  | _ + 1, [] => rfl
  | n + 1, _ :: s => replaceFrom_skip n s

theorem replaceFrom_length (n : Nat) (s : List α) : (replaceFrom pat c n s).length ≤ s.length := by
  induction s generalizing n with
  | nil => simp [replaceFrom]
  | cons a s ih =>
    cases n with
    | succ n => exact Nat.le_succ_of_le (ih n)
    | zero =>
      rw [replaceFrom]
      split
      · exact Nat.succ_le_succ (ih _)
      · exact Nat.succ_le_succ (ih 0)

theorem replaceAll_length (pat : List α) (c : α) (s : List α) : (replaceAll pat c s).length ≤ s.length :=
  replaceFrom_length 0 s

theorem mem_replaceFrom {b : α} (n : Nat) (s : List α) (h : b ∈ replaceFrom pat c n s) : b = c ∨ b ∈ s := by
  induction s generalizing n with
  | nil => simp [replaceFrom] at h
  | cons a s ih =>
    cases n with
    | succ n => exact (ih n h).imp_right (List.mem_cons_of_mem _)
    | zero =>
      rw [replaceFrom] at h
      split at h
      · rcases List.mem_cons.mp h with rfl | h
        · exact .inl rfl
        · exact (ih _ h).imp_right (List.mem_cons_of_mem _)
      · rcases List.mem_cons.mp h with rfl | h
        · exact .inr List.mem_cons_self
        · exact (ih 0 h).imp_right (List.mem_cons_of_mem _)

theorem mem_replaceAll {b : α} {s : List α} (h : b ∈ replaceAll pat c s) : b = c ∨ b ∈ s :=
  mem_replaceFrom 0 s h

theorem replaceAll_cons (hne : pat ≠ []) (a : α) (s : List α) : replaceAll pat c (a :: s) =
    if pat <+: a :: s then c :: replaceAll pat c ((a :: s).drop pat.length) else a :: replaceAll pat c s := by
  obtain ⟨n, hn⟩ : ∃ n, pat.length = n + 1 := ⟨pat.length - 1, by have := List.length_pos_iff.mpr hne; omega⟩
  unfold replaceAll
  rw [replaceFrom, replaceFrom_skip, hn]
  rfl

theorem replaceAll_none (hne : pat ≠ []) {s : List α} (h : ¬ pat <:+: s) : replaceAll pat c s = s := by
  induction s with
  | nil => rfl
  | cons a s ih =>
    rw [List.infix_cons_iff, not_or] at h
    rw [replaceAll_cons hne, if_neg h.1, ih h.2]

theorem replaceAll_cut (hne : pat ≠ []) {s u t : List α} (h : cut pat s = some (u, t)) :
    replaceAll pat c s = u ++ c :: replaceAll pat c t := by
  induction s generalizing u with
  | nil => cases h
  | cons a s ih =>
    rw [cut] at h
    rw [replaceAll_cons hne]
    split at h
    · next hp =>
      cases h
      rw [if_pos hp, List.nil_append]
    · next hp =>
      obtain ⟨⟨u', t'⟩, hcut, heq⟩ := Option.map_eq_some_iff.mp h
      cases heq
      rw [if_neg hp, ih hcut, List.cons_append]

/-- The parts between the occurrences, in order, are joined by the symbol instead. -/
theorem replaceAll_pieces (hne : pat ≠ []) (c : α) (s : List α) : ∃ us : List (List α), us ≠ [] ∧
    (∀ u ∈ us, ¬ pat <:+: u) ∧ s = pat.intercalate us ∧ replaceAll pat c s = [c].intercalate us := by
  cases hcut : cut pat s with
  | none =>
    have hfree := (cut_none hne).mp hcut
    exact ⟨[s], by simp, by simpa using hfree, by simp, by simp [replaceAll_none hne hfree]⟩
  | some p =>
    obtain ⟨u, t⟩ := p
    obtain ⟨hs, hu⟩ := cut_some hne hcut
    have hpos := List.length_pos_iff.mpr hne
    have hlen : t.length < s.length := by
      simp only [hs, List.length_append]
      omega
    obtain ⟨us, hus, hfree, ht, hr⟩ := replaceAll_pieces hne c t
    refine ⟨u :: us, by simp, ?_, ?_, ?_⟩
    · intro v hv
      rcases List.mem_cons.mp hv with rfl | hv
      · exact hu
      · exact hfree v hv
    · rw [List.intercalate_cons_of_ne_nil hus, ← ht, hs]
    · rw [List.intercalate_cons_of_ne_nil hus, ← hr, replaceAll_cut hne hcut]
      simp
termination_by s.length

section
variable (hne : pat ≠ []) (hc : c ∉ pat)
include hne hc

/-- A symbol that is not in the pattern ends a part that is passed over. -/
theorem replaceAll_over (t : List α) {u : List α} (h : ¬ pat <:+: u) :
    replaceAll pat c (u ++ c :: t) = u ++ c :: replaceAll pat c t := by
  induction u with
  | nil =>
    have hp : ¬ pat <+: c :: t := fun hp => h ((prefix_before_sep hc [] t).mp hp).isInfix
    rw [List.nil_append, replaceAll_cons hne, if_neg hp, List.nil_append]
  | cons a u ih =>
    rw [List.infix_cons_iff, not_or] at h
    have hp : ¬ pat <+: a :: (u ++ c :: t) := fun hp => h.1 ((prefix_before_sep hc (a :: u) t).mp hp)
    rw [List.cons_append, replaceAll_cons hne, if_neg hp, ih h.2, List.cons_append]

theorem replaceAll_step {s u t : List α} (h : cut pat s = some (u, t)) :
    replaceAll pat c (u ++ c :: t) = replaceAll pat c s := by
  rw [replaceAll_over hne hc t (cut_some hne h).2, replaceAll_cut hne h]

omit [DecidableEq α] in
theorem pieces_free : ∀ (us : List (List α)), (∀ u ∈ us, ¬ pat <:+: u) → ¬ pat <:+: [c].intercalate us
  | [], _ => by simpa using hne
  | [u], h => by simpa using h u (by simp)
  | u :: v :: us, h => by
    have ih := pieces_free (v :: us) fun w hw => h w (List.mem_cons_of_mem _ hw)
    rw [List.intercalate_cons_of_ne_nil (by simp), List.append_assoc, List.singleton_append]
    intro hi
    rcases infix_before_sep hc _ _ hi with hu | hrest
    · exact h u (by simp) hu
    · exact ih hrest

theorem replaceAll_free (s : List α) : ¬ pat <:+: replaceAll pat c s := by
  obtain ⟨us, -, hfree, -, hr⟩ := replaceAll_pieces hne c s
  rw [hr]
  exact pieces_free hne hc us hfree

theorem replaceAll_idem (s : List α) : replaceAll pat c (replaceAll pat c s) = replaceAll pat c s :=
  replaceAll_none hne (replaceAll_free hne hc s)

end

end

/-! ## The other way -/

section
variable {p c : α} {q : List α}

/-- An expanded symbol begins with `p`, so the rest of the pattern does not reach into it. -/
theorem prefix_expandAll (c : α) {r t : List α} (hr : p ∉ r) (h : r <+: expandAll (p :: q) c t) : r <+: t := by
  induction r generalizing t with
  | nil => exact List.nil_prefix
  | cons b r ih =>
    cases t with
    | nil => simp [expandAll] at h
    | cons a t =>
      have hb : p ≠ b := fun e => hr (by simp [e])
      have hr' : p ∉ r := fun hm => hr (List.mem_cons_of_mem _ hm)
      by_cases ha : a = c
      · have hb' : b = p := by
          have hlong : b :: r <+: p :: (q ++ expandAll (p :: q) c t) := by simpa [expandAll, ha] using h
          exact (List.cons_prefix_cons.mp hlong).1
        exact absurd hb'.symm hb
      · have hlong : b :: r <+: a :: expandAll (p :: q) c t := by simpa [expandAll, ha] using h
        obtain ⟨rfl, hrest⟩ := List.cons_prefix_cons.mp hlong
        exact List.cons_prefix_cons.mpr ⟨rfl, ih hr' hrest⟩

theorem replaceAll_expandAll (hp : p ∉ q) {s : List α} (h : ¬ p :: q <:+: s) :
    replaceAll (p :: q) c (expandAll (p :: q) c s) = s := by
  induction s with
  | nil => rfl
  | cons a s ih =>
    rw [List.infix_cons_iff, not_or] at h
    replace ih := ih h.2
    by_cases ha : a = c
    · have hexp : expandAll (p :: q) c (a :: s) = p :: (q ++ expandAll (p :: q) c s) := by simp [expandAll, ha]
      have hpre : p :: q <+: p :: (q ++ expandAll (p :: q) c s) := List.prefix_append (p :: q) _
      rw [hexp, replaceAll_cons (by simp), if_pos hpre, List.length_cons, List.drop_succ_cons, List.drop_left, ih, ha]
    · have hexp : expandAll (p :: q) c (a :: s) = a :: expandAll (p :: q) c s := by simp [expandAll, ha]
      have hpre : ¬ p :: q <+: a :: expandAll (p :: q) c s := by
        intro hlong
        obtain ⟨rfl, hrest⟩ := List.cons_prefix_cons.mp hlong
        exact h.1 (List.cons_prefix_cons.mpr ⟨rfl, prefix_expandAll c hp hrest⟩)
      rw [hexp, replaceAll_cons (by simp), if_neg hpre, ih]

end

end Rtmpg
