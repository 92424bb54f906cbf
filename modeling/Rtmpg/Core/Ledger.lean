import Mathlib.Data.Finset.Option
import Mathlib.Data.List.Count

/-!
# Ledgers of resources

What code does with the resources it allocates, as a list of entries: each is
taken, used, given back. `audit` goes through the list with the set of what is
held; it fails where something is used or given back that is not held, or
taken that is.

`alloc`, `free` and `touch` are for pointers that may be null.

* `audit_append`: code after code.
* `audit_frame`: beside anything it does not touch, code does what it does
  alone.
* `audit_count`: what was taken is held or has been given back, so nothing is
  given back twice.
-/
namespace Rtmpg.Ledger

inductive Entry (α : Type) where
  | take (r : α)
  | use (r : α)
  | give (r : α)
  deriving DecidableEq

variable {α : Type} [DecidableEq α]

def Entry.post (held : Finset α) : Entry α → Option (Finset α)
  | .take r => if r ∈ held then none else some (insert r held)
  | .use r => if r ∈ held then some held else none
  | .give r => if r ∈ held then some (held.erase r) else none

def audit (held : Finset α) : List (Entry α) → Option (Finset α)
  | [] => some held
  | e :: es => (e.post held).bind fun after => audit after es

theorem audit_append (held : Finset α) (es fs : List (Entry α)) :
    audit held (es ++ fs) = (audit held es).bind fun after => audit after fs := by
  induction es generalizing held with
  | nil => rfl
  | cons e es ih =>
    rw [List.cons_append, audit, audit]
    cases e.post held with
    | none => rfl
    | some after => exact ih after

theorem audit_trans {held after last : Finset α} {es fs : List (Entry α)} (h : audit held es = some after)
    (h' : audit after fs = some last) : audit held (es ++ fs) = some last := by
  rw [audit_append, h, Option.bind_some, h']

theorem audit_take {held : Finset α} {r : α} (h : r ∉ held) : audit held [.take r] = some (insert r held) := by
  rw [audit, Entry.post, if_neg h, Option.bind_some, audit]

theorem audit_give {held : Finset α} {r : α} (h : r ∈ held) : audit held [.give r] = some (held.erase r) := by
  rw [audit, Entry.post, if_pos h, Option.bind_some, audit]

/-- Using changes nothing. -/
theorem audit_uses {held : Finset α} {es : List (Entry α)} (h : ∀ e ∈ es, ∃ r ∈ held, e = .use r) :
    audit held es = some held := by
  induction es with
  | nil => rfl
  | cons e es ih =>
    obtain ⟨r, hr, rfl⟩ := h e List.mem_cons_self
    rw [audit, Entry.post, if_pos hr, Option.bind_some]
    exact ih fun e he => h e (List.mem_cons_of_mem _ he)

/-! ## Pointers -/

/-- An allocation that may fail. -/
def alloc (r : α) (ok : Bool) : Option α × List (Entry α) := if ok then (some r, [.take r]) else (none, [])

/-- Freeing a null pointer does nothing. -/
def free (p : Option α) : List (Entry α) := p.toList.map .give

def touch (p : Option α) : List (Entry α) := p.toList.map .use

theorem audit_alloc {held : Finset α} {r : α} (h : r ∉ held) (ok : Bool) :
    audit held (alloc r ok).2 = some (held ∪ (alloc r ok).1.toFinset) := by
  cases ok
  · simp [alloc, audit]
  · rw [Finset.union_comm]
    exact audit_take h

theorem audit_free {held : Finset α} {p : Option α} (h : ∀ r ∈ p, r ∈ held) :
    audit held (free p) = some (held \ p.toFinset) := by
  cases p with
  | none => simp [free, audit]
  | some r => simpa [free, Finset.sdiff_singleton_eq_erase] using audit_give (h r rfl)

theorem audit_touch {held : Finset α} {p : Option α} (h : ∀ r ∈ p, r ∈ held) : audit held (touch p) = some held :=
  audit_uses fun e he => by
    obtain ⟨r, hr, rfl⟩ := List.mem_map.mp he
    exact ⟨r, h r (Option.mem_toList.mp hr), rfl⟩

/-! ## The frame rule -/

theorem Entry.post_frame {e : Entry α} {held after kept : Finset α} (h : e.post held = some after)
    (hd : Disjoint held kept) (ht : ∀ r, e = .take r → r ∉ kept) :
    e.post (held ∪ kept) = some (after ∪ kept) ∧ Disjoint after kept := by
  cases e with
  | take r =>
    simp only [post] at h ⊢
    split at h
    · cases h
    · next hr =>
      cases h
      have hk := ht r rfl
      refine ⟨?_, Finset.disjoint_insert_left.mpr ⟨hk, hd⟩⟩
      rw [if_neg (by simp [hr, hk]), Finset.insert_union]
  | use r =>
    simp only [post] at h ⊢
    split at h
    · next hr =>
      cases h
      exact ⟨if_pos (Finset.mem_union_left _ hr), hd⟩
    · cases h
  | give r =>
    simp only [post] at h ⊢
    split at h
    · next hr =>
      cases h
      have hk := Finset.disjoint_left.mp hd hr
      refine ⟨?_, hd.mono_left (Finset.erase_subset r held)⟩
      rw [if_pos (Finset.mem_union_left _ hr), Finset.erase_union_distrib, Finset.erase_eq_of_notMem hk]
    · cases h

theorem audit_frame {held after kept : Finset α} {es : List (Entry α)} (h : audit held es = some after)
    (hd : Disjoint held kept) (ht : ∀ r, .take r ∈ es → r ∉ kept) :
    audit (held ∪ kept) es = some (after ∪ kept) := by
  induction es generalizing held with
  | nil =>
    cases h
    rfl
  | cons e es ih =>
    obtain ⟨mid, hmid, hrest⟩ := Option.bind_eq_some_iff.mp h
    obtain ⟨hpost, hd'⟩ := Entry.post_frame hmid hd fun r he => ht r (he ▸ List.mem_cons_self)
    rw [audit, hpost, Option.bind_some]
    exact ih hrest hd' fun r hr => ht r (List.mem_cons_of_mem _ hr)

/-! ## What an audit says -/

theorem Entry.post_count {e : Entry α} {held after : Finset α} (h : e.post held = some after) (r : α) :
    (if e = .give r then 1 else 0) + (if r ∈ after then 1 else 0) =
      (if e = .take r then 1 else 0) + if r ∈ held then 1 else 0 := by
  cases e with
  | take s =>
    simp only [post] at h
    split at h
    · cases h
    · next hs =>
      cases h
      rcases eq_or_ne s r with rfl | hne
      · simp [hs]
      · simp [hne, hne.symm]
  | use s =>
    simp only [post] at h
    split at h
    · cases h
      rfl
    · cases h
  | give s =>
    simp only [post] at h
    split at h
    · next hs =>
      cases h
      rcases eq_or_ne s r with rfl | hne
      · simp [hs]
      · simp [hne, hne.symm]
    · cases h

theorem audit_count {held after : Finset α} {es : List (Entry α)} (h : audit held es = some after) (r : α) :
    es.count (.give r) + (if r ∈ after then 1 else 0) = es.count (.take r) + if r ∈ held then 1 else 0 := by
  induction es generalizing held with
  | nil =>
    cases h
    rfl
  | cons e es ih =>
    obtain ⟨mid, hmid, hrest⟩ := Option.bind_eq_some_iff.mp h
    have hentry := Entry.post_count hmid r
    have hcount := ih hrest
    simp only [List.count_cons, beq_iff_eq]
    omega

end Rtmpg.Ledger
