import Rtmpg.Core.Bytes

/-!
# Reading a fragmented buffer chain (`ngx_custom_copy`)

An `ngx_chain_t` is the list of its buffers, each given by the bytes in
`[pos, last)`; `NULL` is `[]`. The pair `(*in, *src)` every parser of
`ngx_agora_helper.c` carries is the same list with the bytes before `*src`
taken off the first buffer: the chain still to be read.

`flat c` is what the chain holds and `Live c` says that the cursor is `NULL`
as soon as nothing is left to read. A chain of empty buffers is not `Live`:
it is not `NULL` and holds nothing.

Results:
* `ngxCustomCopy_ok`, `ngxCustomCopy_error`: the outcome of one read in terms
  of the flat bytes; every successful read leaves a `Live` cursor.
* `ngxCustomCopy_congr`: two chains with the same flat bytes (`SameBytes`)
  cannot be told apart by a read, and stay `SameBytes`.
* `ngxCustomCopy_one`: a read from the canonical chain `one bs` of a byte
  string, which is `SameBytes` to every live chain that holds `bs`.
-/
namespace Rtmpg

abbrev Chain := List Bytes

namespace Chain

/-- The bytes a chain holds from the cursor on. -/
def flat (c : Chain) : Bytes := c.flatten

/-- `NGX_OK` / `NGX_ERROR`. -/
inductive Rc where
  | ok | error
  deriving DecidableEq, Repr

def Rc.toInt : Rc → Int
  | .ok => 0
  | .error => -1

/-- One call of `ngx_custom_copy`: its result, the bytes stored at `dst` (also
those stored before an error) and the cursor it leaves. -/
structure Copied where
  rc : Rc
  dst : Bytes
  rest : Chain
  deriving DecidableEq, Repr

/-- `while (*in && *src == (*in)->buf->last)`.
mirrors ngx_agora_helper.c:94-99 -/
def skipExhausted : Chain → Chain
  | [] :: next => skipExhausted next
  | c => c

/-- The `for ( ;; )` loop is the recursion; `*in == NULL` is tested on entry
and again after each step to the next buffer, with the same answer.
mirrors ngx_agora_helper.c:75-121 -/
def ngxCustomCopy (n : Nat) : Chain → Copied
  | [] => ⟨.error, [], []⟩
  | cur :: next =>
    if n ≤ cur.length then ⟨.ok, cur.take n, skipExhausted (cur.drop n :: next)⟩
    else
      let r := ngxCustomCopy (n - cur.length) next
      ⟨r.rc, cur ++ r.dst, r.rest⟩

/-- `NULL`, or the cursor stands on an unread byte. -/
def Live : Chain → Prop
  | [] => True
  | cur :: _ => cur ≠ []

theorem live_eq_nil {c : Chain} (h : Live c) : c = [] ↔ flat c = [] := by
  cases c with
  | nil => simp [flat]
  | cons cur next => simp only [Live] at h; simp [flat, h]

theorem skipExhausted_flat : ∀ c, flat (skipExhausted c) = flat c
  | [] => rfl
  | [] :: next => by rw [skipExhausted, skipExhausted_flat next]; rfl
  | (_ :: _) :: _ => rfl

theorem skipExhausted_live : ∀ c, Live (skipExhausted c)
  | [] => trivial
  | [] :: next => by rw [skipExhausted]; exact skipExhausted_live next
  | (_ :: _) :: _ => by simp [skipExhausted, Live]

/-! ## One read, on the flat bytes -/

theorem ngxCustomCopy_ok : ∀ (c : Chain) (n : Nat), c ≠ [] → n ≤ (flat c).length →
    (ngxCustomCopy n c).rc = .ok ∧ (ngxCustomCopy n c).dst = (flat c).take n ∧
      flat (ngxCustomCopy n c).rest = (flat c).drop n ∧ Live (ngxCustomCopy n c).rest
  | [], _, h, _ => absurd rfl h
  | cur :: next, n, _, hn => by
    unfold ngxCustomCopy
    have hf : flat (cur :: next) = cur ++ flat next := rfl
    rw [hf] at hn ⊢
    split
    · next hle =>
      refine ⟨rfl, (List.take_append_of_le_length hle).symm, ?_, skipExhausted_live _⟩
      rw [skipExhausted_flat, List.drop_append_of_le_length hle]; rfl
    · next hgt =>
      rw [List.length_append] at hn
      have hne : next ≠ [] := by rintro rfl; simp [flat] at hn; omega
      obtain ⟨h1, h2, h3, h4⟩ := ngxCustomCopy_ok next (n - cur.length) hne (by omega)
      refine ⟨h1, ?_, ?_, h4⟩
      · rw [List.take_append, List.take_of_length_le (by omega), ← h2]
      · rw [List.drop_append, List.drop_of_length_le (by omega), List.nil_append, ← h3]

theorem ngxCustomCopy_error : ∀ (c : Chain) (n : Nat), c = [] ∨ (flat c).length < n →
    ngxCustomCopy n c = ⟨.error, flat c, []⟩
  | [], _, _ => rfl
  | cur :: next, n, h => by
    have hf : flat (cur :: next) = cur ++ flat next := rfl
    have hlt : (cur ++ flat next).length < n := by
      rcases h with h | h
      · cases h
      · rwa [hf] at h
    rw [List.length_append] at hlt
    have ih := ngxCustomCopy_error next (n - cur.length) (.inr (by omega))
    rw [ngxCustomCopy, if_neg (by omega), ih, hf]

theorem ngxCustomCopy_rc (c : Chain) (n : Nat) :
    (ngxCustomCopy n c).rc = .ok ↔ c ≠ [] ∧ n ≤ (flat c).length := by
  constructor
  · intro h
    by_contra hc
    rw [ngxCustomCopy_error c n (by by_cases e : c = [] <;> simp_all)] at h
    cases h
  · intro ⟨h1, h2⟩; exact (ngxCustomCopy_ok c n h1 h2).1

/-- A read never stores more than it was asked for. -/
theorem ngxCustomCopy_dst_length (c : Chain) (n : Nat) : (ngxCustomCopy n c).dst.length ≤ n := by
  by_cases h : c = [] ∨ (flat c).length < n
  · rw [ngxCustomCopy_error c n h]
    rcases h with rfl | h
    · exact Nat.zero_le _
    · exact Nat.le_of_lt h
  · rw [not_or, Nat.not_lt] at h
    rw [(ngxCustomCopy_ok c n h.1 h.2).2.1]
    exact List.length_take_le _ _

/-! ## Only the flat bytes matter -/

/-- The same bytes to read, and `NULL` together. -/
def SameBytes (c d : Chain) : Prop := (c = [] ↔ d = []) ∧ flat c = flat d

theorem sameBytes_refl (c : Chain) : SameBytes c c := ⟨Iff.rfl, rfl⟩

theorem sameBytes_of_ne {c d : Chain} (hc : c ≠ []) (hd : d ≠ []) (h : flat c = flat d) :
    SameBytes c d := ⟨by simp [hc, hd], h⟩

theorem sameBytes_of_live {c d : Chain} (hc : Live c) (hd : Live d) (h : flat c = flat d) :
    SameBytes c d := ⟨by rw [live_eq_nil hc, live_eq_nil hd, h], h⟩

theorem ngxCustomCopy_congr {c d : Chain} (h : SameBytes c d) (n : Nat) :
    (ngxCustomCopy n c).rc = (ngxCustomCopy n d).rc ∧
      (ngxCustomCopy n c).dst = (ngxCustomCopy n d).dst ∧
      SameBytes (ngxCustomCopy n c).rest (ngxCustomCopy n d).rest := by
  by_cases hr : c = [] ∨ (flat c).length < n
  · have hr' : d = [] ∨ (flat d).length < n := by rwa [← h.1, ← h.2]
    rw [ngxCustomCopy_error c n hr, ngxCustomCopy_error d n hr', h.2]
    exact ⟨rfl, rfl, sameBytes_refl _⟩
  · rw [not_or, Nat.not_lt] at hr
    have hd : d ≠ [] := fun e => hr.1 (h.1.mpr e)
    obtain ⟨c1, c2, c3, c4⟩ := ngxCustomCopy_ok c n hr.1 hr.2
    obtain ⟨d1, d2, d3, d4⟩ := ngxCustomCopy_ok d n hd (h.2 ▸ hr.2)
    exact ⟨c1.trans d1.symm, by rw [c2, d2, h.2], sameBytes_of_live c4 d4 (by rw [c3, d3, h.2])⟩

/-! ## The canonical chain of a byte string -/

/-- At most one buffer, and `NULL` when there is nothing to read. -/
def one (bs : Bytes) : Chain := if bs = [] then [] else [bs]

@[simp] theorem flat_one (bs : Bytes) : flat (one bs) = bs := by
  unfold one; split <;> simp_all [flat]

@[simp] theorem one_eq_nil (bs : Bytes) : one bs = [] ↔ bs = [] := by
  unfold one; split <;> simp_all

theorem ngxCustomCopy_single (bs : Bytes) (n : Nat) (hn : n ≤ bs.length) :
    ngxCustomCopy n [bs] = ⟨.ok, bs.take n, one (bs.drop n)⟩ := by
  rw [ngxCustomCopy, if_pos hn]
  by_cases h : bs.drop n = [] <;> simp only [h, one, if_true, if_false, skipExhausted]
  cases hd : bs.drop n with
  | nil => exact absurd hd h
  | cons b bs' => rfl

/-- Both outcomes of a read from a byte string. -/
theorem ngxCustomCopy_one_cases (bs : Bytes) (n : Nat) :
    (bs = [] ∨ bs.length < n) ∧ ngxCustomCopy n (one bs) = ⟨.error, bs, []⟩ ∨
      (bs ≠ [] ∧ n ≤ bs.length) ∧ ngxCustomCopy n (one bs) = ⟨.ok, bs.take n, one (bs.drop n)⟩ := by
  by_cases h : bs = [] ∨ bs.length < n
  · refine .inl ⟨h, ?_⟩
    have herr := ngxCustomCopy_error (one bs) n (by rwa [one_eq_nil, flat_one])
    rwa [flat_one] at herr
  · rw [not_or, Nat.not_lt] at h
    refine .inr ⟨h, ?_⟩
    rw [one, if_neg h.1, ngxCustomCopy_single bs n h.2]

theorem ngxCustomCopy_one (xs ys : Bytes) (h : xs ++ ys ≠ []) :
    ngxCustomCopy xs.length (one (xs ++ ys)) = ⟨.ok, xs, one ys⟩ := by
  rw [one, if_neg h, ngxCustomCopy_single _ _ (by simp), List.take_left' rfl, List.drop_left' rfl]

end Chain

end Rtmpg
