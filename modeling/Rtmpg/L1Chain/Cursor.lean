import Rtmpg.Core.Machine
import Rtmpg.Core.Mem
import Rtmpg.L1Chain.CustomCopy

/-!
# The cursor of `ngx_custom_copy`, as two pointers

`ngx_agora_helper.c:75-121` on the variables it works on: a buffer is its
memory with `pos` and `last`, `*in` the buffers from the current one on, and
`*src` a position in the memory of the first of them. Once `*in` is `NULL`
`*src` is stale. A copy that leaves an array is `none`.

`Position.rest` is the chain still to be read, on which
`Rtmpg.L1Chain.CustomCopy` works, and `Position.left` the bytes in it.

* `copy_rest`: a call is the call on the chain still to be read.
* `flatReader`: what the function is for, on the bytes put together.
* `pointer_refines`, `chain_refines`: the two steps up to it.
* `customCopy_flat`: one call, and any sequence of them.
* `reads_congr`: only the bytes matter, not how they are cut into buffers.
-/
namespace Rtmpg.Cursor

open Rtmpg.Chain (Rc flat skipExhausted Live)

structure Buf where
  mem : Bytes
  pos : Nat
  last : Nat
  pos_le : pos ≤ last
  last_le : last ≤ mem.length
  deriving DecidableEq, Repr

/-- The bytes from `src` to `last`. -/
def Buf.tail (b : Buf) (src : Nat) : Bytes := (b.mem.drop src).take (b.last - src)

/-- `*in` and `*src` -/
structure Position where
  chain : List Buf
  src : Nat
  deriving DecidableEq, Repr

/-- `*src` is in the current buffer, or at its end. -/
def Position.Inside (p : Position) : Prop := ∀ b next, p.chain = b :: next → b.pos ≤ p.src ∧ p.src ≤ b.last

/-- `dst`, in its array. -/
structure Dest where
  mem : Bytes
  off : Nat
  deriving DecidableEq, Repr

/-- A call: `n`, and `dst`, which has room for `n` bytes. -/
structure Request where
  n : Nat
  dst : Option Dest
  room : ∀ d, dst = some d → d.off + n ≤ d.mem.length

/-- What the call returns, and the array of `dst` behind it. -/
structure Answer where
  rc : Rc
  dst : Option Bytes
  deriving DecidableEq, Repr

/-- `*src` behind `*in = (*in)->next`.
mirrors ngx_agora_helper.c:96-98,112-119 -/
def enter (next : List Buf) (src : Nat) : Nat :=
  match next with
  | [] => src
  | b :: _ => b.pos

/-- `while (*in && *src == (*in)->buf->last)`
mirrors ngx_agora_helper.c:94-99 -/
def skipRead : List Buf → Nat → Position
  | [], src => ⟨[], src⟩
  | b :: next, src => if src = b.last then skipRead next (enter next src) else ⟨b :: next, src⟩

/-- `if (dst)` with its body, and `dst` behind it, which only the second one moves: behind the
first it is not read again.
mirrors ngx_agora_helper.c:88-90,106-109 -/
def store (dst : Option Dest) (b : Buf) (src n : Nat) : Option (Option Dest) :=
  match dst with
  | none => some none
  | some d => (Mem.copy d.mem d.off b.mem src n).map fun mem => some ⟨mem, d.off + n⟩

/-- The `for ( ;; )` loop, with the test of `*in` on entry as that behind a step.
mirrors ngx_agora_helper.c:80-120 -/
def copyLoop : Option Dest → Nat → List Buf → Nat → Option (Answer × Position)
  | dst, _, [], src => some (⟨.error, dst.map Dest.mem⟩, ⟨[], src⟩)
  | dst, n, b :: next, src =>
    if n ≤ b.last - src then
      (store dst b src n).map fun dst => (⟨.ok, dst.map Dest.mem⟩, skipRead (b :: next) (src + n))
    else
      let pn := b.last - src
      (store dst b src pn).bind fun dst => copyLoop dst (n - pn) next (enter next src)

/-- mirrors ngx_agora_helper.c:75-121 -/
def ngxCustomCopy (r : Request) (p : Position) : Option (Answer × Position) := copyLoop r.dst r.n p.chain p.src

/-- `p = in->buf->pos`, as every parser starts. -/
def Position.start (chain : List Buf) : Position := ⟨chain, enter chain 0⟩

/-! ## What is still to be read -/

/-- The chain behind the cursor. -/
def Position.rest (p : Position) : Chain :=
  match p.chain with
  | [] => []
  | b :: next => b.tail p.src :: next.map fun b => b.tail b.pos

/-- Its bytes. -/
def Position.left (p : Position) : Bytes := flat p.rest

theorem rest_eq_nil (p : Position) : p.rest = [] ↔ p.chain = [] := by
  unfold Position.rest
  cases p.chain <;> simp

theorem enter_rest (next : List Buf) (src : Nat) :
    (⟨next, enter next src⟩ : Position).rest = next.map fun b => b.tail b.pos := by
  cases next <;> rfl

theorem enter_inside (next : List Buf) (src : Nat) : (⟨next, enter next src⟩ : Position).Inside := by
  intro b after h
  obtain rfl : next = b :: after := h
  exact ⟨Nat.le_refl _, b.pos_le⟩

/-- A parser starts inside, with all bytes of the chain to read. -/
theorem start_rest (chain : List Buf) :
    (Position.start chain).Inside ∧ (Position.start chain).rest = chain.map fun b => b.tail b.pos :=
  ⟨enter_inside chain 0, enter_rest chain 0⟩

theorem tail_length (b : Buf) (src : Nat) : (b.tail src).length = b.last - src := by
  have hlast := b.last_le
  unfold Buf.tail
  rw [List.length_take, List.length_drop]
  omega

theorem tail_drop {b : Buf} (src n : Nat) : b.tail (src + n) = (b.tail src).drop n := by
  unfold Buf.tail
  rw [List.drop_take, List.drop_drop, Nat.sub_sub]

theorem tail_take {b : Buf} {src n : Nat} (h : n ≤ b.last - src) : (b.tail src).take n = (b.mem.drop src).take n := by
  unfold Buf.tail
  rw [List.take_take, Nat.min_eq_left h]

/-! ## The inner loop -/

/-- It skips what the chain behind the cursor has read to the end. -/
theorem skipRead_rest (chain : List Buf) (src : Nat) (h : (⟨chain, src⟩ : Position).Inside) :
    (skipRead chain src).rest = skipExhausted (⟨chain, src⟩ : Position).rest ∧ (skipRead chain src).Inside := by
  induction chain generalizing src with
  | nil => exact ⟨rfl, h⟩
  | cons b next ih =>
    have hrest : (⟨b :: next, src⟩ : Position).rest = b.tail src :: next.map fun b => b.tail b.pos := rfl
    have hlen := tail_length b src
    have hlast : src ≤ b.last := (h b next rfl).2
    rw [skipRead, hrest]
    by_cases hend : src = b.last
    · have hnil : b.tail src = [] := List.eq_nil_of_length_eq_zero (by omega)
      obtain ⟨hnext, hinside⟩ := ih (enter next src) (enter_inside next src)
      rw [if_pos hend, hnil, skipExhausted, hnext, enter_rest]
      exact ⟨rfl, hinside⟩
    · rw [if_neg hend, hrest]
      refine ⟨?_, h⟩
      cases htail : b.tail src with
      | nil =>
        rw [htail] at hlen
        simp only [List.length_nil] at hlen
        omega
      | cons a bs => rfl

/-! ## The destination -/

/-- `dst` behind stores of `bs`. -/
def Dest.stored (d : Dest) (bs : Bytes) : Dest := ⟨Mem.store d.mem d.off bs, d.off + bs.length⟩

/-- Its array, with `bs` from `dst` on and all other bytes as they were. -/
def Request.stored (r : Request) (bs : Bytes) : Option Bytes := r.dst.map fun d => (d.stored bs).mem

theorem stored_nil (d : Dest) : d.stored [] = d := by
  rw [Dest.stored, Mem.store_nil]
  rfl

/-- Stores that follow each other. -/
theorem stored_stored {d : Dest} (xs ys : Bytes) (h : d.off ≤ d.mem.length) :
    (d.stored xs).stored ys = d.stored (xs ++ ys) := by
  simp only [Dest.stored, Mem.store_store xs ys h, List.length_append, Nat.add_assoc]

theorem store_eq {b : Buf} {dst : Option Dest} {src n : Nat} (hsrc : src ≤ b.last) (hn : n ≤ b.last - src)
    (hroom : ∀ d, dst = some d → d.off + n ≤ d.mem.length) :
    store dst b src n = some (dst.map fun d => d.stored ((b.tail src).take n)) := by
  have hlast := b.last_le
  cases dst with
  | none => rfl
  | some d =>
    have hlen : ((b.mem.drop src).take n).length = n := by
      rw [List.length_take, List.length_drop]
      omega
    unfold store
    dsimp only
    rw [Mem.copy_store (hroom d rfl) (by omega), Option.map_some, Option.map_some, Dest.stored, tail_take hn, hlen]

/-- The rest of a buffer: `dst` behind it has room for what is still to come. -/
theorem store_tail {b : Buf} {dst : Option Dest} {src n : Nat} (hsrc : src ≤ b.last) (hn : b.last - src ≤ n)
    (hroom : ∀ d, dst = some d → d.off + n ≤ d.mem.length) :
    store dst b src (b.last - src) = some (dst.map fun d => d.stored (b.tail src)) ∧
      ∀ d, (dst.map fun d => d.stored (b.tail src)) = some d → d.off + (n - (b.last - src)) ≤ d.mem.length := by
  have hlen := tail_length b src
  have hall : (b.tail src).take (b.last - src) = b.tail src := List.take_of_length_le (by omega)
  constructor
  · rw [store_eq hsrc (Nat.le_refl _), hall]
    intro d hd
    have := hroom d hd
    omega
  · intro d' hd'
    obtain ⟨d, hd, rfl⟩ := Option.map_eq_some_iff.mp hd'
    have hroom := hroom d hd
    rw [show (d.stored (b.tail src)).mem.length = d.mem.length from Mem.store_length (by omega)]
    show d.off + (b.tail src).length + _ ≤ _
    omega

/-! ## The outer loop -/

/-- It reads what the chain behind the cursor holds, and leaves what that leaves. -/
theorem copyLoop_rest {dst : Option Dest} {n : Nat} {chain : List Buf} {src : Nat}
    (hroom : ∀ d, dst = some d → d.off + n ≤ d.mem.length) (h : (⟨chain, src⟩ : Position).Inside) :
    ∃ q, copyLoop dst n chain src =
        some (⟨(Chain.ngxCustomCopy n (⟨chain, src⟩ : Position).rest).rc,
          dst.map fun d => (d.stored (Chain.ngxCustomCopy n (⟨chain, src⟩ : Position).rest).dst).mem⟩, q) ∧
      q.Inside ∧ q.rest = (Chain.ngxCustomCopy n (⟨chain, src⟩ : Position).rest).rest := by
  induction chain generalizing dst n src with
  | nil =>
    refine ⟨⟨[], src⟩, ?_, h, rfl⟩
    show some (Answer.mk _ _, _) = some (Answer.mk _ (dst.map fun d => (d.stored []).mem), _)
    simp only [stored_nil]
    rfl
  | cons b next ih =>
    have hrest : (⟨b :: next, src⟩ : Position).rest = b.tail src :: next.map fun b => b.tail b.pos := rfl
    have hlen := tail_length b src
    have hsrc : b.pos ≤ src ∧ src ≤ b.last := h b next rfl
    rw [copyLoop, hrest, Chain.ngxCustomCopy, hlen]
    by_cases hn : n ≤ b.last - src
    · -- the rest of the call is in this buffer
      have hinside : (⟨b :: next, src + n⟩ : Position).Inside := by
        intro b' next' heq
        cases heq
        show b.pos ≤ src + n ∧ src + n ≤ b.last
        omega
      obtain ⟨hskip, hinside'⟩ := skipRead_rest (b :: next) (src + n) hinside
      refine ⟨skipRead (b :: next) (src + n), ?_, hinside', ?_⟩
      · rw [if_pos hn, if_pos hn, store_eq hsrc.2 hn hroom, Option.map_some, Option.map_map]
        rfl
      · rw [hskip, if_pos hn, ← tail_drop]
        rfl
    · -- the buffer is read to its end
      obtain ⟨hstore, hroom'⟩ := store_tail hsrc.2 (Nat.le_of_lt (Nat.lt_of_not_le hn)) hroom
      obtain ⟨q, hq, hinside, hleft⟩ := ih hroom' (enter_inside next src)
      rw [enter_rest] at hq hleft
      refine ⟨q, ?_, hinside, by rw [if_neg hn]; exact hleft⟩
      rw [if_neg hn, if_neg hn]
      dsimp only
      rw [hstore, Option.bind_some, hq]
      cases dst with
      | none => rfl
      | some d =>
        have hoff : d.off ≤ d.mem.length := by
          have := hroom d rfl
          omega
        rw [Option.map_some, Option.map_some, Option.map_some, stored_stored _ _ hoff]

/-- A call, on the chain behind the cursor. -/
theorem copy_rest (r : Request) {p : Position} (hp : p.Inside) :
    ∃ q, ngxCustomCopy r p = some (⟨(Chain.ngxCustomCopy r.n p.rest).rc,
        r.stored (Chain.ngxCustomCopy r.n p.rest).dst⟩, q) ∧
      q.Inside ∧ q.rest = (Chain.ngxCustomCopy r.n p.rest).rest := copyLoop_rest r.room hp

/-! ## On the bytes put together -/

/-- What the function is for: to read a byte string. `none` is `NULL`: it has been read to
its end, or a read has failed. -/
def readFlat (r : Request) : Option Bytes → Answer × Option Bytes
  | none => (⟨.error, r.stored []⟩, none)
  | some bs =>
    if r.n ≤ bs.length then
      (⟨.ok, r.stored (bs.take r.n)⟩, if bs.drop r.n = [] then none else some (bs.drop r.n))
    else (⟨.error, r.stored bs⟩, none)

def pointerReader : Machine Position Request Answer where
  step p r := ngxCustomCopy r p

def chainReader : Machine Chain Request Answer where
  step c r := some (⟨(Chain.ngxCustomCopy r.n c).rc, r.stored (Chain.ngxCustomCopy r.n c).dst⟩,
    (Chain.ngxCustomCopy r.n c).rest)

def flatReader : Machine (Option Bytes) Request Answer where
  step s r := some (readFlat r s)

/-- The bytes of a chain, or `NULL`. -/
def held (c : Chain) : Option Bytes := if c = [] then none else some (flat c)

/-- The cursor is `NULL` when nothing is left, and on the next byte otherwise. -/
def Position.AtNext (p : Position) : Prop :=
  (p.chain = [] ↔ p.left = []) ∧
    ∀ b next, p.chain = b :: next → p.src < b.last ∧ b.mem[p.src]? = p.left.head?

theorem held_live {c : Chain} (h : Live c) : held c = if flat c = [] then none else some (flat c) := by
  unfold held
  simp only [Chain.live_eq_nil h]

theorem atNext_of_live {p : Position} (h : Live p.rest) : p.AtNext := by
  refine ⟨(rest_eq_nil p).symm.trans (Chain.live_eq_nil h), fun b next heq => ?_⟩
  have hrest : p.rest = b.tail p.src :: next.map fun b => b.tail b.pos := by
    unfold Position.rest
    rw [heq]
  have hlen := tail_length b p.src
  rw [hrest] at h
  have hpos := List.length_pos_iff.mpr h
  have hlt : p.src < b.last := by omega
  refine ⟨hlt, ?_⟩
  have hleft : p.left = b.tail p.src ++ flat (next.map fun b => b.tail b.pos) := by
    unfold Position.left
    rw [hrest]
    rfl
  rw [hleft, List.head?_append_of_ne_nil _ h, Buf.tail, List.head?_take, if_neg (by omega), List.head?_drop]

/-- A read of the chain is a read of its bytes. -/
theorem readFlat_held (r : Request) (c : Chain) :
    readFlat r (held c) = (⟨(Chain.ngxCustomCopy r.n c).rc, r.stored (Chain.ngxCustomCopy r.n c).dst⟩,
      held (Chain.ngxCustomCopy r.n c).rest) := by
  by_cases hnull : c = []
  · subst hnull
    rfl
  · have hheld : held c = some (flat c) := if_neg hnull
    rw [hheld, readFlat]
    by_cases hn : r.n ≤ (flat c).length
    · obtain ⟨hrc, hdst, hleft, hlive⟩ := Chain.ngxCustomCopy_ok c r.n hnull hn
      rw [if_pos hn, hrc, hdst, held_live hlive, hleft]
    · rw [if_neg hn, Chain.ngxCustomCopy_error c r.n (.inr (Nat.lt_of_not_le hn))]
      rfl

theorem pointer_refines : pointerReader.Refines chainReader fun p c => p.Inside ∧ p.rest = c := by
  rintro p c ⟨hp, rfl⟩ r o c' hstep
  cases hstep
  exact copy_rest r hp

theorem chain_refines : chainReader.Refines flatReader fun c s => held c = s := by
  rintro c s rfl r o s' hstep
  have hread : readFlat r (held c) = (o, s') := Option.some.inj hstep
  rw [readFlat_held] at hread
  cases hread
  exact ⟨_, rfl, rfl⟩

/-- The pointers on the bytes put together. -/
theorem pointer_refines_flat :
    pointerReader.Refines flatReader fun p s => ∃ c, (p.Inside ∧ p.rest = c) ∧ held c = s :=
  pointer_refines.trans chain_refines

/-- A byte string answers every read. -/
theorem flatReader_total (s : Option Bytes) (rs : List Request) :
    ∃ answers s', flatReader.run s rs = some (answers, s') :=
  Machine.run_total (fun s r => ⟨(readFlat r s).1, (readFlat r s).2, rfl⟩) s rs

/-- Any sequence of reads. -/
theorem reads_flat {p : Position} (hp : p.Inside) (rs : List Request) :
    ∃ answers q, pointerReader.run p rs = some (answers, q) ∧
      flatReader.run (held p.rest) rs = some (answers, held q.rest) := by
  obtain ⟨answers, s, hrun⟩ := flatReader_total (held p.rest) rs
  obtain ⟨q, hreads, c, ⟨-, hc⟩, hs⟩ := pointer_refines_flat.run rs ⟨p.rest, ⟨hp, rfl⟩, rfl⟩ hrun
  refine ⟨answers, q, hreads, ?_⟩
  rw [hrun, hc, hs]

/-- From where a parser starts. -/
theorem reads_start {chain : List Buf} (h : chain ≠ []) (rs : List Request) :
    ∃ answers q, pointerReader.run (Position.start chain) rs = some (answers, q) ∧
      flatReader.run (some (flat (chain.map fun b => b.tail b.pos))) rs = some (answers, held q.rest) := by
  obtain ⟨hinside, hrest⟩ := start_rest chain
  obtain ⟨answers, q, hreads, hflat⟩ := reads_flat hinside rs
  have hheld : held (chain.map fun b => b.tail b.pos) = some (flat (chain.map fun b => b.tail b.pos)) :=
    if_neg (mt List.map_eq_nil_iff.mp h)
  rw [hrest, hheld] at hflat
  exact ⟨answers, q, hreads, hflat⟩

/-- However the bytes are cut into buffers, the answers are the same. -/
theorem reads_congr {p p' : Position} (hp : p.Inside) (hp' : p'.Inside) (hsame : held p.rest = held p'.rest)
    (rs : List Request) :
    ∃ answers q q', pointerReader.run p rs = some (answers, q) ∧
      pointerReader.run p' rs = some (answers, q') ∧ held q.rest = held q'.rest := by
  obtain ⟨answers, q, hreads, hflat⟩ := reads_flat hp rs
  obtain ⟨answers', q', hreads', hflat'⟩ := reads_flat hp' rs
  rw [hsame, hflat'] at hflat
  obtain ⟨heq, hq⟩ := Prod.mk.inj (Option.some.inj hflat)
  rw [heq] at hreads'
  exact ⟨answers, q, q', hreads, hreads', hq.symm⟩

/-- A request to the cursor is one to the bytes that are left, however they are cut into buffers,
and so is every sequence of requests. -/
theorem customCopy_flat (p : Position) (hp : p.Inside) :
    (∀ r : Request, ∃ a q, ngxCustomCopy r p = some (a, q) ∧ q.Inside ∧
        (a.rc = .ok ↔ p.chain ≠ [] ∧ r.n ≤ p.left.length) ∧
        (a.rc = .ok → a.dst = r.stored (p.left.take r.n) ∧ q.left = p.left.drop r.n ∧ q.AtNext) ∧
        (a.rc = .error → p.chain ≠ [] → q.chain = [])) ∧
      ∀ rs, ∃ answers q, pointerReader.run p rs = some (answers, q) ∧
        flatReader.run (held p.rest) rs = some (answers, held q.rest) := by
  refine ⟨fun r => ?_, fun rs => ?_⟩
  · obtain ⟨q, hcall, hinside, hrest⟩ := copy_rest r hp
    have hleft : q.left = flat (Chain.ngxCustomCopy r.n p.rest).rest := congrArg flat hrest
    have hok : (Chain.ngxCustomCopy r.n p.rest).rc = .ok ↔ p.chain ≠ [] ∧ r.n ≤ p.left.length := by
      rw [Chain.ngxCustomCopy_rc, Ne, rest_eq_nil]
      rfl
    refine ⟨_, q, hcall, hinside, hok, fun hrc => ?_, fun hrc hnull => ?_⟩
    · obtain ⟨hnull, hn⟩ := hok.mp hrc
      obtain ⟨-, hdst, hflat, hlive⟩ := Chain.ngxCustomCopy_ok p.rest r.n (mt (rest_eq_nil p).mp hnull) hn
      refine ⟨congrArg r.stored hdst, hleft.trans hflat, atNext_of_live ?_⟩
      rwa [hrest]
    · -- a failed read has gone through the whole chain
      have hfew : p.left.length < r.n := by
        by_contra hn
        have herr : (Chain.ngxCustomCopy r.n p.rest).rc = .error := hrc
        rw [hok.mpr ⟨hnull, Nat.le_of_not_lt hn⟩] at herr
        cases herr
      rw [← rest_eq_nil, hrest, Chain.ngxCustomCopy_error p.rest r.n (.inr hfew)]
  · exact reads_flat hp rs

/-- `1 2 | | 3 4 5 |`, where a read begins at the `2`. -/
def pieces : Position :=
  ⟨[⟨[9, 1, 2, 9], 1, 3, by decide, by decide⟩, ⟨[9], 1, 1, by decide, by decide⟩,
    ⟨[3, 4, 5], 0, 3, by decide, by decide⟩, ⟨[], 0, 0, by decide, by decide⟩], 2⟩

theorem pieces_inside : pieces.Inside := by
  intro b next h
  cases h
  exact ⟨by decide, by decide⟩

theorem customCopy_flat_pieces :
    pieces.Inside ∧ held pieces.rest = some [2, 3, 4, 5] ∧
    (∀ r : Request, ∃ a q, ngxCustomCopy r pieces = some (a, q) ∧ q.Inside ∧
        (a.rc = .ok ↔ pieces.chain ≠ [] ∧ r.n ≤ pieces.left.length) ∧
        (a.rc = .ok → a.dst = r.stored (pieces.left.take r.n) ∧ q.left = pieces.left.drop r.n ∧ q.AtNext) ∧
        (a.rc = .error → pieces.chain ≠ [] → q.chain = [])) ∧
      ∀ rs, ∃ answers q, pointerReader.run pieces rs = some (answers, q) ∧
        flatReader.run (held pieces.rest) rs = some (answers, held q.rest) :=
  ⟨pieces_inside, by decide, customCopy_flat pieces pieces_inside⟩

end Rtmpg.Cursor
