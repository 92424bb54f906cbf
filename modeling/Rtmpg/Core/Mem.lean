import Rtmpg.Core.Bytes

/-!
# Stores and `memcpy` on arrays, and C's integer conversions

`store mem off bs` is an array after `bs` was stored at `off`.
`copy dst off src srcOff n` is `memcpy(&dst[off], &src[srcOff], n)` on two
arrays of known size; `none` is a copy that leaves one of them. `u32`, `i32`
and `sizeT` are the conversions to `uint32_t`, `int` and `size_t`, on 64-bit
Linux: a negative length becomes an enormous one.

* `store_store`: stores that follow each other are one.
* `copy_store`: a copy inside the bounds stores what it reads.
* `copy_ok`: the array after it.
-/
namespace Rtmpg.Mem

def u32 (i : Int) : Nat := (i % 2 ^ 32).toNat

def i32 (n : Nat) : Int := if n % 2 ^ 32 < 2 ^ 31 then (n % 2 ^ 32 : Nat) else (n % 2 ^ 32 : Nat) - 2 ^ 32

def sizeT (i : Int) : Nat := (i % 2 ^ 64).toNat

def store (mem : Bytes) (off : Nat) (bs : Bytes) : Bytes :=
  mem.take off ++ (bs ++ mem.drop (off + bs.length))

def copy (dst : Bytes) (off : Nat) (src : Bytes) (srcOff n : Nat) : Option Bytes :=
  if off + n ≤ dst.length ∧ srcOff + n ≤ src.length then
    some (dst.take off ++ ((src.drop srcOff).take n ++ dst.drop (off + n)))
  else none

theorem i32_small {n : Nat} (h : n < 2 ^ 31) : i32 n = n := by
  unfold i32
  have : n % 2 ^ 32 = n := Nat.mod_eq_of_lt (by omega)
  rw [this, if_pos h]

theorem u32_natCast {n : Nat} (h : n < 2 ^ 32) : u32 n = n := by
  unfold u32
  omega

theorem sizeT_natCast {n : Nat} (h : n < 2 ^ 32) : sizeT n = n := by
  unfold sizeT
  omega

theorem store_nil (mem : Bytes) (off : Nat) : store mem off [] = mem := by simp [store]

theorem store_length {mem : Bytes} {off : Nat} {bs : Bytes} (h : off + bs.length ≤ mem.length) :
    (store mem off bs).length = mem.length := by
  simp only [store, List.length_append, List.length_take, List.length_drop]
  omega

/-- What is stored behind `xs` goes behind it. -/
theorem store_store {mem : Bytes} {off : Nat} (xs ys : Bytes) (h : off ≤ mem.length) :
    store (store mem off xs) (off + xs.length) ys = store mem off (xs ++ ys) := by
  have hbefore : (mem.take off ++ xs).length = off + xs.length := by
    rw [List.length_append, List.length_take_of_le h]
  have htake : (store mem off xs).take (off + xs.length) = mem.take off ++ xs := by
    rw [store, ← List.append_assoc]
    exact List.take_left' hbefore
  have hdrop : (store mem off xs).drop (off + xs.length + ys.length) = mem.drop (off + (xs ++ ys).length) := by
    rw [store, ← List.append_assoc, ← List.drop_drop, List.drop_left' hbefore, List.drop_drop, List.length_append,
      Nat.add_assoc]
  rw [store, htake, hdrop, List.append_assoc, ← List.append_assoc xs]
  rfl

theorem copy_store {dst : Bytes} {off : Nat} {src : Bytes} {srcOff n : Nat} (hd : off + n ≤ dst.length)
    (hs : srcOff + n ≤ src.length) : copy dst off src srcOff n = some (store dst off ((src.drop srcOff).take n)) := by
  have hlen : ((src.drop srcOff).take n).length = n := by
    rw [List.length_take, List.length_drop]
    omega
  rw [copy, if_pos ⟨hd, hs⟩, store, hlen]

/-- The size stays, the bytes up to the end of the copy are known. -/
theorem copy_ok (dst : Bytes) (off : Nat) (src : Bytes) (srcOff n : Nat) (hd : off + n ≤ dst.length)
    (hs : srcOff + n ≤ src.length) :
    ∃ d, copy dst off src srcOff n = some d ∧ d.length = dst.length ∧
      d.take (off + n) = dst.take off ++ (src.drop srcOff).take n := by
  refine ⟨_, if_pos ⟨hd, hs⟩, ?_, ?_⟩
  · simp only [List.length_append, List.length_take, List.length_drop]
    omega
  · rw [← List.append_assoc]
    refine List.take_left' ?_
    simp only [List.length_append, List.length_take, List.length_drop]
    omega

/-- The copied bytes alone decide what is copied. -/
theorem copy_slice {src : Bytes} {srcOff n : Nat} (hs : srcOff + n ≤ src.length) (dst : Bytes) (off : Nat) :
    copy dst off ((src.drop srcOff).take n) 0 ((src.drop srcOff).take n).length = copy dst off src srcOff n := by
  have hn : ((src.drop srcOff).take n).length = n := by
    rw [List.length_take, List.length_drop]
    omega
  unfold copy
  rw [hn, List.drop_zero, List.take_take, Nat.min_self]
  simp only [hs, Nat.zero_add, le_refl]

theorem copy_room {dst src d : Bytes} {off srcOff n : Nat} (h : copy dst off src srcOff n = some d) :
    off + n ≤ dst.length ∧ d.length = dst.length := by
  unfold copy at h
  split at h
  · next hb =>
    cases h
    refine ⟨hb.1, ?_⟩
    simp only [List.length_append, List.length_take, List.length_drop]
    omega
  · cases h

end Rtmpg.Mem
