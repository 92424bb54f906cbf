import Mathlib.Data.List.Basic
import Mathlib.Tactic.Ring

/-!
# Byte strings, integers in bytes and length-prefixed units

`leNat` is the value of bytes in a little-endian integer, `beNat` the value
of a big-endian field, `leBytes` / `beBytes` their inverses on `k` bytes.
`frame k u` is the unit `u` behind its length in `k` big-endian bytes and
`frames k us` a sequence of such units.

Results:
* `beNat_beBytes`, `beBytes_beNat`: the two directions of the field round trip.
* `frames_eq_nil`: only the empty sequence has the empty encoding.
* `frames_inj`: a sequence of units is readable in one way only.
-/
namespace Rtmpg

abbrev Bytes := List UInt8

namespace Bytes

/-- First byte least significant. -/
def leNat : Bytes → Nat
  | [] => 0
  | b :: bs => b.toNat + 256 * leNat bs

/-- First byte most significant. -/
def beNat (bs : Bytes) : Nat := leNat bs.reverse

def leBytes : Nat → Nat → Bytes
  | 0, _ => []
  | k + 1, n => UInt8.ofNat n :: leBytes k (n / 256)

def beBytes (k n : Nat) : Bytes := (leBytes k n).reverse

theorem leNat_lt : ∀ bs : Bytes, leNat bs < 256 ^ bs.length
  | [] => by simp [leNat]
  | b :: bs => by
    have hb := b.toNat_lt
    have ih := leNat_lt bs
    simp only [leNat, List.length_cons, Nat.pow_succ]
    omega

@[simp] theorem leBytes_length : ∀ k n, (leBytes k n).length = k
  | 0, _ => rfl
  | k + 1, n => by simp [leBytes, leBytes_length k]

@[simp] theorem beBytes_length (k n : Nat) : (beBytes k n).length = k := by simp [beBytes]

theorem leNat_leBytes : ∀ k n, n < 256 ^ k → leNat (leBytes k n) = n
  | 0, n, h => by simp only [Nat.pow_zero] at h; simp [leBytes, leNat]; omega
  | k + 1, n, h => by
    rw [Nat.pow_succ] at h
    have ih := leNat_leBytes k (n / 256) (by omega)
    simp only [leBytes, leNat, ih, UInt8.toNat_ofNat']
    omega

theorem leBytes_leNat : ∀ bs : Bytes, leBytes bs.length (leNat bs) = bs
  | [] => rfl
  | b :: bs => by
    have hb := b.toNat_lt
    simp only [List.length_cons, leBytes, leNat]
    have hd : (b.toNat + 256 * leNat bs) / 256 = leNat bs := by omega
    have hm : UInt8.ofNat (b.toNat + 256 * leNat bs) = b := by
      apply UInt8.toNat_inj.mp; rw [UInt8.toNat_ofNat']; omega
    rw [hd, hm, leBytes_leNat bs]

theorem beNat_lt (bs : Bytes) : beNat bs < 256 ^ bs.length := by
  have := leNat_lt bs.reverse
  rwa [List.length_reverse] at this

theorem beNat_beBytes (k n : Nat) (h : n < 256 ^ k) : beNat (beBytes k n) = n := by
  rw [beNat, beBytes, List.reverse_reverse, leNat_leBytes k n h]

theorem beBytes_beNat (bs : Bytes) : beBytes bs.length (beNat bs) = bs := by
  have := leBytes_leNat bs.reverse
  rw [List.length_reverse] at this
  rw [beBytes, beNat, this, List.reverse_reverse]

/-! ## Length-prefixed units -/

def frame (k : Nat) (u : Bytes) : Bytes := beBytes k u.length ++ u

def frames (k : Nat) (us : List Bytes) : Bytes := us.flatMap (frame k)

@[simp] theorem frames_nil (k : Nat) : frames k [] = [] := rfl

theorem frames_cons (k : Nat) (u : Bytes) (us : List Bytes) :
    frames k (u :: us) = beBytes k u.length ++ (u ++ frames k us) := by
  simp [frames, frame, List.flatMap_cons]

theorem frames_eq_nil (k : Nat) (hk : 0 < k) (us : List Bytes) : frames k us = [] ↔ us = [] := by
  cases us with
  | nil => simp
  | cons u us =>
    have h : (frames k (u :: us)).length ≠ 0 := by rw [frames_cons]; simp; omega
    constructor
    · intro e; exact absurd (by simp [e]) h
    · intro e; cases e

theorem length_le_frames (k : Nat) (hk : 0 < k) (us : List Bytes) :
    us.length ≤ (frames k us).length := by
  induction us with
  | nil => simp
  | cons u us ih => rw [frames_cons]; simp only [List.length_cons, List.length_append, beBytes_length]; omega

/-- The length field says where a unit ends. -/
theorem frame_append_inj (k : Nat) {u v as bs : Bytes} (hu : u.length < 256 ^ k) (hv : v.length < 256 ^ k)
    (h : frame k u ++ as = frame k v ++ bs) : u = v ∧ as = bs := by
  rw [frame, frame, List.append_assoc, List.append_assoc] at h
  obtain ⟨hlen, htail⟩ := List.append_inj h (by simp)
  have he : u.length = v.length := by
    have := congrArg beNat hlen
    rwa [beNat_beBytes k _ hu, beNat_beBytes k _ hv] at this
  exact List.append_inj htail he

theorem frames_inj (k : Nat) (hk : 0 < k) : ∀ us vs : List Bytes, (∀ u ∈ us, u.length < 256 ^ k) →
    (∀ v ∈ vs, v.length < 256 ^ k) → frames k us = frames k vs → us = vs
  | [], vs, _, _, h => ((frames_eq_nil k hk vs).mp (h.symm.trans (frames_nil k))).symm
  | us, [], _, _, h => (frames_eq_nil k hk us).mp h
  | u :: us, v :: vs, hu, hv, h => by
    have hc : frame k u ++ frames k us = frame k v ++ frames k vs := h
    obtain ⟨rfl, ht⟩ := frame_append_inj k (hu u (by simp)) (hv v (by simp)) hc
    rw [frames_inj k hk us vs (fun w hw => hu w (by simp [hw])) (fun w hw => hv w (by simp [hw])) ht]

end Bytes

end Rtmpg
