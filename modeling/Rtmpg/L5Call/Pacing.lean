import Mathlib.Algebra.BigOperators.Intervals
import Mathlib.Algebra.Order.BigOperators.Group.Finset
import Mathlib.Tactic.Linarith
import Rtmpg.L5Call.Model

/-!
# How long a handler sleeps in all

A handler sleeps for each packet what `GetNextSamplingPoint` says
(`helpers/utilities.cpp:28-54`), and then keeps the packet's timestamp as its
`lastTimestamp`, zero at first (`libagorac/agorac.cpp:248-249,489-501,553-559`).
A `Stream` is what it meets: the packets it takes one after the other, and
whether packet `k + 1` is at the head of the queue while packet `k` is
handled. Packets count from zero. The speed-up is not taken. That the handlers
of a call meet such streams is shown in `Rtmpg.L5Call.Sampling`.

The sleep for a packet is the gap before it, or, when the next one has arrived
with another timestamp (`LooksAhead`), the gap behind it. The gap before packet
0 is its timestamp.

* `slept_eq`: the sleeps add up to the last timestamp and, for every packet
  the handler looks ahead from, the gap behind it less the gap before it.
* `pacing_exact`: so this sum decides whether the handler keeps the media
  clock; and the timestamps for which it does whatever arrives when.
* `steady_of_even`: a constant frame rate is among them.
* `pacing_drifts`: two audio packets to each timestamp, as `decode_acc_audio`
  makes them, are sent at half the speed.
-/
namespace Rtmpg.Pacing

open Rtmpg.Agorac

structure Stream where
  packet : Nat → Work
  arrived : Nat → Bool
  mono : ∀ k, (packet k).timestamp ≤ (packet (k + 1)).timestamp

namespace Stream

variable (x : Stream)

def timestamp (k : Nat) : Int := (x.packet k).timestamp

/-- What `q->top()` returns while packet `k` is handled. -/
def next (k : Nat) : Option Work := if x.arrived k then some (x.packet (k + 1)) else none

/-- The gap before packet `k`. -/
def gap : Nat → Int
  | 0 => x.timestamp 0
  | k + 1 => x.timestamp (k + 1) - x.timestamp k

/-- `G` is as large as every gap between two packets. -/
def Bounds (G : Int) : Prop := ∀ k, x.gap (k + 1) ≤ G

def LooksAhead (k : Nat) : Prop := x.arrived k = true ∧ x.timestamp (k + 1) ≠ x.timestamp k

instance (k : Nat) : Decidable (x.LooksAhead k) := inferInstanceAs (Decidable (_ ∧ _))

end Stream

/-! ## The handler -/

structure Pace where
  lastTimestamp : Int
  slept : Int
  deriving DecidableEq, Repr

/-- mirrors libagorac/agorac.cpp:483-501,546-559 -/
def handle (p : Pace) (work : Work) (next : Option Work) : Pace :=
  ⟨work.timestamp, p.slept + sleepTimeOf next work.timestamp p.lastTimestamp⟩

/-- The first `n` packets. -/
def handleAll (x : Stream) : Nat → Pace
  | 0 => ⟨0, 0⟩
  | n + 1 => handle (handleAll x n) (x.packet n) (x.next n)

/-- Behind packet `n`, the sleeps are as long as the stream, up to its largest gap. -/
def Paced (x : Stream) (n : Nat) : Prop :=
  ∀ G, x.Bounds G → |(handleAll x (n + 1)).slept - (x.timestamp n - x.timestamp 0)| ≤ G

/-! ## One packet -/

variable {x : Stream}

/-- `lastTimestamp`, in terms of the gap. -/
theorem timestamp_sub_last (n : Nat) : x.timestamp n - (handleAll x n).lastTimestamp = x.gap n := by
  cases n with
  | zero => exact Int.sub_zero _
  | succ n => rfl

theorem sleepTimeOf_none (currentTimestamp lastTimestamp : Int) :
    sleepTimeOf none currentTimestamp lastTimestamp = currentTimestamp - lastTimestamp := by
  unfold sleepTimeOf
  dsimp only
  rw [if_pos rfl]

theorem sleepTimeOf_same {work : Work} {currentTimestamp : Int} (h : work.timestamp = currentTimestamp)
    (lastTimestamp : Int) :
    sleepTimeOf (some work) currentTimestamp lastTimestamp = currentTimestamp - lastTimestamp := by
  unfold sleepTimeOf
  dsimp only
  rw [if_pos h.symm, h]

theorem sleepTimeOf_ahead {work : Work} {currentTimestamp : Int} (h : work.timestamp ≠ currentTimestamp)
    (lastTimestamp : Int) :
    sleepTimeOf (some work) currentTimestamp lastTimestamp = work.timestamp - currentTimestamp := by
  unfold sleepTimeOf
  dsimp only
  rw [if_neg fun he => h he.symm]

theorem sleep_eq (n : Nat) :
    sleepTimeOf (x.next n) (x.packet n).timestamp (handleAll x n).lastTimestamp =
      if x.LooksAhead n then x.gap (n + 1) else x.gap n := by
  have hgap : (x.packet n).timestamp - (handleAll x n).lastTimestamp = x.gap n := timestamp_sub_last n
  unfold Stream.next
  cases ha : x.arrived n with
  | false =>
    have hno : ¬ x.LooksAhead n := fun h => absurd (ha.symm.trans h.1) Bool.false_ne_true
    rw [if_neg hno, if_neg Bool.false_ne_true, sleepTimeOf_none, hgap]
  | true =>
    rw [if_pos rfl]
    by_cases he : x.timestamp (n + 1) = x.timestamp n
    · rw [if_neg fun h : x.LooksAhead n => h.2 he]
      exact (sleepTimeOf_same he _).trans hgap
    · rw [if_pos ⟨ha, he⟩]
      exact sleepTimeOf_ahead he _

/-! ## Every packet -/

/-- What looking ahead adds to the sleeps for the packets up to `n`. -/
def lookahead (x : Stream) (n : Nat) : Int :=
  ∑ k ∈ Finset.range (n + 1) with x.LooksAhead k, (x.gap (k + 1) - x.gap k)

theorem sum_gap (x : Stream) : ∀ n, ∑ k ∈ Finset.range (n + 1), x.gap k = x.timestamp n
  | 0 => by rw [Finset.sum_range_one]; rfl
  | n + 1 => by
    rw [Finset.sum_range_succ, sum_gap x n]
    exact add_sub_cancel _ _

theorem slept_sum (x : Stream) : ∀ n, (handleAll x n).slept =
    ∑ k ∈ Finset.range n, if x.LooksAhead k then x.gap (k + 1) else x.gap k
  | 0 => rfl
  | n + 1 => by
    rw [Finset.sum_range_succ, ← slept_sum x n, ← sleep_eq n]
    rfl

theorem slept_eq (x : Stream) (n : Nat) : (handleAll x (n + 1)).slept = x.timestamp n + lookahead x n := by
  rw [slept_sum, ← sum_gap, lookahead, Finset.sum_filter, ← Finset.sum_add_distrib]
  refine Finset.sum_congr rfl fun k _ => ?_
  split
  · ring
  · ring

/-- The first timestamp, and what looking ahead adds, make up for each other up to the
largest gap. -/
def Compensated (x : Stream) (n : Nat) : Prop := ∀ G, x.Bounds G → |x.timestamp 0 + lookahead x n| ≤ G

theorem paced_iff (x : Stream) (n : Nat) : Paced x n ↔ Compensated x n := by
  have hdrift : (handleAll x (n + 1)).slept - (x.timestamp n - x.timestamp 0) =
      x.timestamp 0 + lookahead x n := by
    rw [slept_eq]
    ring
  unfold Paced Compensated
  rw [hdrift]

/-! ## Every order of arrivals -/

/-- The packets of `x`, arriving otherwise. -/
def Stream.arriving (x : Stream) (arrived : Nat → Bool) : Stream := { x with arrived := arrived }

/-- All the gaps that follow a shorter one, by what they are longer. -/
def rises (x : Stream) (n : Nat) : Int :=
  ∑ k ∈ Finset.range (n + 1) with x.timestamp (k + 1) ≠ x.timestamp k, max 0 (x.gap (k + 1) - x.gap k)

def falls (x : Stream) (n : Nat) : Int :=
  ∑ k ∈ Finset.range (n + 1) with x.timestamp (k + 1) ≠ x.timestamp k, max 0 (x.gap k - x.gap (k + 1))

theorem lookahead_arriving (x : Stream) (arrived : Nat → Bool) (n : Nat) :
    lookahead (x.arriving arrived) n =
      ∑ k ∈ Finset.range (n + 1) with x.timestamp (k + 1) ≠ x.timestamp k,
        if arrived k = true then x.gap (k + 1) - x.gap k else 0 := by
  unfold lookahead
  rw [← Finset.sum_filter, Finset.filter_filter]
  refine Finset.sum_congr (Finset.filter_congr fun k _ => ?_) fun k _ => ?_
  · exact and_comm
  · cases k with
    | zero => rfl
    | succ k => rfl

theorem lookahead_le (x : Stream) (arrived : Nat → Bool) (n : Nat) :
    -falls x n ≤ lookahead (x.arriving arrived) n ∧ lookahead (x.arriving arrived) n ≤ rises x n := by
  rw [lookahead_arriving, falls, rises, ← Finset.sum_neg_distrib]
  constructor
  · refine Finset.sum_le_sum fun k _ => ?_
    split <;> omega
  · refine Finset.sum_le_sum fun k _ => ?_
    split <;> omega

theorem lookahead_rises (x : Stream) (n : Nat) :
    lookahead (x.arriving fun k => decide (x.gap k < x.gap (k + 1))) n = rises x n := by
  rw [lookahead_arriving, rises]
  refine Finset.sum_congr rfl fun k _ => ?_
  simp only [decide_eq_true_eq]
  split <;> omega

theorem lookahead_falls (x : Stream) (n : Nat) :
    lookahead (x.arriving fun k => decide (x.gap (k + 1) < x.gap k)) n = -falls x n := by
  rw [lookahead_arriving, falls, ← Finset.sum_neg_distrib]
  refine Finset.sum_congr rfl fun k _ => ?_
  simp only [decide_eq_true_eq]
  split <;> omega

/-- The first timestamp and all the rises together stay within the largest gap, and so do
the falls less the first timestamp. -/
def Steady (x : Stream) : Prop :=
  ∀ n G, x.Bounds G → x.timestamp 0 + rises x n ≤ G ∧ falls x n ≤ G + x.timestamp 0

theorem paced_for_all_arrivals (x : Stream) : (∀ arrived n, Paced (x.arriving arrived) n) ↔ Steady x := by
  constructor
  · intro h n G hG
    have hup := abs_le.mp ((paced_iff _ n).mp (h (fun k => decide (x.gap k < x.gap (k + 1))) n) G hG)
    have hdown := abs_le.mp ((paced_iff _ n).mp (h (fun k => decide (x.gap (k + 1) < x.gap k)) n) G hG)
    rw [lookahead_rises] at hup
    rw [lookahead_falls] at hdown
    have h0 : ∀ arrived, (x.arriving arrived).timestamp 0 = x.timestamp 0 := fun _ => rfl
    rw [h0] at hup hdown
    omega
  · intro h arrived n
    refine (paced_iff _ n).mpr fun G hG => ?_
    obtain ⟨hup, hdown⟩ := h n G hG
    obtain ⟨hlow, hhigh⟩ := lookahead_le x arrived n
    have h0 : (x.arriving arrived).timestamp 0 = x.timestamp 0 := rfl
    rw [h0, abs_le]
    omega

theorem variation_even (x : Stream) {g : Int} (hgap : ∀ k, x.gap (k + 1) = g) (hle : x.timestamp 0 ≤ g) :
    ∀ n, rises x n ≤ g - x.timestamp 0 ∧ falls x n = 0 := by
  have hfirst : x.gap 0 = x.timestamp 0 := rfl
  intro n
  unfold rises falls
  rw [Finset.sum_filter, Finset.sum_filter]
  induction n with
  | zero =>
    rw [Finset.sum_range_one, Finset.sum_range_one, hgap 0, hfirst]
    constructor <;> split <;> omega
  | succ n ih =>
    rw [Finset.sum_range_succ _ (n + 1), Finset.sum_range_succ _ (n + 1), ih.2, hgap (n + 1), hgap n, sub_self,
      max_self, ite_self]
    exact ⟨(add_zero _).trans_le ih.1, rfl⟩

/-- A constant frame rate from a small first timestamp on. -/
theorem steady_of_even (x : Stream) {g : Int} (hgap : ∀ k, x.gap (k + 1) = g) (h0 : 0 ≤ x.timestamp 0)
    (hle : x.timestamp 0 ≤ g) : Steady x := by
  intro n G hG
  have hg : g ≤ G := hgap 0 ▸ hG 0
  obtain ⟨hrises, hfalls⟩ := variation_even x hgap hle n
  omega

/-- The samples are at the media time for one arrival pattern exactly when what looking ahead
adds is made up for, and for all patterns exactly when the gaps hardly change. -/
theorem pacing_exact (x : Stream) :
    (∀ n, Paced x n ↔ Compensated x n) ∧ ((∀ arrived n, Paced (x.arriving arrived) n) ↔ Steady x) :=
  ⟨paced_iff x, paced_for_all_arrivals x⟩

/-! ## Two packets to each timestamp -/

/-- Two packets to each timestamp, 23 ms apart, and the next one is always there. -/
def audioPairs : Stream where
  packet k := ⟨k, [], false, false, 23 * (k / 2 : Nat)⟩
  arrived _ := true
  mono k := by
    dsimp only
    omega

theorem audioPairs_bounds : audioPairs.Bounds 23 := by
  intro k
  show (23 * ((k + 1) / 2 : Nat) : Int) - 23 * (k / 2 : Nat) ≤ 23
  omega

theorem audioPairs_slept : ∀ m : Nat, handleAll audioPairs (2 * m + 1) = ⟨23 * m, 46 * m⟩
  | 0 => rfl
  | m + 1 => by
    have hodd : (audioPairs.packet (2 * m + 1)).timestamp = 23 * m := by
      show (23 * ((2 * m + 1) / 2 : Nat) : Int) = 23 * m
      omega
    have heven : (audioPairs.packet (2 * m + 2)).timestamp = 23 * m + 23 := by
      show (23 * ((2 * m + 2) / 2 : Nat) : Int) = 23 * m + 23
      omega
    have hbehind : (audioPairs.packet (2 * m + 3)).timestamp = 23 * m + 23 := by
      show (23 * ((2 * m + 3) / 2 : Nat) : Int) = 23 * m + 23
      omega
    -- the gap is slept once for the second packet of a pair, and again for the first of the next
    have hfirst : sleepTimeOf (some (audioPairs.packet (2 * m + 2))) (23 * m) (23 * m) = 23 := by
      rw [sleepTimeOf_ahead (by omega), heven]
      omega
    have hsecond : sleepTimeOf (some (audioPairs.packet (2 * m + 3))) (23 * m + 23) (23 * m) = 23 := by
      rw [sleepTimeOf_same hbehind]
      omega
    show handle (handle (handleAll audioPairs (2 * m + 1)) (audioPairs.packet (2 * m + 1))
      (some (audioPairs.packet (2 * m + 2)))) (audioPairs.packet (2 * m + 2))
      (some (audioPairs.packet (2 * m + 3))) = _
    rw [audioPairs_slept m]
    unfold handle
    rw [hodd, heven, hfirst, hsecond]
    push_cast
    congr 1

/-- No gap is longer than 23 ms, but the delay grows over every bound. -/
theorem pacing_drifts :
    audioPairs.Bounds 23 ∧ ¬ Paced audioPairs 4 ∧
      ∀ B : Nat, ∃ n, B < (handleAll audioPairs (n + 1)).slept -
        (audioPairs.timestamp n - audioPairs.timestamp 0) := by
  refine ⟨audioPairs_bounds, fun h => ?_, fun B => ⟨2 * (B + 1), ?_⟩⟩
  · have hle := h 23 audioPairs_bounds
    exact absurd hle (by decide)
  · rw [audioPairs_slept (B + 1)]
    show (B : Int) < 46 * (B + 1 : Nat) - (23 * (2 * (B + 1) / 2 : Nat) - 23 * (0 / 2 : Nat))
    omega

end Rtmpg.Pacing
