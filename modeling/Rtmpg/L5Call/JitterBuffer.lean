import Rtmpg.L4Session.Config
import Rtmpg.L5Call.Frame

/-!
# The size of the jitter buffer

`CheckAndFillInVideoJb` and `ResizeBuffer` (`libagorac/agorac.cpp:413-452`,
`helpers/utilities.cpp:118-135`) as a system of their own, under a
configuration `readConfig` accepted. A `Check` is one call with its readings
of the steady clock, in nanoseconds: they are arbitrary but never go back.
`WaitForBuffering` changes none of the fields. The doubling is on `uint16_t`.

* `check_respects`: one call, under a configuration that `Settles`.
* `jb_size_bounded`: the target keeps its bounds exactly when the
  configuration never doubles, or doubles onto its maximum.
* `step_checks`, `call_jbSize`: the handlers' system goes through these calls.
* `jb_size_exceeds`: under the configuration that comes with the program,
  60 ms are doubled to 3840 ms, over the maximum of 2000 ms.
-/
namespace Rtmpg.JitterBuffer

open Rtmpg.Config

/-- mirrors helpers/utilities.cpp:20-22 -/
def getTimeDiff (start stop : Nat) : Int := ((stop : Int) - start).tdiv 1000000

/-- `now` is the last reading of the clock.
mirrors helpers/context.h:47-54 -/
structure Buffer where
  now : Nat
  jbSize : UInt16
  lastBufferingTime : Nat
  reBufferingCount : Nat
  deriving DecidableEq, Repr

/-- What a call reads: `length` is that of `videoJB`, `now` the clock in
`CheckAndFillInVideoJb`, `test` and `stamp` the clock in `ResizeBuffer`. -/
structure Check where
  lastSendTime : Nat
  predictedFps : Rat
  length : Nat
  now : Nat
  test : Nat
  stamp : Nat
  deriving DecidableEq, Repr

/-- `waitForBufferToBeFull`
mirrors libagorac/agorac.cpp:435-442 -/
def fills (k : Check) : Bool := 3 * k.predictedFps < getTimeDiff k.lastSendTime k.now ∧ k.length = 0

/-- mirrors helpers/utilities.cpp:123-126 -/
def grows (c : LocalConfig) (s : Buffer) (test : Nat) : Bool :=
  1 ≤ s.reBufferingCount ∧ getTimeDiff s.lastBufferingTime test < c.timeToIncreaseJbSize.toNat * 1000

/-- mirrors helpers/utilities.cpp:118-135 -/
def resizeBuffer (c : LocalConfig) (s : Buffer) (test stamp : Nat) : Buffer :=
  { s with
    jbSize := if grows c s test then s.jbSize * 2 else s.jbSize
    lastBufferingTime := stamp
    reBufferingCount := s.reBufferingCount + 1 }

/-- mirrors libagorac/agorac.cpp:432-452 -/
def checkAndFillInVideoJb (c : LocalConfig) (s : Buffer) (k : Check) : Buffer :=
  if fills k = true ∧ s.jbSize < c.maxJbSize then
    { resizeBuffer c s k.test k.stamp with now := k.stamp }
  else { s with now := k.stamp }

/-- `ResizeBuffer` reports that it has increased the size. -/
def Reports (c : LocalConfig) (s : Buffer) (k : Check) : Prop :=
  fills k = true ∧ s.jbSize < c.maxJbSize ∧ grows c s k.test = true

/-- mirrors libagorac/agorac.cpp:95,233-234 -/
def jbSystem (c : LocalConfig) : LTS Buffer Check where
  init s := s.jbSize = c.initialJbSize ∧ s.reBufferingCount = 0 ∧ s.lastBufferingTime ≤ s.now
  step s k :=
    if s.now ≤ k.now ∧ k.now ≤ k.test ∧ k.test ≤ k.stamp then some (checkAndFillInVideoJb c s k) else none

/-- The size stays in its bounds, and every reported increase is one. -/
def Bounded (c : LocalConfig) : Prop :=
  (∀ s, (jbSystem c).Reachable s → s.jbSize.toNat ≤ max c.initialJbSize.toNat c.maxJbSize.toNat) ∧
    ∀ s k t, (jbSystem c).Reachable s → (jbSystem c).step s k = some t →
      s.jbSize ≤ t.jbSize ∧ (Reports c s k → s.jbSize < t.jbSize)

/-- No doubling at all, or doublings that end at the maximum exactly. -/
def Settles (c : LocalConfig) : Prop :=
  c.timeToIncreaseJbSize = 0 ∨ c.maxJbSize ≤ c.initialJbSize ∨
    ∃ K, c.maxJbSize.toNat = c.initialJbSize.toNat * 2 ^ K

/-! ## One call -/

structure OnTheWay (c : LocalConfig) (s : Buffer) : Prop where
  clock : s.lastBufferingTime ≤ s.now
  size : s.jbSize = c.initialJbSize ∨
    ∃ k K, k ≤ K ∧ s.jbSize.toNat = c.initialJbSize.toNat * 2 ^ k ∧
      c.maxJbSize.toNat = c.initialJbSize.toNat * 2 ^ K

/-- The clock is steady: a limit of no time at all is never kept. -/
theorem grows_time {c : LocalConfig} {s : Buffer} {test : Nat} (hclock : s.lastBufferingTime ≤ test)
    (h : grows c s test = true) : c.timeToIncreaseJbSize ≠ 0 := by
  intro hzero
  have hlt := (of_decide_eq_true h).2
  rw [hzero] at hlt
  have hdiff : 0 ≤ getTimeDiff s.lastBufferingTime test := Int.tdiv_nonneg (by omega) (by omega)
  have : ((0 : UInt16).toNat : Int) * 1000 = 0 := rfl
  omega

theorem double_toNat {x : UInt16} (h : x.toNat * 2 < 2 ^ 16) : (x * 2).toNat = x.toNat * 2 := by
  rw [UInt16.toNat_mul]
  exact Nat.mod_eq_of_lt h

/-- Below the maximum, a size on its way to it has room for a doubling. -/
theorem double_onTheWay {c : LocalConfig} {x : UInt16} {k K : Nat} (hlt : x < c.maxJbSize)
    (hx : x.toNat = c.initialJbSize.toNat * 2 ^ k) (hK : c.maxJbSize.toNat = c.initialJbSize.toNat * 2 ^ K) :
    k + 1 ≤ K ∧ (x * 2).toNat = c.initialJbSize.toNat * 2 ^ (k + 1) ∧ x < x * 2 ∧ x * 2 ≤ c.maxJbSize := by
  have hlt' := UInt16.lt_iff_toNat_lt.mp hlt
  rw [hx, hK] at hlt'
  have hpos : 0 < c.initialJbSize.toNat := Nat.pos_of_ne_zero fun h => by rw [h] at hlt'; omega
  have hkK : k < K := (Nat.pow_lt_pow_iff_right (by omega)).mp (Nat.lt_of_mul_lt_mul_left hlt')
  have hle : x.toNat * 2 ≤ c.maxJbSize.toNat := by
    rw [hx, hK, Nat.mul_assoc, ← Nat.pow_succ]
    exact Nat.mul_le_mul_left _ (Nat.pow_le_pow_right (by omega) hkK)
  have hmax := c.maxJbSize.toNat_lt
  have hdouble := double_toNat (x := x) (by omega)
  have hx0 : 0 < x.toNat := hx ▸ Nat.mul_pos hpos (Nat.two_pow_pos k)
  refine ⟨hkK, ?_, UInt16.lt_iff_toNat_lt.mpr (by omega), UInt16.le_iff_toNat_le.mpr (by omega)⟩
  rw [hdouble, hx, Nat.mul_assoc, ← Nat.pow_succ]

theorem onTheWay_le {c : LocalConfig} {s : Buffer} (h : OnTheWay c s) :
    s.jbSize.toNat ≤ max c.initialJbSize.toNat c.maxJbSize.toNat := by
  rcases h.size with he | ⟨k, K, hkK, hk, hK⟩
  · rw [he]
    exact le_max_left _ _
  · refine le_trans ?_ (le_max_right _ _)
    rw [hk, hK]
    exact Nat.mul_le_mul_left _ (Nat.pow_le_pow_right (by omega) hkK)

/-- What a step of the system is: it resizes, or leaves all but the clock. -/
theorem step_cases {c : LocalConfig} {s t : Buffer} {k : Check} (h : (jbSystem c).step s k = some t) :
    (s.now ≤ k.now ∧ k.now ≤ k.test ∧ k.test ≤ k.stamp) ∧
      (fills k = true ∧ s.jbSize < c.maxJbSize ∧
          t = { resizeBuffer c s k.test k.stamp with now := k.stamp } ∨
        ¬ (fills k = true ∧ s.jbSize < c.maxJbSize) ∧ t = { s with now := k.stamp }) := by
  unfold jbSystem at h
  dsimp only at h
  split at h
  · next hclock =>
    cases h
    refine ⟨hclock, ?_⟩
    unfold checkAndFillInVideoJb
    split
    · next hfill => exact .inl ⟨hfill.1, hfill.2, rfl⟩
    · next hfill => exact .inr ⟨hfill, rfl⟩
  · cases h

theorem check_respects {c : LocalConfig} {s t : Buffer} {k : Check} (hc : Settles c) (hs : OnTheWay c s)
    (h : (jbSystem c).step s k = some t) :
    OnTheWay c t ∧ s.jbSize ≤ t.jbSize ∧ (Reports c s k → s.jbSize < t.jbSize) := by
  obtain ⟨⟨hnow, htest, hstamp⟩, ⟨hfill, hlt, rfl⟩ | ⟨hno, rfl⟩⟩ := step_cases h
  · have hclock : s.lastBufferingTime ≤ k.test := by have := hs.clock; omega
    cases hg : grows c s k.test with
    | false =>
      have hsame : (resizeBuffer c s k.test k.stamp).jbSize = s.jbSize := by
        show (if grows c s k.test = true then _ else _) = _
        rw [hg, if_neg Bool.false_ne_true]
      refine ⟨⟨le_refl k.stamp, hsame.symm ▸ hs.size⟩, hsame.symm ▸ UInt16.le_refl _, fun hr => ?_⟩
      exact absurd (hg.symm.trans hr.2.2) Bool.false_ne_true
    | true =>
      have hdouble : (resizeBuffer c s k.test k.stamp).jbSize = s.jbSize * 2 := by
        show (if grows c s k.test = true then _ else _) = _
        rw [hg, if_pos rfl]
      obtain ⟨j, K, hj, hK⟩ : ∃ j K, s.jbSize.toNat = c.initialJbSize.toNat * 2 ^ j ∧
          c.maxJbSize.toNat = c.initialJbSize.toNat * 2 ^ K := by
        rcases hs.size with he | ⟨j, K, -, hj, hK⟩
        · rcases hc with hzero | hle | ⟨K, hK⟩
          · exact absurd hzero (grows_time hclock hg)
          · exact absurd hlt (UInt16.not_lt.mpr (he ▸ hle))
          · exact ⟨0, K, by rw [he, Nat.pow_zero, Nat.mul_one], hK⟩
        · exact ⟨j, K, hj, hK⟩
      obtain ⟨hjK, hsize, hgt, -⟩ := double_onTheWay hlt hj hK
      refine ⟨⟨le_refl k.stamp, .inr ⟨j + 1, K, hjK, ?_, hK⟩⟩, ?_, fun _ => ?_⟩
      · show (resizeBuffer c s k.test k.stamp).jbSize.toNat = _
        rw [hdouble, hsize]
      · show s.jbSize ≤ (resizeBuffer c s k.test k.stamp).jbSize
        rw [hdouble]
        exact UInt16.le_of_lt hgt
      · show s.jbSize < (resizeBuffer c s k.test k.stamp).jbSize
        rw [hdouble]
        exact hgt
  · refine ⟨⟨?_, hs.size⟩, UInt16.le_refl _, fun hr => absurd ⟨hr.1, hr.2.1⟩ hno⟩
    show s.lastBufferingTime ≤ k.stamp
    have := hs.clock
    omega

/-! ## Every run -/

/-- The buffer ran empty a second ago. -/
def emptied : Check := ⟨0, 30, 0, 1000000000, 1000000000, 1000000000⟩

theorem emptied_fills : fills emptied = true := by decide +kernel

/-- Behind `count` such calls. -/
def emptiedAfter (size : UInt16) (count : Nat) : Buffer := ⟨1000000000, size, 1000000000, count⟩

theorem emptied_step {c : LocalConfig} (htime : c.timeToIncreaseJbSize ≠ 0) {x : UInt16} (hlt : x < c.maxJbSize)
    (count : Nat) :
    (jbSystem c).step (emptiedAfter x count) emptied =
      some (emptiedAfter (if 1 ≤ count then x * 2 else x) (count + 1)) := by
  have hpos : 0 < c.timeToIncreaseJbSize.toNat := Nat.pos_of_ne_zero fun h => htime (UInt16.toNat_inj.mp h)
  have hdiff : getTimeDiff 1000000000 1000000000 = 0 := rfl
  have hgrows : grows c (emptiedAfter x count) 1000000000 = decide (1 ≤ count) := by
    refine Bool.eq_iff_iff.mpr ⟨fun h => decide_eq_true (of_decide_eq_true h).1,
      fun h => decide_eq_true ⟨of_decide_eq_true h, ?_⟩⟩
    show getTimeDiff 1000000000 1000000000 < _
    rw [hdiff]
    omega
  have hfill : fills emptied = true ∧ (emptiedAfter x count).jbSize < c.maxJbSize := ⟨emptied_fills, hlt⟩
  have hclock : (emptiedAfter x count).now ≤ emptied.now ∧ emptied.now ≤ emptied.test ∧
      emptied.test ≤ emptied.stamp := ⟨le_refl _, le_refl _, le_refl _⟩
  simp only [jbSystem]
  rw [if_pos hclock]
  unfold checkAndFillInVideoJb
  rw [if_pos hfill]
  show some (⟨1000000000, if grows c (emptiedAfter x count) 1000000000 = true then x * 2 else x, 1000000000,
    count + 1⟩ : Buffer) = _
  simp only [hgrows, decide_eq_true_eq]
  rfl

theorem reachable_tail {c : LocalConfig} {s t : Buffer} {k : Check} (hs : (jbSystem c).Reachable s)
    (h : (jbSystem c).step s k = some t) : (jbSystem c).Reachable t := by
  obtain ⟨s₀, hinit, hr⟩ := hs
  exact ⟨s₀, hinit, .tail k hr trivial h⟩

/-- The first call resizes nothing, each one behind it doubles. -/
theorem reachable_doubled {c : LocalConfig} (htime : c.timeToIncreaseJbSize ≠ 0) :
    ∀ (k : Nat) (x : UInt16), x.toNat = c.initialJbSize.toNat * 2 ^ k →
      (∀ j ≤ k, c.initialJbSize.toNat * 2 ^ j < c.maxJbSize.toNat) →
      (jbSystem c).Reachable (emptiedAfter x (k + 1))
  | 0, x, hx, hbelow => by
    have hxi : x = c.initialJbSize := UInt16.toNat_inj.mp (by rw [hx, Nat.pow_zero, Nat.mul_one])
    have hlt : x < c.maxJbSize := UInt16.lt_iff_toNat_lt.mpr (hx ▸ hbelow 0 (le_refl 0))
    have hstart : (jbSystem c).Reachable (emptiedAfter x 0) := ⟨_, ⟨hxi, rfl, le_refl _⟩, .refl⟩
    exact reachable_tail hstart (emptied_step htime hlt 0)
  | k + 1, x, hx, hbelow => by
    have hmax := c.maxJbSize.toNat_lt
    have hy : (UInt16.ofNat (c.initialJbSize.toNat * 2 ^ k)).toNat = c.initialJbSize.toNat * 2 ^ k := by
      have := hbelow k (by omega)
      rw [UInt16.toNat_ofNat']
      exact Nat.mod_eq_of_lt (by omega)
    have ih := reachable_doubled htime k _ hy fun j hj => hbelow j (by omega)
    have hlt : UInt16.ofNat (c.initialJbSize.toNat * 2 ^ k) < c.maxJbSize := by
      rw [UInt16.lt_iff_toNat_lt, hy]
      exact hbelow k (by omega)
    have hxy : x = UInt16.ofNat (c.initialJbSize.toNat * 2 ^ k) * 2 := by
      have hdouble : c.initialJbSize.toNat * 2 ^ (k + 1) = c.initialJbSize.toNat * 2 ^ k * 2 := by ring
      have := hbelow (k + 1) (le_refl _)
      refine UInt16.toNat_inj.mp ?_
      rw [double_toNat (by omega), hx, hy, hdouble]
    rw [hxy]
    exact reachable_tail ih (emptied_step htime hlt (k + 1))

theorem last_doubling {m M : Nat} (hm : 0 < m) (hlt : m < M) :
    ∃ k, (∀ j ≤ k, m * 2 ^ j < M) ∧ M ≤ m * 2 ^ (k + 1) := by
  have hex : ∃ k, M ≤ m * 2 ^ (k + 1) := by
    refine ⟨M, ?_⟩
    have h1 : M < 2 ^ M := Nat.lt_two_pow_self
    have h2 : 2 ^ M ≤ 2 ^ (M + 1) := Nat.pow_le_pow_right (by omega) (by omega)
    have h3 : 2 ^ (M + 1) ≤ m * 2 ^ (M + 1) := Nat.le_mul_of_pos_left _ hm
    omega
  refine ⟨Nat.find hex, fun j hj => ?_, Nat.find_spec hex⟩
  cases j with
  | zero => rwa [Nat.pow_zero, Nat.mul_one]
  | succ j => exact Nat.not_le.mp (Nat.find_min hex hj)

/-- Otherwise the doublings go on to a size that is over the maximum, or has wrapped,
or is still zero. -/
theorem settles_of_bounded {c : LocalConfig} (hb : Bounded c) : Settles c := by
  by_contra hno
  unfold Settles at hno
  push Not at hno
  obtain ⟨htime, hinit, hnot⟩ := hno
  have hinit' := UInt16.lt_iff_toNat_lt.mp (UInt16.not_le.mp hinit)
  have hmax := c.maxJbSize.toNat_lt
  have hdoubled : ∀ k (x : UInt16), x.toNat = c.initialJbSize.toNat * 2 ^ k →
      (∀ j ≤ k, c.initialJbSize.toNat * 2 ^ j < c.maxJbSize.toNat) →
      (x * 2).toNat ≤ max c.initialJbSize.toNat c.maxJbSize.toNat ∧ x < x * 2 := by
    intro k x hx hbelow
    have hlt : x < c.maxJbSize := UInt16.lt_iff_toNat_lt.mpr (hx ▸ hbelow k (le_refl k))
    have hr := reachable_doubled htime k x hx hbelow
    have hstep : (jbSystem c).step (emptiedAfter x (k + 1)) emptied = some (emptiedAfter (x * 2) (k + 2)) := by
      rw [emptied_step htime hlt, if_pos (by omega)]
    have hreports : Reports c (emptiedAfter x (k + 1)) emptied := by
      refine ⟨emptied_fills, hlt, decide_eq_true ⟨Nat.succ_pos k, ?_⟩⟩
      have hpos : 0 < c.timeToIncreaseJbSize.toNat := Nat.pos_of_ne_zero fun h => htime (UInt16.toNat_inj.mp h)
      show getTimeDiff 1000000000 1000000000 < _
      rw [show getTimeDiff 1000000000 1000000000 = 0 from rfl]
      omega
    exact ⟨hb.1 _ (reachable_tail hr hstep), (hb.2 _ emptied _ hr hstep).2 hreports⟩
  by_cases hzero : c.initialJbSize.toNat = 0
  · -- zero doubled is reported, and stays zero
    obtain ⟨-, hgt⟩ := hdoubled 0 0 (by rw [hzero]; rfl) fun j _ => by rw [hzero, Nat.zero_mul]; omega
    exact absurd hgt (by decide)
  · obtain ⟨k, hbelow, hover⟩ := last_doubling (Nat.pos_of_ne_zero hzero) hinit'
    have hk := hbelow k (le_refl k)
    have hx : (UInt16.ofNat (c.initialJbSize.toNat * 2 ^ k)).toNat = c.initialJbSize.toNat * 2 ^ k := by
      rw [UInt16.toNat_ofNat']
      exact Nat.mod_eq_of_lt (by omega)
    obtain ⟨hle, hgt⟩ := hdoubled k _ hx hbelow
    rw [UInt16.lt_iff_toNat_lt] at hgt
    have hne := hnot (k + 1)
    have htwice : c.initialJbSize.toNat * 2 ^ (k + 1) = c.initialJbSize.toNat * 2 ^ k * 2 := by ring
    rw [UInt16.toNat_mul, hx, show (2 : UInt16).toNat = 2 from rfl] at hle hgt
    omega

theorem bounded_of_settles {c : LocalConfig} (hc : Settles c) : Bounded c := by
  have hon : ∀ s, (jbSystem c).Reachable s → OnTheWay c s := by
    intro s hs
    refine LTS.Reachable.invariant (M := jbSystem c) (fun s hinit => ?_) (fun s k t hs hstep => ?_) hs
    · exact ⟨hinit.2.2, .inl hinit.1⟩
    · exact (check_respects hc hs hstep).1
  exact ⟨fun s hs => onTheWay_le (hon s hs), fun s k t hs hstep => (check_respects hc (hon s hs) hstep).2⟩

/-- With an accepted file the size of the jitter buffer stays within its bound in every run,
exactly when it is never doubled or doubling ends at the bound. -/
theorem jb_size_bounded (file : Bytes) (c : LocalConfig) (h : readConfig file = some (true, c)) :
    c.initialJbSize ≤ 8000 ∧ (Bounded c ↔ Settles c) :=
  ⟨readConfig_initial h, settles_of_bounded, bounded_of_settles⟩

theorem jb_size_bounded_shipped : shipped.initialJbSize ≤ 8000 ∧ (Bounded shipped ↔ Settles shipped) :=
  jb_size_bounded shippedFile shipped readConfig_shipped

theorem jb_size_exceeds :
    readConfig shippedFile = some (true, shipped) ∧
      ∃ s, (jbSystem shipped).Reachable s ∧ s.jbSize = 3840 ∧ max shipped.initialJbSize shipped.maxJbSize = 2000 := by
  refine ⟨readConfig_shipped, emptiedAfter 3840 7, ?_, rfl, by decide⟩
  exact LTS.reachable_of_exec (s := emptiedAfter 60 0) ⟨rfl, rfl, le_refl _⟩ (List.replicate 7 emptied)
    (by decide +kernel)

/-! ## The handlers' system -/

section
open Rtmpg.Agorac

variable {F : Type} {fl : Floats F} {cfg : Agorac.Config} {s t : Call F}

structure JbFrame (s t : Call F) : Prop where
  now : s.now ≤ t.now
  jbSize : t.jbSize = s.jbSize
  lastBufferingTime : t.lastBufferingTime = s.lastBufferingTime
  reBufferingCount : t.reBufferingCount = s.reBufferingCount

structure JbResized (cfg : Agorac.Config) (s t : Call F) : Prop where
  now : t.now = s.now
  below : s.jbSize < cfg.maxJbSize
  jbSize : t.jbSize = (Agorac.resizeBuffer cfg s).jbSize
  lastBufferingTime : t.lastBufferingTime = s.now
  reBufferingCount : t.reBufferingCount = s.reBufferingCount + 1

theorem highStep_jb (h : highStep fl cfg s = some t) : JbFrame s t ∨ JbResized cfg s t := by
  cases highStepped h with
  | resize _ _ _ _ hlt => exact .inr ⟨rfl, hlt, rfl, rfl, rfl⟩
  | _ => exact .inl ⟨le_refl _, rfl, rfl, rfl⟩

theorem lowStep_jb (h : lowStep fl cfg s = some t) : JbFrame s t := by
  rw [lowStep_eq h]
  exact ⟨le_refl _, rfl, rfl, rfl⟩

theorem audioStep_jb (h : audioStep fl s = some t) : JbFrame s t := by
  rw [audioStep_eq h]
  exact ⟨le_refl _, rfl, rfl, rfl⟩

theorem discStep_jb {ok : Bool} (h : discStep cfg s ok = some t) : JbFrame s t := by
  rw [discStep_eq h]
  exact ⟨le_refl _, rfl, rfl, rfl⟩

theorem finishVideo_jb (timestamp : Int) : JbFrame s (finishVideo fl s timestamp) := by
  rw [finishVideo_eq]
  exact ⟨le_refl _, rfl, rfl, rfl⟩

theorem touchFreed_jb {l : Label} (h : touchFreed s l = some t) : JbFrame s t := by
  cases freedTouched h with
  | tick => exact ⟨Nat.le_succ _, rfl, rfl, rfl⟩
  | _ => exact ⟨le_refl _, rfl, rfl, rfl⟩

theorem step_jb {l : Label} (h : (system fl cfg).step s l = some t) : JbFrame s t ∨ JbResized cfg s t := by
  cases stepped h with
  | deleted _ h => exact .inl (touchFreed_jb h)
  | tick => exact .inl ⟨Nat.le_succ _, rfl, rfl, rfl⟩
  | video => exact .inl ⟨le_refl _, rfl, rfl, rfl⟩
  | fps timestamp => exact .inl (finishVideo_jb timestamp)
  | audio => exact .inl ⟨le_refl _, rfl, rfl, rfl⟩
  | high _ h => exact highStep_jb h
  | low _ h => exact .inl (lowStep_jb h)
  | listen _ h => exact .inl (audioStep_jb h)
  | disconnect ok _ h => exact .inl (discStep_jb h)

/-- The call runs under this configuration. -/
structure Configured (c : LocalConfig) (cfg : Agorac.Config) : Prop where
  initial : cfg.initialJbSize = c.initialJbSize.toNat
  max : cfg.maxJbSize = c.maxJbSize.toNat
  time : cfg.timeToIncreaseJbSize = c.timeToIncreaseJbSize.toNat

/-- The clock of a call counts milliseconds. -/
def bufferOf (s : Call F) : Buffer :=
  ⟨s.now * 1000000, UInt16.ofNat s.jbSize, s.lastBufferingTime * 1000000, s.reBufferingCount⟩

theorem getTimeDiff_ms (a b : Nat) : getTimeDiff (a * 1000000) (b * 1000000) = (b : Int) - a := by
  unfold getTimeDiff
  have hms : (((b * 1000000 : Nat) : Int) - (a * 1000000 : Nat)) = ((b : Int) - a) * 1000000 := by
    push_cast
    ring
  rw [hms]
  exact Int.mul_tdiv_cancel _ (by omega)

theorem bufferOf_grows {c : LocalConfig} (hm : Configured c cfg) :
    grows c (bufferOf s) (s.now * 1000000) =
      decide (1 ≤ s.reBufferingCount ∧ (s.now : Int) - s.lastBufferingTime < cfg.timeToIncreaseJbSize * 1000) := by
  unfold grows bufferOf
  dsimp only
  rw [getTimeDiff_ms, hm.time]

/-- Every step is a call of `CheckAndFillInVideoJb`, for suitable readings; one that does
not resize is taken for a call on a buffer that is not empty. -/
theorem step_checks {c : LocalConfig} (hm : Configured c cfg) (hs : s.jbSize < 2 ^ 16) {l : Label}
    (h : (system fl cfg).step s l = some t) :
    t.jbSize < 2 ^ 16 ∧ ∃ k, (jbSystem c).step (bufferOf s) k = some (bufferOf t) := by
  rcases step_jb h with hf | hr
  · refine ⟨hf.jbSize ▸ hs, ⟨0, 30, 1, t.now * 1000000, t.now * 1000000, t.now * 1000000⟩, ?_⟩
    have hclock : s.now * 1000000 ≤ t.now * 1000000 := Nat.mul_le_mul_right _ hf.now
    have hfill : fills ⟨0, 30, 1, t.now * 1000000, t.now * 1000000, t.now * 1000000⟩ = false :=
      decide_eq_false fun hf => absurd hf.2 Nat.one_ne_zero
    simp only [jbSystem, checkAndFillInVideoJb, hfill, Bool.false_eq_true, false_and, if_false, bufferOf, hclock,
      le_refl, and_self, if_true, hf.jbSize, hf.lastBufferingTime, hf.reBufferingCount]
  · refine ⟨?_, ⟨0, -1, 0, s.now * 1000000, s.now * 1000000, s.now * 1000000⟩, ?_⟩
    · rw [hr.jbSize]
      unfold Agorac.resizeBuffer
      dsimp only
      split
      · exact Nat.mod_lt _ (by omega)
      · exact hs
    · have hlt : UInt16.ofNat s.jbSize < c.maxJbSize := by
        rw [UInt16.lt_iff_toNat_lt, UInt16.toNat_ofNat', Nat.mod_eq_of_lt hs, ← hm.max]
        exact hr.below
      have hfill : fills ⟨0, -1, 0, s.now * 1000000, s.now * 1000000, s.now * 1000000⟩ = true := by
        have hdiff : (0 : Int) ≤ getTimeDiff 0 (s.now * 1000000) := by
          have := getTimeDiff_ms 0 s.now
          rw [Nat.zero_mul] at this
          omega
        have hcast : (0 : Rat) ≤ (getTimeDiff 0 (s.now * 1000000) : Int) := by exact_mod_cast hdiff
        exact decide_eq_true ⟨lt_of_lt_of_le (by norm_num) hcast, rfl⟩
      have hsize : (if grows c (bufferOf s) (s.now * 1000000) = true then UInt16.ofNat s.jbSize * 2
          else UInt16.ofNat s.jbSize) = UInt16.ofNat t.jbSize := by
        rw [hr.jbSize, bufferOf_grows hm]
        unfold Agorac.resizeBuffer
        dsimp only
        simp only [decide_eq_true_eq]
        split
        · refine UInt16.toNat_inj.mp ?_
          rw [UInt16.toNat_mul, UInt16.toNat_ofNat', UInt16.toNat_ofNat', Nat.mod_eq_of_lt hs, Nat.mod_mod]
          rfl
        · rfl
      have hclock : (bufferOf s).now ≤ s.now * 1000000 := le_refl _
      simp only [jbSystem, hclock, le_refl, and_self, if_true, checkAndFillInVideoJb]
      rw [if_pos ⟨hfill, hlt⟩]
      unfold resizeBuffer
      rw [show (bufferOf s).jbSize = UInt16.ofNat s.jbSize from rfl, hsize]
      simp only [bufferOf, hr.now, hr.lastBufferingTime, hr.reBufferingCount]

theorem call_jbSize {c : LocalConfig} (hm : Configured c cfg) (hc : Settles c)
    (h : (system fl cfg).Reachable s) : s.jbSize ≤ max cfg.initialJbSize cfg.maxJbSize := by
  have hboth : s.jbSize < 2 ^ 16 ∧ (jbSystem c).Reachable (bufferOf s) := by
    refine LTS.Reachable.invariant (M := system fl cfg)
      (I := fun s => s.jbSize < 2 ^ 16 ∧ (jbSystem c).Reachable (bufferOf s)) (fun s hinit => ?_)
      (fun s l t hs hstep => ?_) h
    · rw [show s = Agorac.init fl cfg from hinit]
      have hsize : (Agorac.init fl cfg).jbSize = c.initialJbSize.toNat := hm.initial
      refine ⟨hsize ▸ c.initialJbSize.toNat_lt, _, ⟨?_, rfl, le_refl _⟩, .refl⟩
      show UInt16.ofNat (Agorac.init fl cfg).jbSize = c.initialJbSize
      rw [hsize, UInt16.ofNat_toNat]
    · obtain ⟨ht, k, hk⟩ := step_checks hm hs.1 hstep
      exact ⟨ht, reachable_tail hs.2 hk⟩
  have hle := (bounded_of_settles hc).1 _ hboth.2
  rw [show (bufferOf s).jbSize = UInt16.ofNat s.jbSize from rfl, UInt16.toNat_ofNat', Nat.mod_eq_of_lt hboth.1,
    ← hm.initial, ← hm.max] at hle
  exact hle

end

end Rtmpg.JitterBuffer
