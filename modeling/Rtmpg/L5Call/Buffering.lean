import Rtmpg.L5Call.JitterBuffer

/-!
# When the High handler buffers, and when it doubles

The comment over `CheckAndFillInVideoJb` (`libagorac/agorac.cpp:413-431`)
gives a policy: the handler waits for the buffer to fill when no frame came
for 3 seconds and the buffer is empty, and doubles the size when the buffer
before was not long ago. Here are the turns of the loop of
`VideoThreadHandlerHigh` against it, on the calls of
`Rtmpg.L5Call.JitterBuffer`. Readings of the clock are in nanoseconds.

A phase lasts to the reading that `ResizeBuffer` keeps of its end; the ghost
`phases` has the ends of all of them, the latest first. `ResizeBuffer` is
skipped once the size has reached the maximum, and then for good.

* `turn_inv`: below the maximum, the fields are those of the last phase.
* `buffering_policy`: a turn follows the policy exactly when it does not
  begin to buffer within the 3 seconds.
* `starved_fills`: the test is that of `Rtmpg.L5Call.Model`.
* `buffering_early`: the milliseconds are compared with `3*predictedFps`, which
  is 90 for 30 frames a second.
-/
namespace Rtmpg.JitterBuffer

open Rtmpg.Config

/-- The High handler, with `lastSendTime`. -/
structure Handler where
  buffer : Buffer
  lastSendTime : Nat
  -- ghost
  phases : List Nat
  deriving DecidableEq, Repr

/-- What one turn of its loop reads; `sent` is for `lastSendTime`. -/
structure Turn where
  predictedFps : Rat
  length : Nat
  now : Nat
  test : Nat
  stamp : Nat
  sent : Nat
  deriving DecidableEq, Repr

def Turn.check (k : Turn) (s : Handler) : Check := ⟨s.lastSendTime, k.predictedFps, k.length, k.now, k.test, k.stamp⟩

/-- mirrors libagorac/agorac.cpp:454-471 -/
def handlerSystem (c : LocalConfig) : LTS Handler Turn where
  init s := (jbSystem c).init s.buffer ∧ s.lastSendTime ≤ s.buffer.now ∧ s.phases = []
  step s k :=
    if k.stamp ≤ k.sent then
      ((jbSystem c).step s.buffer (k.check s)).map fun b => {
        buffer := { b with now := k.sent }
        lastSendTime := k.sent
        phases := if fills (k.check s) then k.stamp :: s.phases else s.phases }
    else none

/-- The policy, for one turn. -/
structure FollowsPolicy (c : LocalConfig) (s : Handler) (k : Turn) (t : Handler) : Prop where
  buffers : fills (k.check s) = true → k.length = 0 ∧ s.lastSendTime + 3000000000 < k.now
  doubles : Reports c s.buffer (k.check s) ∨ t.buffer.jbSize ≠ s.buffer.jbSize →
    fills (k.check s) = true ∧ t.buffer.jbSize = s.buffer.jbSize * 2 ∧
      (∃ ended earlier, s.phases = ended :: earlier ∧
        k.test < ended + c.timeToIncreaseJbSize.toNat * 1000000000) ∧
      s.buffer.jbSize < c.maxJbSize

/-- An empty buffer is left alone for 3 seconds, or for `3*predictedFps` ms. -/
def Patient (s : Handler) (k : Turn) : Prop :=
  k.length = 0 → 3 * k.predictedFps < getTimeDiff s.lastSendTime k.now → s.lastSendTime + 3000000000 < k.now

/-! ## One turn -/

/-- Below the maximum every phase so far has come to `ResizeBuffer`. -/
structure HandlerInv (c : LocalConfig) (s : Handler) : Prop where
  clock : s.lastSendTime ≤ s.buffer.now
  stamped : s.buffer.lastBufferingTime ≤ s.buffer.now
  count : s.buffer.jbSize < c.maxJbSize → s.buffer.reBufferingCount = s.phases.length
  last : s.buffer.jbSize < c.maxJbSize → ∀ ended earlier, s.phases = ended :: earlier →
    s.buffer.lastBufferingTime = ended

theorem turnStep_cases {c : LocalConfig} {s t : Handler} {k : Turn} (h : (handlerSystem c).step s k = some t) :
    k.stamp ≤ k.sent ∧ ∃ b, (jbSystem c).step s.buffer (k.check s) = some b ∧
      t = ⟨{ b with now := k.sent }, k.sent, if fills (k.check s) then k.stamp :: s.phases else s.phases⟩ := by
  unfold handlerSystem at h
  dsimp only at h
  split at h
  · next hsent =>
    obtain ⟨b, hb, rfl⟩ := Option.map_eq_some_iff.mp h
    exact ⟨hsent, b, hb, rfl⟩
  · cases h

theorem turn_inv {c : LocalConfig} {s t : Handler} {k : Turn} (hs : HandlerInv c s)
    (h : (handlerSystem c).step s k = some t) : HandlerInv c t := by
  obtain ⟨hsent, b, hb, rfl⟩ := turnStep_cases h
  obtain ⟨⟨hnow, htest, hstamp⟩, ⟨hfill, hlt, rfl⟩ | ⟨hno, rfl⟩⟩ := step_cases hb
  · refine ⟨le_refl k.sent, hsent, fun _ => ?_, fun _ ended earlier he => ?_⟩
    · show s.buffer.reBufferingCount + 1 = _
      rw [hs.count hlt, if_pos hfill]
      rfl
    · rw [if_pos hfill] at he
      cases he
      rfl
  · have hclock : s.buffer.lastBufferingTime ≤ k.sent := by
      have := hs.stamped
      have hnow' : s.buffer.now ≤ k.now := hnow
      have htest' : k.now ≤ k.test := htest
      have hstamp' : k.test ≤ k.stamp := hstamp
      omega
    -- nothing was resized: no phase, or a size that is no longer below the maximum
    have hsame : s.buffer.jbSize < c.maxJbSize → ¬ fills (k.check s) = true := fun hlt hfill => hno ⟨hfill, hlt⟩
    refine ⟨le_refl k.sent, hclock, fun hlt => ?_, fun hlt ended earlier he => ?_⟩
    · rw [if_neg (hsame hlt)]
      exact hs.count hlt
    · rw [if_neg (hsame hlt)] at he
      exact hs.last hlt ended earlier he

/-- The test against the limit, in nanoseconds. -/
theorem grows_limit {c : LocalConfig} {s : Buffer} {test : Nat} (hclock : s.lastBufferingTime ≤ test)
    (h : grows c s test = true) :
    1 ≤ s.reBufferingCount ∧ test < s.lastBufferingTime + c.timeToIncreaseJbSize.toNat * 1000000000 := by
  obtain ⟨hcount, hlt⟩ := of_decide_eq_true h
  refine ⟨hcount, ?_⟩
  unfold getTimeDiff at hlt
  rw [Int.tdiv_eq_ediv_of_nonneg (by omega)] at hlt
  omega

theorem turn_doubles {c : LocalConfig} {s t : Handler} {k : Turn} (hs : HandlerInv c s)
    (h : (handlerSystem c).step s k = some t)
    (hdouble : Reports c s.buffer (k.check s) ∨ t.buffer.jbSize ≠ s.buffer.jbSize) :
    fills (k.check s) = true ∧ t.buffer.jbSize = s.buffer.jbSize * 2 ∧
      (∃ ended earlier, s.phases = ended :: earlier ∧
        k.test < ended + c.timeToIncreaseJbSize.toNat * 1000000000) ∧
      s.buffer.jbSize < c.maxJbSize := by
  obtain ⟨hsent, b, hb, rfl⟩ := turnStep_cases h
  obtain ⟨⟨hnow, htest, hstamp⟩, ⟨hfill, hlt, rfl⟩ | ⟨hno, rfl⟩⟩ := step_cases hb
  · have hgrows : grows c s.buffer k.test = true := by
      rcases hdouble with hr | hne
      · exact hr.2.2
      · by_contra hg
        exact hne (if_neg hg)
    have hclock : s.buffer.lastBufferingTime ≤ k.test := by
      have := hs.stamped
      have hnow' : s.buffer.now ≤ k.now := hnow
      have htest' : k.now ≤ k.test := htest
      omega
    obtain ⟨hcount, hlimit⟩ := grows_limit hclock hgrows
    refine ⟨hfill, if_pos hgrows, ?_, hlt⟩
    rw [hs.count hlt] at hcount
    cases hp : s.phases with
    | nil =>
      rw [hp] at hcount
      exact absurd hcount (by decide)
    | cons ended earlier =>
      rw [hs.last hlt ended earlier hp] at hlimit
      exact ⟨ended, earlier, rfl, hlimit⟩
  · rcases hdouble with hr | hne
    · exact absurd ⟨hr.1, hr.2.1⟩ hno
    · exact absurd rfl hne

/-! ## Every run -/

theorem handler_inv {c : LocalConfig} {s : Handler} (h : (handlerSystem c).Reachable s) : HandlerInv c s := by
  refine LTS.Reachable.invariant (fun s hinit => ?_) (fun s k t hs hstep => turn_inv hs hstep) h
  obtain ⟨⟨-, hcount, hstamped⟩, hclock, hphases⟩ := hinit
  refine ⟨hclock, hstamped, fun _ => ?_, fun _ ended earlier he => ?_⟩
  · rw [hcount, hphases]
    rfl
  · rw [hphases] at he
    cases he

/-- A turn of the High handler follows the buffering policy exactly when it is patient, from any
reachable state. -/
theorem buffering_policy (c : LocalConfig) (s : Handler) (k : Turn) (t : Handler)
    (h : (handlerSystem c).Reachable s) (hstep : (handlerSystem c).step s k = some t) :
    FollowsPolicy c s k t ↔ Patient s k := by
  constructor
  · intro hpolicy hlength hdiff
    exact (hpolicy.buffers (decide_eq_true ⟨hdiff, hlength⟩)).2
  · intro hpatient
    refine ⟨fun hfill => ?_, turn_doubles (handler_inv h) hstep⟩
    obtain ⟨hdiff, hlength⟩ := of_decide_eq_true hfill
    exact ⟨hlength, hpatient hlength hdiff⟩

/-- The buffer is still empty 4 seconds after the handler has started. -/
def fourSeconds : Turn := ⟨30, 0, 4000000000, 6000000000, 6000000000, 6000000000⟩

def started : Handler := ⟨⟨0, 120, 0, 0⟩, 0, []⟩

theorem buffering_policy_fourSeconds :
    FollowsPolicy defaults started fourSeconds ⟨⟨6000000000, 120, 6000000000, 1⟩, 6000000000, [6000000000]⟩ ↔
      Patient started fourSeconds :=
  buffering_policy defaults started fourSeconds _ ⟨started, ⟨⟨rfl, rfl, le_refl 0⟩, le_refl 0, rfl⟩, .refl⟩
    (by decide +kernel)

/-- It is empty after one second. -/
def oneSecond : Turn := ⟨30, 0, 1000000000, 3000000000, 3000000000, 3000000000⟩

theorem buffering_early :
    ∃ t, (handlerSystem defaults).Reachable started ∧ (handlerSystem defaults).step started oneSecond = some t ∧
      fills (oneSecond.check started) = true ∧ ¬ FollowsPolicy defaults started oneSecond t := by
  have hfill : fills (oneSecond.check started) = true := by decide +kernel
  refine ⟨⟨⟨3000000000, 120, 3000000000, 1⟩, 3000000000, [3000000000]⟩,
    ⟨started, ⟨⟨rfl, rfl, le_refl 0⟩, le_refl 0, rfl⟩, .refl⟩, by decide +kernel, hfill, fun hpolicy => ?_⟩
  exact absurd (hpolicy.buffers hfill).2 (by decide)

/-! ## The High handler of a call -/

/-- With the clock of a call in milliseconds. -/
theorem starved_fills (s : Agorac.Call Rat) (test stamp : Nat) :
    Agorac.starved Agorac.rationals s =
      fills ⟨s.lastSendTime * 1000000, s.predictedFps, s.videoJB.length, s.now * 1000000, test, stamp⟩ := by
  unfold Agorac.starved fills
  dsimp only
  rw [getTimeDiff_ms]
  cases s.videoJB <;> simp [Agorac.rationals]

end Rtmpg.JitterBuffer
