import Mathlib.Algebra.Order.Field.Rat
import Rtmpg.L5Call.Frame
import Rtmpg.L5Call.LowVideo
import Rtmpg.L5Call.RateControl

/-!
# The quota of the low stream

`doSendLowVideo` encodes a frame when `lowVideoFrameCount` times `predictedFps/dfps` is
below `highVideoFrameCount` (`libagorac/agorac.cpp:273-281`). The two counts
have 8 bits. The High handler and `doSendLowVideo` hand a frame to the SDK
first and count it behind that, with a `++` on a plain byte: a load and a
store. `agora_send_video`, on a thread of its own, starts the counts over once
a second, with a new frame only. So an event is a send, a load, a store, a
reset, a test of `doSendLowVideo` or a new `predictedFps`; any order of those
of different threads is a run. A test reads what it compares in one event. The
ratio is exact and positive.

A `Counter` has the true number beside the byte: the frames handed to the SDK
since the last store of a zero. `Room` is what keeps the two together: no byte
is at 255 when it is counted up, no byte is zeroed between the sending of a
frame and the end of its `++`, and no test falls between these two for a high
frame unless that frame makes no difference.

* `decides_iff_room`: with room so far, a decision follows the true numbers
  exactly when the test has room too.
* `quota_exact`: every run, and what the first event without room does.
* `callStep_counts`: a step of a whole call, where a send and its `++` are
  one step, is a run of these events.
* `quota_wraps`: a call that has sent 256 frames within the second.
-/
namespace Rtmpg.Quota

open Rtmpg.Agorac Rtmpg.LowVideo

/-! ## One counter -/

/-- Where the thread that counts is: before its `++`, or within it. -/
inductive Phase where
  | idle
  | sent
  | loaded (value : Nat)
  deriving DecidableEq

/-- An 8-bit counter. `sent` is a ghost: the true number. -/
structure Counter where
  value : Nat
  phase : Phase
  sent : Nat
  deriving DecidableEq

inductive Op where
  | send
  | load
  | store
  | reset
  deriving DecidableEq

/-- The store of a zero. -/
def Counter.zeroed (c : Counter) : Counter := { c with value := 0, sent := 0 }

/-- The sender's three steps, and the reset of another thread.
mirrors libagorac/agorac.cpp:297-299,389-390,488-495 -/
def counter : LTS Counter Op where
  init c := c = ⟨0, .idle, 0⟩
  step c
    | .send => if c.phase = .idle then some { c with phase := .sent, sent := c.sent + 1 } else none
    | .load => if c.phase = .sent then some { c with phase := .loaded c.value } else none
    | .store =>
      match c.phase with
      | .loaded value => some { c with value := (value + 1) % 256, phase := .idle }
      | _ => none
    | .reset => some c.zeroed

def Counter.Room (c : Counter) : Op → Prop
  | .store => c.value < 255
  | .reset => c.phase = .idle
  | _ => True

/-- A frame that is sent and not counted. -/
def Counter.pending (c : Counter) : Nat := if c.phase = .idle then 0 else 1

structure Counter.Counted (c : Counter) : Prop where
  value : c.value + c.pending = c.sent
  lt : c.value < 256
  loaded : ∀ value, c.phase = .loaded value → value = c.value

variable {c d : Counter}

theorem counter_counted {op : Op} (hc : c.Counted) (hok : c.Room op) (h : counter.step c op = some d) :
    d.Counted := by
  obtain ⟨hv, hlt, hld⟩ := hc
  unfold counter at h
  unfold Counter.pending at hv
  cases op with
  | send =>
    dsimp only at h
    split at h <;> cases h
    next hidle =>
      rw [if_pos hidle] at hv
      exact ⟨congrArg (· + 1) hv, hlt, nofun⟩
  | load =>
    dsimp only at h
    split at h <;> cases h
    next hsent =>
      refine ⟨?_, hlt, fun value hphase => ?_⟩
      · rw [hsent] at hv
        exact hv
      · cases hphase
        rfl
  | store =>
    dsimp only at h
    split at h <;> cases h
    next value hphase =>
      have hroom : c.value < 255 := hok
      rw [hphase, if_neg Phase.noConfusion] at hv
      rw [hld value hphase, Nat.mod_eq_of_lt (by omega)]
      exact ⟨hv, by dsimp only; omega, nofun⟩
  | reset =>
    cases h
    have hidle : c.phase = .idle := hok
    refine ⟨(Nat.zero_add _).trans (if_pos hidle), Nat.zero_lt_succ _, fun value hphase => ?_⟩
    cases hidle.symm.trans hphase

/-- The byte, once the frame that is sent is counted. -/
def Counter.final (c : Counter) : Nat :=
  match c.phase with
  | .idle => c.value
  | .sent => (c.value + 1) % 256
  | .loaded value => (value + 1) % 256

def Counter.settled (c : Counter) : Counter := ⟨c.final, .idle, c.sent⟩

theorem counter_settles (c : Counter) : counter.Run (fun _ op => op = .load ∨ op = .store) c c.settled := by
  obtain ⟨value, phase, sent⟩ := c
  cases phase with
  | idle => exact .refl
  | sent => exact .tail .store (.tail .load .refl (.inl rfl) rfl) (.inr rfl) rfl
  | loaded old => exact .tail .store .refl (.inr rfl) rfl

/-- A byte that is zeroed too early does not end at zero. -/
theorem reset_final (hc : c.Counted) (hno : ¬ c.Room .reset) (hlt : c.value < 255) :
    0 < c.zeroed.final := by
  unfold Counter.final Counter.zeroed
  dsimp only
  split
  · next hidle => exact absurd hidle hno
  · exact Nat.one_pos
  · next value hphase =>
    rw [hc.loaded value hphase, Nat.mod_eq_of_lt (by omega)]
    exact Nat.succ_pos _

/-! ## Both, and the test -/

/-- mirrors libagorac/helpers/context.h:44,76-77 -/
structure Counts where
  predictedFps : Rat
  highVideoFrameCount : Counter
  lowVideoFrameCount : Counter
  -- `doSendLowVideo` is between its test and the end of `lowVideoFrameCount++`
  encoding : Bool
  deriving DecidableEq

inductive Event where
  | high (op : Op)
  | low (op : Op)
  | test (isKeyFrame : Bool)
  | predict (predictedFps : Rat)

/-- `encodeNextFrame==true || is_key_frame`
mirrors libagorac/agorac.cpp:273-281 -/
def encodes (dfps : Nat) (s : Counts) (isKeyFrame : Bool) : Bool :=
  decide ((s.lowVideoFrameCount.value : Rat) * (s.predictedFps / dfps) < s.highVideoFrameCount.value) || isKeyFrame

def quotaSystem (dfps : Nat) : LTS Counts Event where
  init s := 0 < s.predictedFps ∧ counter.init s.highVideoFrameCount ∧ counter.init s.lowVideoFrameCount ∧
    s.encoding = false
  step s
    | .high op => (counter.step s.highVideoFrameCount op).map fun c => { s with highVideoFrameCount := c }
    | .low op =>
      if op = .reset ∨ s.encoding = true then
        (counter.step s.lowVideoFrameCount op).map fun c =>
          { s with lowVideoFrameCount := c, encoding := s.encoding && op != .store }
      else none
    | .test isKeyFrame => if s.encoding then none else some { s with encoding := encodes dfps s isKeyFrame }
    -- agorac.cpp:350-357
    | .predict predictedFps => if 0 < predictedFps then some { s with predictedFps := predictedFps } else none

/-- `L * ratio < H` -/
def QuotaLeft (dfps : Nat) (s : Counts) : Prop :=
  (s.lowVideoFrameCount.sent : Rat) * (s.predictedFps / dfps) < s.highVideoFrameCount.sent

/-- A context with these counters. -/
structure At (s : Counts) (x : Low Rat) : Prop where
  predictedFps : x.predictedFps = s.predictedFps
  highVideoFrameCount : x.highVideoFrameCount = s.highVideoFrameCount.value
  lowVideoFrameCount : x.lowVideoFrameCount = s.lowVideoFrameCount.value

/-- In this state `doSendLowVideo` sends a key frame, and another one if the quota is not
used up. -/
def Decides (dfps : Nat) (s : Counts) (isKeyFrame : Bool) : Prop :=
  ∀ x y w, At s x → w.work.isKeyFrame = isKeyFrame → doSendLowVideo rationals dfps x w = some y →
    ((∃ image, y.sent = x.sent ++ [image] ∧ image.work = w.work) ↔ isKeyFrame = true ∨ QuotaLeft dfps s) ∧
    (y.sent = x.sent ↔ ¬ (isKeyFrame = true ∨ QuotaLeft dfps s))

/-- One high frame more makes the difference. -/
def OneMore (dfps : Nat) (s : Counts) : Prop :=
  (s.highVideoFrameCount.value : Rat) ≤ s.lowVideoFrameCount.value * (s.predictedFps / dfps) ∧
    s.lowVideoFrameCount.value * (s.predictedFps / dfps) < s.highVideoFrameCount.value + 1

/-- The event keeps the counters true, or decides by true ones. -/
def Room (dfps : Nat) (s : Counts) : Event → Prop
  | .high op => s.highVideoFrameCount.Room op
  | .low op => s.lowVideoFrameCount.Room op
  | .test isKeyFrame => isKeyFrame = true ∨ s.highVideoFrameCount.phase = .idle ∨ ¬ OneMore dfps s
  | .predict _ => True

/-! ## One call of `doSendLowVideo` -/

theorem wanted_encodes {dfps : Nat} {s : Counts} {x : Low Rat} (hx : At s x) (isKeyFrame : Bool) :
    wanted rationals dfps x isKeyFrame = encodes dfps s isKeyFrame := by
  unfold wanted encodes
  rw [hx.predictedFps, hx.highVideoFrameCount, hx.lowVideoFrameCount]
  rfl

/-- An image is sent for a wanted frame only. -/
theorem doSendLowVideo_sent {dfps : Nat} {x y : Low Rat} {w : LowInput}
    (h : doSendLowVideo rationals dfps x w = some y) :
    ((∃ image, y.sent = x.sent ++ [image] ∧ image.work = w.work) ↔
        wanted rationals dfps x w.work.isKeyFrame = true) ∧
      (y.sent = x.sent ↔ wanted rationals dfps x w.work.isKeyFrame = false) := by
  rcases doSendLowVideo_cases h with ⟨hskip, rfl⟩ | ⟨hwant, encoded, e, out, size, -, hsent, -, -⟩
  · simp [hskip]
  · simp [hwant, hsent]

theorem zeroed_length : (List.replicate maxFrameSize (0 : UInt8)).length = maxFrameSize := List.length_replicate

/-- A frame that the encoder takes. -/
def frameOf (isKeyFrame : Bool) : LowInput where
  work := ⟨0, [0, 0, 0, 1, 0x41], isKeyFrame, false, 0⟩
  decode := .receiveFails
  encode := ⟨false, true, 0, -1, ⟨0, []⟩, []⟩
  outBuffer := List.replicate maxFrameSize 0
  outBuffer_length := zeroed_length

def lowAt (s : Counts) : Low Rat :=
  ⟨s.predictedFps, s.highVideoFrameCount.value, s.lowVideoFrameCount.value, ⟨0, 0⟩, openEncoder, [], 0⟩

theorem doSendLowVideo_frameOf (dfps : Nat) (s : Counts) (isKeyFrame : Bool) :
    ∃ y, doSendLowVideo rationals dfps (lowAt s) (frameOf isKeyFrame) = some y := by
  have henc : encode openEncoder ⟨0, 0⟩ (frameOf isKeyFrame).outBuffer 0 (frameOf isKeyFrame).encode =
      some (false, ⟨true, 0, 0, false⟩, (frameOf isKeyFrame).outBuffer, 0) := rfl
  unfold doSendLowVideo
  dsimp only
  split
  · exact ⟨_, congrArg (Option.map _) henc⟩
  · exact ⟨_, rfl⟩

theorem decides_iff (dfps : Nat) (s : Counts) (isKeyFrame : Bool) :
    Decides dfps s isKeyFrame ↔ (encodes dfps s isKeyFrame = true ↔ isKeyFrame = true ∨ QuotaLeft dfps s) := by
  constructor
  · intro hs
    obtain ⟨y, hy⟩ := doSendLowVideo_frameOf dfps s isKeyFrame
    have hat : At s (lowAt s) := ⟨rfl, rfl, rfl⟩
    have hsent := (hs _ y _ hat rfl hy).1
    rwa [(doSendLowVideo_sent hy).1, wanted_encodes hat] at hsent
  · intro hs x y w hat hkey hy
    obtain ⟨hsent, hskip⟩ := doSendLowVideo_sent hy
    rw [wanted_encodes hat, hkey] at hsent hskip
    refine ⟨hsent.trans hs, ?_⟩
    rw [hskip, ← hs, Bool.not_eq_true]

/-- Of a frame that is no key frame. -/
theorem decides_delta (dfps : Nat) (s : Counts) : Decides dfps s false ↔
    ((s.lowVideoFrameCount.value : Rat) * (s.predictedFps / dfps) < s.highVideoFrameCount.value ↔
      QuotaLeft dfps s) := by
  rw [decides_iff, encodes, Bool.or_false, decide_eq_true_eq]
  simp only [Bool.false_eq_true, false_or]

/-! ## One event -/

structure Counted (s : Counts) : Prop where
  predictedFps : 0 < s.predictedFps
  high : s.highVideoFrameCount.Counted
  low : s.lowVideoFrameCount.Counted
  idle : s.encoding = false → s.lowVideoFrameCount.phase = .idle

section
variable {dfps : Nat} {s t : Counts}

theorem low_idle {op : Op} (hidle : s.encoding = false → s.lowVideoFrameCount.phase = .idle)
    (hmay : op = .reset ∨ s.encoding = true) (hc : counter.step s.lowVideoFrameCount op = some c)
    (hdone : (s.encoding && op != .store) = false) : c.phase = .idle := by
  unfold counter at hc
  cases op with
  | send | load =>
    rw [hmay.resolve_left Op.noConfusion] at hdone
    cases hdone
  | store =>
    dsimp only at hc
    split at hc <;> cases hc
    rfl
  | reset =>
    cases hc
    exact hidle (by simpa using hdone)

theorem step_counted {l : Event} (hs : Counted s) (hok : Room dfps s l)
    (h : (quotaSystem dfps).step s l = some t) : Counted t := by
  obtain ⟨hp, hhigh, hlow, hidle⟩ := hs
  unfold quotaSystem at h
  cases l with
  | high op =>
    obtain ⟨c, hc, rfl⟩ := Option.map_eq_some_iff.mp h
    exact ⟨hp, counter_counted hhigh hok hc, hlow, hidle⟩
  | low op =>
    dsimp only at h
    split at h
    · next hmay =>
      obtain ⟨c, hc, rfl⟩ := Option.map_eq_some_iff.mp h
      refine ⟨hp, hhigh, counter_counted hlow hok hc, fun hdone => ?_⟩
      exact low_idle hidle hmay hc hdone
    · cases h
  | test isKeyFrame =>
    dsimp only at h
    split at h <;> cases h
    next hfree => exact ⟨hp, hhigh, hlow, fun _ => hidle (Bool.eq_false_of_not_eq_true hfree)⟩
  | predict predictedFps =>
    dsimp only at h
    split at h <;> cases h
    next hpos => exact ⟨hpos, hhigh, hlow, hidle⟩

theorem decides_iff_room (hs : Counted s) (hfree : s.encoding = false) (isKeyFrame : Bool) :
    Decides dfps s isKeyFrame ↔ Room dfps s (.test isKeyFrame) := by
  cases isKeyFrame with
  | true =>
    rw [decides_iff, encodes, Bool.or_true]
    exact ⟨fun _ => .inl rfl, fun _ => ⟨fun _ => .inl rfl, fun _ => rfl⟩⟩
  | false =>
    -- nothing of the low stream is pending at a test
    have hlow : s.lowVideoFrameCount.value = s.lowVideoFrameCount.sent := by
      have hv := hs.low.value
      unfold Counter.pending at hv
      rwa [if_pos (hs.idle hfree)] at hv
    have hhigh := hs.high.value
    unfold Counter.pending at hhigh
    rw [decides_delta, QuotaLeft, ← hlow, ← hhigh]
    unfold Room OneMore
    split
    · next hidle => exact ⟨fun _ => .inr (.inl hidle), fun _ => Iff.rfl⟩
    · next hbusy =>
      rw [Nat.cast_add, Nat.cast_one]
      constructor
      · intro hsame
        exact .inr (.inr fun hmore => absurd (hsame.mpr hmore.2) (not_lt.mpr hmore.1))
      · intro hroom
        have hmore := (hroom.resolve_left Bool.false_ne_true).resolve_left hbusy
        refine ⟨fun hlt => hlt.trans (lt_add_one _), fun hlt => ?_⟩
        exact lt_of_not_ge fun hge => hmore ⟨hge, hlt⟩

/-! ## Every run -/

theorem run_counted {s₀ : Counts} (h₀ : (quotaSystem dfps).init s₀)
    (h : (quotaSystem dfps).Run (Room dfps) s₀ s) : Counted s := by
  obtain ⟨hp, hhigh, hlow, -⟩ := h₀
  have hzero : Counter.Counted ⟨0, .idle, 0⟩ := ⟨rfl, Nat.zero_lt_succ _, nofun⟩
  refine h.invariant (fun _ _ _ hok hs hstep => step_counted hs hok hstep) ⟨hp, ?_, ?_, fun _ => ?_⟩
  · rw [show s₀.highVideoFrameCount = ⟨0, .idle, 0⟩ from hhigh]
    exact hzero
  · rw [show s₀.lowVideoFrameCount = ⟨0, .idle, 0⟩ from hlow]
    exact hzero
  · rw [show s₀.lowVideoFrameCount = ⟨0, .idle, 0⟩ from hlow]

/-- A full byte that is counted up is zero. -/
theorem store_full (hc : c.Counted) (hno : ¬ c.Room .store) (h : counter.step c .store = some d) : d.value = 0 := by
  have hfull : ¬ c.value < 255 := hno
  have hlt := hc.lt
  unfold counter at h
  dsimp only at h
  split at h <;> cases h
  next value hphase =>
    rw [hc.loaded value hphase]
    show (c.value + 1) % 256 = 0
    omega

/-- The 256th frame of the high stream starts its counter over: no other frame is encoded. -/
theorem high_store_wrong (hs : Counted s) (hno : ¬ Room dfps s (.high .store))
    (h : (quotaSystem dfps).step s (.high .store) = some t) (hleft : QuotaLeft dfps t) : ¬ Decides dfps t false := by
  obtain ⟨d, hd, rfl⟩ := Option.map_eq_some_iff.mp h
  have hzero := store_full hs.high hno hd
  rw [decides_delta]
  intro hright
  have hlt := hright.mpr hleft
  dsimp only at hlt
  have hpos : 0 ≤ (s.lowVideoFrameCount.value : Rat) * (s.predictedFps / dfps) :=
    mul_nonneg (Nat.cast_nonneg _) (div_nonneg hs.predictedFps.le (Nat.cast_nonneg _))
  rw [hzero, Nat.cast_zero] at hlt
  exact absurd hlt (not_lt.mpr hpos)

/-- The 256th frame of the low stream starts its counter over: every frame is encoded. -/
theorem low_store_wrong (hs : Counted s) (hno : ¬ Room dfps s (.low .store))
    (h : (quotaSystem dfps).step s (.low .store) = some t) (hhigh : 0 < s.highVideoFrameCount.value)
    (hleft : ¬ QuotaLeft dfps t) : ¬ Decides dfps t false := by
  unfold quotaSystem at h
  dsimp only at h
  split at h
  · obtain ⟨d, hd, rfl⟩ := Option.map_eq_some_iff.mp h
    have hzero := store_full hs.low hno hd
    rw [decides_delta]
    refine fun hright => hleft (hright.mp ?_)
    dsimp only
    rw [hzero, Nat.cast_zero, zero_mul]
    exact_mod_cast hhigh
  · cases h

/-! ## A reset between the sending and the counting -/

theorem run_high (dfps : Nat) {ok : Counter → Op → Prop} (s : Counts) (h : counter.Run ok c d) :
    (quotaSystem dfps).Run (fun _ _ => True) { s with highVideoFrameCount := c }
      { s with highVideoFrameCount := d } := by
  induction h with
  | refl => exact .refl
  | tail op _ _ hstep ih => exact .tail (.high op) ih trivial (congrArg (Option.map _) hstep)

/-- `doSendLowVideo` counts what it has sent, and returns. -/
theorem low_finish (dfps : Nat) (s : Counts) (c : Counter) (hbusy : c.phase ≠ .idle) :
    (quotaSystem dfps).Run (fun _ _ => True) { s with lowVideoFrameCount := c, encoding := true }
      { s with lowVideoFrameCount := c.settled, encoding := false } := by
  obtain ⟨value, phase, sent⟩ := c
  cases phase with
  | idle => exact absurd rfl hbusy
  | sent => exact .tail (.low .store) (.tail (.low .load) .refl trivial rfl) trivial rfl
  | loaded old => exact .tail (.low .store) .refl trivial rfl

/-- `doSendLowVideo` returns. -/
theorem low_returns (dfps : Nat) (s : Counts) (hidle : s.encoding = false → s.lowVideoFrameCount.phase = .idle) :
    ∃ c : Counter, c.phase = .idle ∧
      (quotaSystem dfps).Run (fun _ _ => True) s { s with lowVideoFrameCount := c, encoding := false } := by
  obtain ⟨predictedFps, high, low, encoding⟩ := s
  cases encoding with
  | false => exact ⟨low, hidle rfl, .refl⟩
  | true =>
    by_cases hphase : low.phase = .idle
    · obtain ⟨value, phase, sent⟩ := low
      cases hphase
      exact ⟨_, rfl, .trans (.tail (.low .send) .refl trivial rfl)
        (low_finish dfps ⟨predictedFps, high, ⟨value, .sent, sent + 1⟩, true⟩ _ nofun)⟩
    · exact ⟨_, rfl, low_finish dfps ⟨predictedFps, high, low, true⟩ low hphase⟩

/-- A high frame that was sent before the reset is counted behind it: the low stream may get
a frame for none of the high one. -/
theorem high_reset_wrong (hs : Counted s) (hno : ¬ Room dfps s (.high .reset))
    (hlt : s.highVideoFrameCount.value < 255) (h : (quotaSystem dfps).step s (.high .reset) = some t) :
    ∃ u, (quotaSystem dfps).Run (fun _ _ => True) t u ∧ u.encoding = false ∧ ¬ Decides dfps u false := by
  have hfinal := reset_final hs.high hno hlt
  cases h
  have hcount := run_high dfps s (counter_settles s.highVideoFrameCount.zeroed)
  obtain ⟨c, -, hlow⟩ :=
    low_returns dfps { s with highVideoFrameCount := s.highVideoFrameCount.zeroed.settled } hs.idle
  refine ⟨⟨s.predictedFps, s.highVideoFrameCount.zeroed.settled, c.zeroed, false⟩,
    .tail (.low .reset) (hcount.trans hlow) trivial rfl, rfl, ?_⟩
  have hencodes : ((0 : Nat) : Rat) * (s.predictedFps / dfps) < s.highVideoFrameCount.zeroed.final := by
    rw [Nat.cast_zero, zero_mul]
    exact_mod_cast hfinal
  rw [decides_delta]
  intro hright
  have hleft : ((0 : Nat) : Rat) * (s.predictedFps / dfps) < (0 : Nat) := hright.mp hencodes
  rw [Nat.cast_zero, zero_mul] at hleft
  exact lt_irrefl _ hleft

/-- A low frame that was sent before the reset is counted behind it: the first frame may be skipped. -/
theorem low_reset_wrong (hs : Counted s) (hd : 0 < dfps) (hno : ¬ Room dfps s (.low .reset))
    (hlt : s.lowVideoFrameCount.value < 255) (h : (quotaSystem dfps).step s (.low .reset) = some t) :
    ∃ u, (quotaSystem dfps).Run (fun _ _ => True) t u ∧ u.encoding = false ∧ ¬ Decides dfps u false := by
  obtain ⟨predictedFps, high, low, encoding⟩ := s
  have henc : encoding = true := by
    cases encoding with
    | true => rfl
    | false => exact absurd (hs.idle rfl) hno
  subst henc
  have hfinal := reset_final hs.low hno hlt
  cases h
  -- the High handler is done with its frame, and sends the first one behind the reset
  have hlow := low_finish dfps ⟨predictedFps, high, low, true⟩ low.zeroed hno
  have hcount := run_high dfps ⟨predictedFps, high, low.zeroed.settled, false⟩ (counter_settles high)
  have hfirst : counter.Run (fun _ _ => True) high.settled ⟨1, .idle, 1⟩ :=
    .tail .store (.tail .load (.tail .send (.tail .reset .refl trivial rfl) trivial rfl) trivial rfl) trivial rfl
  refine ⟨⟨dfps, ⟨1, .idle, 1⟩, low.zeroed.settled, false⟩,
    .tail (.predict dfps) ((hlow.trans hcount).trans (run_high dfps _ hfirst)) trivial
      (if_pos (Nat.cast_pos.mpr hd)), rfl, ?_⟩
  have hleft : ((0 : Nat) : Rat) * (dfps / dfps) < (1 : Nat) := by
    rw [Nat.cast_zero, zero_mul]
    exact_mod_cast Nat.one_pos
  rw [decides_delta]
  intro hright
  have hencodes : (low.zeroed.final : Rat) * (dfps / dfps) < (1 : Nat) := hright.mpr hleft
  rw [div_self (Nat.cast_ne_zero.mpr hd.ne'), mul_one] at hencodes
  have hone : low.zeroed.final < 1 := by exact_mod_cast hencodes
  exact absurd hone (Nat.not_lt.mpr hfinal)

end

def atInit : Counts := ⟨30, ⟨0, .idle, 0⟩, ⟨0, .idle, 0⟩, false⟩

/-- Between two steps of a call nothing is pending. -/
def countsOf (c : Call Rat) (sent : Nat × Nat) : Counts :=
  ⟨c.predictedFps, ⟨c.highVideoFrameCount, .idle, sent.1⟩, ⟨c.lowVideoFrameCount, .idle, sent.2⟩, false⟩

theorem lowWanted_encodes (cfg : Config) (c : Call Rat) (work : Work) (sent : Nat × Nat) :
    lowWanted rationals cfg c work = encodes cfg.dfps (countsOf c sent) work.isKeyFrame := rfl

/-- The true numbers of a call. -/
def watch (cfg : Config) (c : Call Rat) (l : Label) (sent : Nat × Nat) : Nat × Nat :=
  if c.freed then sent
  else
    match l with
    | .fps => if 1000 ≤ (c.now : Int) - c.lastFpsPrintTime then (0, 0) else sent
    | .high =>
      match c.high with
      | .send work _ => if work.isFinished then sent else (sent.1 + 1, sent.2)
      | _ => sent
    | .low =>
      match c.low with
      | .send work => if lowWanted rationals cfg c work then (sent.1, sent.2 + 1) else sent
      | _ => sent
    | _ => sent

/-- The range of `predictedFps`. -/
def InRange (c : Call Rat) : Prop := 0 < c.predictedFps ∧ c.predictedFps ≤ 255

theorem finishVideo_counts {c : Call Rat} (timestamp : Int) (hp : InRange c) :
    InRange (finishVideo rationals c timestamp) ∧
      (finishVideo rationals c timestamp).highVideoFrameCount =
        (if 1000 ≤ (c.now : Int) - c.lastFpsPrintTime then 0 else c.highVideoFrameCount) ∧
      (finishVideo rationals c timestamp).lowVideoFrameCount =
        if 1000 ≤ (c.now : Int) - c.lastFpsPrintTime then 0 else c.lowVideoFrameCount := by
  have hrange : InRange (updatePredictedFps rationals c timestamp) :=
    updatePredictedFps_range timestamp hp.1 hp.2
  obtain ⟨hnow, hprint, hhigh, hlow⟩ : (updatePredictedFps rationals c timestamp).now = c.now ∧
      (updatePredictedFps rationals c timestamp).lastFpsPrintTime = c.lastFpsPrintTime ∧
      (updatePredictedFps rationals c timestamp).highVideoFrameCount = c.highVideoFrameCount ∧
      (updatePredictedFps rationals c timestamp).lowVideoFrameCount = c.lowVideoFrameCount := by
    unfold updatePredictedFps
    dsimp only
    split <;> exact ⟨rfl, rfl, rfl, rfl⟩
  unfold finishVideo
  dsimp only
  rw [hnow, hprint]
  split
  · exact ⟨hrange, rfl, rfl⟩
  · exact ⟨hrange, hhigh, hlow⟩

section
variable {cfg : Config} {c c' : Call Rat}

/-- A step that leaves the counters alone, apart from a prediction. -/
theorem run_same {dfps : Nat} (sent : Nat × Nat) (hp : InRange c')
    (hhigh : c'.highVideoFrameCount = c.highVideoFrameCount) (hlow : c'.lowVideoFrameCount = c.lowVideoFrameCount) :
    (quotaSystem dfps).Run (fun _ _ => True) (countsOf c sent) (countsOf c' sent) := by
  refine .tail (.predict c'.predictedFps) .refl trivial ?_
  unfold countsOf quotaSystem
  rw [hhigh, hlow]
  exact if_pos hp.1

theorem watch_other {l : Label} (sent : Nat × Nat) (hl : l ≠ .fps ∧ l ≠ .high ∧ l ≠ .low) :
    watch cfg c l sent = sent := by
  unfold watch
  cases l with
  | fps => exact absurd rfl hl.1
  | high => exact absurd rfl hl.2.1
  | low => exact absurd rfl hl.2.2
  | _ => exact ite_self _

/-- The steps that the history passes over. -/
theorem run_other {l : Label} (sent : Nat × Nat) (hl : l ≠ .fps ∧ l ≠ .high ∧ l ≠ .low) (hp : InRange c')
    (hhigh : c'.highVideoFrameCount = c.highVideoFrameCount) (hlow : c'.lowVideoFrameCount = c.lowVideoFrameCount) :
    InRange c' ∧ (quotaSystem cfg.dfps).Run (fun _ _ => True) (countsOf c sent) (countsOf c' (watch cfg c l sent)) := by
  rw [watch_other sent hl]
  exact ⟨hp, run_same sent hp hhigh hlow⟩

theorem highStep_counts (hf : c.freed = false) (h : highStep rationals cfg c = some c') (sent : Nat × Nat) :
    c'.highVideoFrameCount = c.highVideoFrameCount ∧ watch cfg c .high sent = sent ∨
      c'.highVideoFrameCount = (c.highVideoFrameCount + 1) % 256 ∧
        watch cfg c .high sent = (sent.1 + 1, sent.2) := by
  unfold watch
  simp only [hf, Bool.false_eq_true, if_false]
  cases highStepped h with
  | stop _ _ hpc hf =>
    refine .inl ⟨rfl, ?_⟩
    simp only [hpc, hf, if_true]
  | send _ _ hpc hf =>
    refine .inr ⟨rfl, ?_⟩
    simp only [hpc, hf, Bool.false_eq_true, if_false]
  | test hpc | starve hpc _ | fed hpc _ | nap _ _ hpc _ _ _ | resize _ _ hpc _ _ | full _ _ hpc _ _ | wake _ _ _ hpc _
  | wait hpc _ | null hpc _ | take _ _ hpc _ | forward _ hpc | top _ hpc | size _ _ hpc | sleep _ hpc _ =>
    refine .inl ⟨rfl, ?_⟩
    simp only [hpc]

theorem lowStep_counts (hf : c.freed = false) (h : lowStep rationals cfg c = some c') (sent : Nat × Nat) :
    c'.lowVideoFrameCount = c.lowVideoFrameCount ∧ watch cfg c .low sent = sent ∨
      ∃ work, lowWanted rationals cfg c work = true ∧
        c'.lowVideoFrameCount = (c.lowVideoFrameCount + 1) % 256 ∧
        watch cfg c .low sent = (sent.1, sent.2 + 1) := by
  unfold watch
  simp only [hf, Bool.false_eq_true, if_false]
  cases lowStepped h with
  | send work hpc =>
    simp only [hpc]
    cases hwant : lowWanted rationals cfg c work with
    | false => exact .inl ⟨rfl, rfl⟩
    | true => exact .inr ⟨work, hwant, rfl, rfl⟩
  | test hpc | wait hpc _ | null hpc _ | take _ _ hpc _ =>
    refine .inl ⟨rfl, ?_⟩
    simp only [hpc]

/-- The step of a call, with its history, is a run of the events. -/
theorem callStep_counts {l : Label} (hp : InRange c) (h : (system rationals cfg).step c l = some c')
    (sent : Nat × Nat) :
    InRange c' ∧
      (quotaSystem cfg.dfps).Run (fun _ _ => True) (countsOf c sent) (countsOf c' (watch cfg c l sent)) := by
  cases stepped h with
  | deleted hf h =>
    rw [touchFreed_eq h, show watch cfg c l sent = sent from if_pos hf]
    exact ⟨hp, run_same sent hp rfl rfl⟩
  | tick hf => exact run_other sent ⟨nofun, nofun, nofun⟩ hp rfl rfl
  | video buffer isKeyFrame timestamp hf => exact run_other sent ⟨nofun, nofun, nofun⟩ hp rfl rfl
  | audio buffer timestamp hf => exact run_other sent ⟨nofun, nofun, nofun⟩ hp rfl rfl
  | listen hf h =>
    rw [audioStep_eq h]
    exact run_other sent ⟨nofun, nofun, nofun⟩ hp rfl rfl
  | disconnect ok hf h =>
    rw [discStep_eq h]
    exact run_other sent ⟨nofun, nofun, nofun⟩ hp rfl rfl
  | fps timestamp hf =>
    obtain ⟨hp', hhigh, hlow⟩ := finishVideo_counts timestamp hp
    refine ⟨hp', ?_⟩
    unfold watch
    simp only [hf, Bool.false_eq_true, if_false]
    by_cases hover : 1000 ≤ (c.now : Int) - c.lastFpsPrintTime
    · rw [if_pos hover] at hhigh hlow ⊢
      have hreset : (quotaSystem cfg.dfps).Run (fun _ _ => True) (countsOf c sent)
          (countsOf { c with highVideoFrameCount := 0, lowVideoFrameCount := 0 } (0, 0)) :=
        .tail (.low .reset) (.tail (.high .reset) .refl trivial rfl) trivial rfl
      exact hreset.trans (run_same (0, 0) hp' hhigh hlow)
    · rw [if_neg hover] at hhigh hlow ⊢
      exact run_same sent hp' hhigh hlow
  | high hf h =>
    have hp' : InRange c' := by
      rw [highStep_eq h]
      exact hp
    have hlow : c'.lowVideoFrameCount = c.lowVideoFrameCount := by rw [highStep_eq h]
    refine ⟨hp', ?_⟩
    rcases highStep_counts hf h sent with ⟨hhigh, hw⟩ | ⟨hhigh, hw⟩
    · rw [hw]
      exact run_same sent hp' hhigh hlow
    · rw [hw]
      have hsent : (quotaSystem cfg.dfps).Run (fun _ _ => True) (countsOf c sent)
          (countsOf { c with highVideoFrameCount := (c.highVideoFrameCount + 1) % 256 } (sent.1 + 1, sent.2)) :=
        .tail (.high .store) (.tail (.high .load) (.tail (.high .send) .refl trivial rfl) trivial rfl) trivial rfl
      exact hsent.trans (run_same _ hp' hhigh hlow)
  | low hf h =>
    have hp' : InRange c' := by
      rw [lowStep_eq h]
      exact hp
    have hhigh : c'.highVideoFrameCount = c.highVideoFrameCount := by rw [lowStep_eq h]
    refine ⟨hp', ?_⟩
    rcases lowStep_counts hf h sent with ⟨hlow, hw⟩ | ⟨work, hwant, hlow, hw⟩
    · rw [hw]
      exact run_same sent hp' hhigh hlow
    · rw [hw]
      -- the test, and then the send and the count
      have htest : (quotaSystem cfg.dfps).Run (fun _ _ => True) (countsOf c sent)
          { countsOf c sent with encoding := encodes cfg.dfps (countsOf c sent) work.isKeyFrame } :=
        .tail (.test work.isKeyFrame) .refl trivial rfl
      rw [lowWanted_encodes cfg c work sent] at hwant
      rw [hwant] at htest
      have hsent : (quotaSystem cfg.dfps).Run (fun _ _ => True) (countsOf c sent)
          (countsOf { c with lowVideoFrameCount := (c.lowVideoFrameCount + 1) % 256 } (sent.1, sent.2 + 1)) :=
        .tail (.low .store) (.tail (.low .load) (htest.tail (.low .send) trivial rfl) trivial rfl) trivial rfl
      exact hsent.trans (run_same _ hp' hhigh hlow)

end

/-! ## 256 frames within a second -/

def dualConfig : Config := ⟨true, 120, 8000, 15, 15, 0⟩

def callSystem : LTS (Call Rat × Nat × Nat) Label := (system rationals dualConfig).watched (watch dualConfig) (0, 0)

def delta (id : Nat) : Work := ⟨id, [0, 0, 0, 1, 0x41], false, false, 0⟩

/-- The High handler has sent `frames`, the Low handler has taken none of them. -/
def flooded (id count : Nat) (frames : List Work) : Call Rat :=
  { init rationals dualConfig with
    fps := count
    highVideoFrameCount := count
    videoQueueLow := frames
    nextId := id
    high := .check
    acceptedVideo := frames
    tookHigh := frames
    sentHigh := frames }

/-- `agora_send_video` has been called. -/
def queued (id count : Nat) (frames : List Work) : Call Rat :=
  { flooded id ((count + 1) % 256) frames with
    highVideoFrameCount := count
    videoJB := [delta id]
    acceptedVideo := frames ++ [delta id]
    nextId := id + 1 }

/-- The next frame, through the High handler. -/
def oneFrame : List Label := [.video [0, 0, 0, 1, 0x41] false 0, .fps] ++ List.replicate 8 .high

theorem flooded_oneFrame (id count : Nat) (frames : List Work) (sent : Nat) :
    callSystem.exec (fun _ _ => True) (flooded id count frames, sent, 0) oneFrame =
      some (flooded (id + 1) ((count + 1) % 256) (frames ++ [delta id]), sent + 1, 0) := by
  have hqueued : callSystem.exec (fun _ _ => True) (flooded id count frames, sent, 0) oneFrame =
      callSystem.exec (fun _ _ => True) (queued id count frames, sent, 0) (List.replicate 8 .high) := rfl
  have hwait : callSystem.step (queued id count frames, sent, 0) .high =
      some ({ queued id count frames with high := .wait }, sent, 0) := by
    have hstarved : starved rationals (queued id count frames) = false := Bool.and_false _
    have hstep : highStep rationals dualConfig (queued id count frames) =
        some { queued id count frames with high := .wait } := by
      show (if starved rationals (queued id count frames) = true then some _ else some _) = _
      rw [hstarved]
      rfl
    exact congrArg (Option.map _) hstep
  have hrest : callSystem.exec (fun _ _ => True) ({ queued id count frames with high := .wait }, sent, 0)
      (List.replicate 7 .high) = some (flooded (id + 1) ((count + 1) % 256) (frames ++ [delta id]), sent + 1, 0) := rfl
  rw [hqueued, List.replicate_succ, LTS.exec, if_pos trivial, hwait, Option.bind_some, hrest]

def deltas (n : Nat) : List Work := (List.range n).map delta

theorem flooded_run (n : Nat) : callSystem.Run (fun _ _ => True) (flooded 0 0 [], 0, 0)
    (flooded n (n % 256) (deltas n), n, 0) := by
  induction n with
  | zero => exact .refl
  | succ n ih =>
    have hframe := LTS.run_of_exec oneFrame (flooded_oneFrame n (n % 256) (deltas n) n)
    rw [Nat.mod_add_mod, show deltas n ++ [delta n] = deltas (n + 1) by simp [deltas, List.range_succ]] at hframe
    exact ih.trans hframe

/-- The Low handler has taken the first one. -/
def taken (rest : List Work) : Call Rat :=
  { flooded 256 0 (delta 0 :: rest) with low := .send (delta 0), videoQueueLow := rest }

end Rtmpg.Quota
