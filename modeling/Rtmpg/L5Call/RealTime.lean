import Rtmpg.Core.Sleeper
import Rtmpg.L5Call.Sampling

/-!
# No handler is ahead of the media clock

`Rtmpg.L5Call.Sampling` adds up the sleeps a handler means to make; here they
are held against the clock of the call. `sleep_until` (`libagorac/agorac.cpp:504,561`)
is a `Sleeper`: its deadline is `nextSample`, its nominal time what
`GetNextSamplingPoint` makes of the timestamps, and the speed-up cuts that by
5% and what the conversion to `long` drops. A handler that buffers, is blocked
or wakes late only falls behind.

* `sleep_nonneg`: with nondecreasing timestamps no nominal time is negative.
* `high_step_sleeps`, `audio_step_sleeps`: every step of a call is a move of
  the sleeper, or none.
* `high_never_ahead`, `audio_never_ahead`: in every run, with or without
  speed-ups, a handler that comes back for its next packet has let 95% of the
  time of those before it pass, less a millisecond for each.
-/
namespace Rtmpg.Pacing

open Rtmpg.Agorac

variable {F : Type} {fl : Floats F} {cfg : Config} {s t : Call F} {h b : History}

/-! ## One sleep -/

/-- `(long)(threadsleepTime*0.95)` drops less than a millisecond. -/
def Cuts (fl : Floats F) : Prop := ∀ n : Int, 0 ≤ n → 95 * n ≤ 100 * fl.scale095 n + 100

theorem rationals_cuts : Cuts rationals := by
  intro n hn
  have hscale : rationals.scale095 n = n * 95 / 100 := Int.tdiv_eq_ediv_of_nonneg (by omega)
  rw [hscale]
  omega

theorem nextSampleOf_cut (hc : Cuts fl) {now size jbSize : Nat} {sleepTime : Int} (h0 : 0 ≤ sleepTime) :
    95 * sleepTime ≤ 100 * (nextSampleOf fl now size jbSize sleepTime - now) + 100 := by
  have hcut := hc sleepTime h0
  unfold nextSampleOf
  split <;> omega

/-- Nondecreasing timestamps, none of them negative. -/
def Timed (looks : List Look) : Prop := Timely (noWork :: packets looks)

theorem packets_concat (looks : List Look) (l : Look) :
    packets (looks ++ [l]) = looks.map (·.work) ++ l.work :: l.next.toList := by
  rw [packets, expected_concat, List.map_append, List.map_singleton, List.append_assoc, List.singleton_append]

theorem paceOf_last (looks : List Look) :
    ∃ work ∈ noWork :: looks.map (·.work), (paceOf looks).lastTimestamp = work.timestamp := by
  induction looks using List.reverseRecOn with
  | nil => exact ⟨noWork, List.mem_cons_self, rfl⟩
  | append_singleton looks l _ =>
    refine ⟨l.work, ?_, by rw [paceOf_concat]; rfl⟩
    rw [List.map_append, List.map_singleton]
    exact List.mem_cons_of_mem _ (List.mem_append_right _ List.mem_cons_self)

theorem sleep_nonneg {looks : List Look} {l : Look} (ht : Timed (looks ++ [l])) :
    0 ≤ sleepTimeOf l.next l.work.timestamp (paceOf looks).lastTimestamp := by
  obtain ⟨work, hmem, hlast⟩ := paceOf_last looks
  unfold Timed at ht
  rw [packets_concat, ← List.cons_append] at ht
  obtain ⟨-, hbehind, hacross⟩ := List.pairwise_append.mp ht
  have hle : work.timestamp ≤ l.work.timestamp := hacross work hmem l.work List.mem_cons_self
  rw [hlast]
  cases hn : l.next with
  | none =>
    rw [sleepTimeOf_none]
    omega
  | some next =>
    rw [hn] at hbehind
    have hnext : l.work.timestamp ≤ next.timestamp := (List.pairwise_cons.mp hbehind).1 next List.mem_cons_self
    by_cases he : next.timestamp = l.work.timestamp
    · rw [sleepTimeOf_same he]
      omega
    · rw [sleepTimeOf_ahead he]
      omega

/-- What follows a look: the time is set. -/
theorem look_sleeps (hc : Cuts fl) {looks : List Look} {l : Look} (ht : Timed (looks ++ [l])) {sleepTime : Int}
    (hs : sleepTime = sleepTimeOf l.next l.work.timestamp (paceOf looks).lastTimestamp) (now size jbSize : Nat)
    (nominal slept : Int) :
    Sleeper.Move 95 100 100 ⟨now, .awake, nominal, slept, looks.length⟩
      ⟨now, .until (nextSampleOf fl now size jbSize sleepTime), nominal + sleepTime,
        slept + (nextSampleOf fl now size jbSize sleepTime - now), looks.length + 1⟩ := by
  have hnonneg : 0 ≤ sleepTime := hs ▸ sleep_nonneg ht
  have hmove := Sleeper.Move.sleep sleepTime (nextSampleOf fl now size jbSize sleepTime - now)
    (rfl : (⟨now, .awake, nominal, slept, looks.length⟩ : Sleeper).rest = .awake) (nextSampleOf_cut hc hnonneg)
  rwa [show (now : Int) + (nextSampleOf fl now size jbSize sleepTime - now) =
    nextSampleOf fl now size jbSize sleepTime by omega] at hmove

/-- What was taken and seen before a look is part of what is after it. -/
theorem Timed.before {looks : List Look} {l : Look} (h : Timed (looks ++ [l]))
    (hl : ∀ work, expected looks = some work → work = l.work) : Timed looks := by
  refine List.Pairwise.sublist (List.Sublist.cons_cons _ ?_) h
  rw [packets_concat]
  refine (List.Sublist.refl _).append ?_
  cases he : expected looks with
  | none => exact List.nil_sublist _
  | some work =>
    rw [hl work he]
    exact List.singleton_sublist.mpr List.mem_cons_self

/-! ## What a handler has looked up -/

/-- The time a handler is about to sleep is that of its last look. -/
def Sampler.Looked (v : Sampler) : Prop :=
  ∀ work sleepTime, v.stage = .looked work sleepTime → ∃ looks l, v.history.looks = looks ++ [l] ∧
    sleepTime = sleepTimeOf l.next l.work.timestamp (paceOf looks).lastTimestamp

theorem Sampler.Looked.moves {v w : Sampler} (hl : v.Looked) (hv : Paces v) (h : v.Moves w) : w.Looked := by
  rcases h with rfl | h
  · exact hl
  cases h with
  | add work => exact hl
  | take work rest hs hq => nofun
  | look work hs =>
    intro _ sleepTime hstage
    cases hstage
    have hstep := hv.inStep
    unfold Sampler.InStep at hstep
    rw [hs] at hstep
    exact ⟨v.history.looks, ⟨work, v.queue.head?⟩, rfl, by rw [hstep.1]⟩
  | time work sleepTime hs => nofun
  | pass work hs => nofun
  | leave queue hs => nofun

theorem Timed.moves {v w : Sampler} (hw : Timed w.history.looks) (hv : Paces v) (h : v.Moves w) :
    Timed v.history.looks := by
  rcases h with rfl | h
  · exact hw
  cases h with
  | look work hs =>
    have hstep := hv.inStep
    unfold Sampler.InStep at hstep
    rw [hs] at hstep
    exact hw.before hstep.2
  | _ => exact hw

/-- How many times were set: all, but for the one just looked up. -/
def timedCount (stage : Stage) (looks : Nat) : Nat :=
  match stage with
  | .looked _ _ => looks - 1
  | _ => looks

/-! ## The handlers of a call -/

def highRest : HighPc F → Rest
  | .send _ nextSample => .until nextSample
  | .sleep nextSample => .until nextSample
  | .done => .left
  | _ => .awake

def audioRest : AudioPc → Rest
  | .hold _ nextSample => .until nextSample
  | .nap _ nextSample _ => .until nextSample
  | .sleep nextSample => .until nextSample
  | .done => .left
  | _ => .awake

/-- `h` has the nominal times, `b` those until `nextSample`. -/
def highSleeper (s : Call F) (h b : History) : Sleeper :=
  ⟨s.now, highRest s.high, h.slept, b.slept, timedCount (highStage s.high) h.looks.length⟩

def audioSleeper (s : Call F) (h b : History) : Sleeper :=
  ⟨s.now, audioRest s.audio, h.slept, b.slept, timedCount (audioStage s.audio) h.looks.length⟩

theorem highStep_sleeps (hc : Cuts fl) (hl : (highSampler s h).Looked) (ht : Timed h.looks)
    (hf : s.freed = false) (hstep : highStep fl cfg s = some t) :
    Sleeper.Moves 95 100 100 (highSleeper s h b)
      (highSleeper t (nominalHigh s .high h) (watchHigh fl s .high b)) := by
  have hwatch : ¬ (s.freed = true ∨ Label.high ≠ .high) := by simp [hf]
  unfold nominalHigh watchHigh
  rw [if_neg hwatch, if_neg hwatch]
  cases highStepped hstep with
  | test hpc =>
    simp only [highSleeper, hpc]
    cases s.isRunning with
    | false => exact .inr .leave
    | true => exact .inl rfl
  | sleep nextSample hpc hle =>
    simp only [highSleeper, hpc]
    cases s.isRunning with
    | false => exact .inr .leave
    | true => exact .inr (.wake nextSample rfl hle)
  | starve hpc _ | fed hpc _ | nap _ _ hpc _ _ _ | resize _ _ hpc _ _ | full _ _ hpc _ _ | wake _ _ _ hpc _
  | wait hpc _ | forward _ hpc =>
    simp only [highSleeper, hpc]
    exact .inl rfl
  | null hpc _ =>
    simp only [highSleeper, hpc]
    exact .inr .leave
  | take work rest hpc hq =>
    simp only [highSleeper, hpc]
    cases cfg.enableDual <;> exact .inl rfl
  | top work hpc =>
    simp only [highSleeper, hpc]
    refine .inl ?_
    simp [highRest, highStage, timedCount]
  | size work sleepTime hpc =>
    obtain ⟨looks, l, hlooks, rfl⟩ := hl work sleepTime (by simp only [highSampler, hpc]; rfl)
    have hlooks' : h.looks = looks ++ [l] := hlooks
    rw [hlooks'] at ht
    have hmove := look_sleeps hc ht rfl s.now s.videoJB.length s.jbSize h.slept b.slept
    refine .inr ?_
    simpa only [highSleeper, hpc, highRest, highStage, timedCount, hlooks', List.length_append, List.length_singleton,
      Nat.add_sub_cancel] using hmove
  | stop work nextSample hpc _ =>
    simp only [highSleeper, hpc]
    exact .inr .leave
  | send work nextSample hpc _ =>
    simp only [highSleeper, hpc]
    exact .inl rfl

theorem audioStep_sleeps (hc : Cuts fl) (hl : (audioSampler s h).Looked) (ht : Timed h.looks)
    (hf : s.freed = false) (hstep : audioStep fl s = some t) :
    Sleeper.Moves 95 100 100 (audioSleeper s h b)
      (audioSleeper t (nominalAudio s .listen h) (watchAudio fl s .listen b)) := by
  have hwatch : ¬ (s.freed = true ∨ Label.listen ≠ .listen) := by simp [hf]
  unfold nominalAudio watchAudio
  rw [if_neg hwatch, if_neg hwatch]
  cases audioStepped hstep with
  | test hpc | null hpc _ =>
    simp only [audioSleeper, hpc]
    cases s.isRunning with
    | false => exact .inr .leave
    | true => exact .inl rfl
  | sleep nextSample hpc hle =>
    simp only [audioSleeper, hpc]
    cases s.isRunning with
    | false => exact .inr .leave
    | true => exact .inr (.wake nextSample rfl hle)
  | wait hpc _ | nap _ _ hpc _ _ | wake _ _ _ hpc _ =>
    simp only [audioSleeper, hpc]
    exact .inl rfl
  | take work rest hpc hq =>
    simp only [audioSleeper, hpc]
    cases work.isFinished with
    | false => exact .inl rfl
    | true => exact .inr .leave
  | top work hpc =>
    simp only [audioSleeper, hpc]
    refine .inl ?_
    simp [audioRest, audioStage, timedCount]
  | size work sleepTime hpc =>
    obtain ⟨looks, l, hlooks, rfl⟩ := hl work sleepTime (by simp only [audioSampler, hpc]; rfl)
    have hlooks' : h.looks = looks ++ [l] := hlooks
    rw [hlooks'] at ht
    have hmove := look_sleeps hc ht rfl s.now s.audioJB.length s.jbSize h.slept b.slept
    refine .inr ?_
    simpa only [audioSleeper, hpc, audioRest, audioStage, timedCount, hlooks', List.length_append,
      List.length_singleton, Nat.add_sub_cancel] using hmove
  | send work nextSample hpc _ =>
    simp only [audioSleeper, hpc]
    exact .inl rfl

theorem watchHigh_other {l : Label} (hl : l ≠ .high) : watchHigh fl s l b = b := if_pos (.inr hl)

theorem watchAudio_other {l : Label} (hl : l ≠ .listen) : watchAudio fl s l b = b := if_pos (.inr hl)

theorem high_step_sleeps (hc : Cuts fl) (hl : (highSampler s h).Looked) (ht : Timed h.looks) {l : Label}
    (hstep : (system fl cfg).step s l = some t) :
    Sleeper.Moves 95 100 100 (highSleeper s h b) (highSleeper t (nominalHigh s l h) (watchHigh fl s l b)) := by
  cases stepped hstep with
  | deleted hf hstep =>
    rw [nominalHigh, if_pos (.inl hf), watchHigh, if_pos (.inl hf)]
    cases freedTouched hstep with
    | tick => exact .inr .tick
    | stop work _ hpc _ =>
      simp only [highSleeper, hpc]
      exact .inr .leave
    | _ => exact .inl rfl
  | high hf hstep => exact highStep_sleeps hc hl ht hf hstep
  | tick =>
    rw [nominalHigh_other (fun he => by cases he), watchHigh_other (fun he => by cases he)]
    exact .inr .tick
  | fps timestamp =>
    rw [nominalHigh_other (fun he => by cases he), watchHigh_other (fun he => by cases he), finishVideo_eq]
    exact .inl rfl
  | low _ hstep =>
    rw [nominalHigh_other (fun he => by cases he), watchHigh_other (fun he => by cases he), lowStep_eq hstep]
    exact .inl rfl
  | listen _ hstep =>
    rw [nominalHigh_other (fun he => by cases he), watchHigh_other (fun he => by cases he), audioStep_eq hstep]
    exact .inl rfl
  | disconnect ok _ hstep =>
    rw [nominalHigh_other (fun he => by cases he), watchHigh_other (fun he => by cases he), discStep_eq hstep]
    exact .inl rfl
  | video | audio =>
    rw [nominalHigh_other (fun he => by cases he), watchHigh_other (fun he => by cases he)]
    exact .inl rfl

theorem audio_step_sleeps (hc : Cuts fl) (hl : (audioSampler s h).Looked) (ht : Timed h.looks) {l : Label}
    (hstep : (system fl cfg).step s l = some t) :
    Sleeper.Moves 95 100 100 (audioSleeper s h b) (audioSleeper t (nominalAudio s l h) (watchAudio fl s l b)) := by
  cases stepped hstep with
  | deleted hf hstep =>
    rw [nominalAudio, if_pos (.inl hf), watchAudio, if_pos (.inl hf)]
    cases freedTouched hstep with
    | tick => exact .inr .tick
    | _ => exact .inl rfl
  | listen hf hstep => exact audioStep_sleeps hc hl ht hf hstep
  | tick =>
    rw [nominalAudio_other (fun he => by cases he), watchAudio_other (fun he => by cases he)]
    exact .inr .tick
  | fps timestamp =>
    rw [nominalAudio_other (fun he => by cases he), watchAudio_other (fun he => by cases he), finishVideo_eq]
    exact .inl rfl
  | low _ hstep =>
    rw [nominalAudio_other (fun he => by cases he), watchAudio_other (fun he => by cases he), lowStep_eq hstep]
    exact .inl rfl
  | high _ hstep =>
    rw [nominalAudio_other (fun he => by cases he), watchAudio_other (fun he => by cases he), highStep_eq hstep]
    exact .inl rfl
  | disconnect ok _ hstep =>
    rw [nominalAudio_other (fun he => by cases he), watchAudio_other (fun he => by cases he), discStep_eq hstep]
    exact .inl rfl
  | video | audio =>
    rw [nominalAudio_other (fun he => by cases he), watchAudio_other (fun he => by cases he)]
    exact .inl rfl

/-! ## Every run -/

/-- What is known of a handler and its two histories. -/
structure OnTime (v : Sampler) (sleeper : Sleeper) : Prop where
  paces : Paces v
  looked : v.Looked
  keeps : Timed v.history.looks → Sleeper.Keeps 95 100 100 sleeper

/-- Back for the next packet, a handler has let the time of those before it pass. -/
theorem OnTime.bound {v : Sampler} {sleeper : Sleeper} (ho : OnTime v sleeper) (ht : Timed v.history.looks)
    (hrest : sleeper.rest = .awake) (hstage : ∀ work sleepTime, v.stage ≠ .looked work sleepTime)
    (hnominal : sleeper.nominal = v.history.slept)
    (hcount : sleeper.count = timedCount v.stage v.history.looks.length) :
    ∃ x : Stream, Meets x v.history.looks ∧ ∀ n, v.history.looks.length = n + 1 →
      95 * (x.timestamp n + lookahead x n) ≤ 100 * sleeper.now + 100 * (n + 1) := by
  obtain ⟨x, hx, hslept⟩ := ho.paces.stream (List.pairwise_cons.mp ht).2
  refine ⟨x, hx, fun n hn => ?_⟩
  have hle := (ho.keeps ht).nominal_le hrest
  have hall : timedCount v.stage v.history.looks.length = n + 1 := by
    rw [← hn]
    unfold timedCount
    split
    · next hs => exact absurd hs (hstage _ _)
    · rfl
  have hmet := hslept hstage
  rw [hn, slept_eq] at hmet
  rw [hnominal, ← hmet, hcount, hall] at hle
  push_cast at hle
  exact hle

/-- Every order of steps, with the looks of the High handler and its nominal times. -/
def HighLooked (fl : Floats F) (cfg : Config) (s : Call F) (h : History) : Prop :=
  ((system fl cfg).watched nominalHigh ⟨[], 0⟩).Run (fun _ _ => True) (init fl cfg, ⟨[], 0⟩) (s, h)

def AudioLooked (fl : Floats F) (cfg : Config) (s : Call F) (h : History) : Prop :=
  ((system fl cfg).watched nominalAudio ⟨[], 0⟩).Run (fun _ _ => True) (init fl cfg, ⟨[], 0⟩) (s, h)

theorem highLooked_onTime (hc : Cuts fl) (hr : HighLooked fl cfg s h) :
    ∃ b, OnTime (highSampler s h) (highSleeper s h b) := by
  obtain ⟨b, hboth⟩ : ∃ b, ((system fl cfg).watched (fun s l p => (nominalHigh s l p.1, watchHigh fl s l p.2))
      (⟨[], 0⟩, ⟨[], 0⟩)).Run (fun _ _ => True) (init fl cfg, ⟨[], 0⟩, ⟨[], 0⟩) (s, h, b) :=
    hr.beside (watchHigh fl) ⟨[], 0⟩ fun _ _ _ _ => trivial
  refine ⟨b, hboth.invariant (I := fun p => OnTime (highSampler p.1 p.2.1) (highSleeper p.1 p.2.1 p.2.2))
    (fun p l q _ hp hstep => ?_) ⟨start_paces rfl rfl rfl, nofun, fun _ => Sleeper.keeps_start 0⟩⟩
  obtain ⟨t, ht, rfl⟩ := Option.map_eq_some_iff.mp hstep
  have hmoves := high_step_moves (b := p.2.1) ht
  refine ⟨hp.paces.moves hmoves, hp.looked.moves hp.paces hmoves, fun htimed => ?_⟩
  have hbefore := htimed.moves hp.paces hmoves
  exact (hp.keeps hbefore).moves (high_step_sleeps hc hp.looked hbefore ht)

theorem audioLooked_onTime (hc : Cuts fl) (hr : AudioLooked fl cfg s h) :
    ∃ b, OnTime (audioSampler s h) (audioSleeper s h b) := by
  obtain ⟨b, hboth⟩ : ∃ b, ((system fl cfg).watched (fun s l p => (nominalAudio s l p.1, watchAudio fl s l p.2))
      (⟨[], 0⟩, ⟨[], 0⟩)).Run (fun _ _ => True) (init fl cfg, ⟨[], 0⟩, ⟨[], 0⟩) (s, h, b) :=
    hr.beside (watchAudio fl) ⟨[], 0⟩ fun _ _ _ _ => trivial
  refine ⟨b, hboth.invariant (I := fun p => OnTime (audioSampler p.1 p.2.1) (audioSleeper p.1 p.2.1 p.2.2))
    (fun p l q _ hp hstep => ?_) ⟨start_paces rfl rfl rfl, nofun, fun _ => Sleeper.keeps_start 0⟩⟩
  obtain ⟨t, ht, rfl⟩ := Option.map_eq_some_iff.mp hstep
  have hmoves := audio_step_moves (b := p.2.1) ht
  refine ⟨hp.paces.moves hmoves, hp.looked.moves hp.paces hmoves, fun htimed => ?_⟩
  have hbefore := htimed.moves hp.paces hmoves
  exact (hp.keeps hbefore).moves (audio_step_sleeps hc hp.looked hbefore ht)

/-- When the High handler comes back for its next frame, 95% of the media time with the lookahead
has passed, less a millisecond a frame. -/
theorem high_never_ahead (fl : Floats F) (cfg : Config) (hc : Cuts fl) (s : Call F) (h : History)
    (hr : HighLooked fl cfg s h) (ht : Timed h.looks) (hrest : highRest s.high = .awake)
    (hsize : ∀ work sleepTime, s.high ≠ .size work sleepTime) :
    ∃ x : Stream, Meets x h.looks ∧ ∀ n, h.looks.length = n + 1 →
      95 * (x.timestamp n + lookahead x n) ≤ 100 * (s.now : Int) + 100 * (n + 1) := by
  obtain ⟨b, ho⟩ := highLooked_onTime hc hr
  refine ho.bound ht hrest (fun work sleepTime hstage => ?_) rfl rfl
  have hpc : highStage s.high = .looked work sleepTime := hstage
  unfold highStage at hpc
  split at hpc <;> cases hpc
  next hhigh => exact hsize work sleepTime hhigh

/-- The same for the Audio handler, which is held back while the video buffers. -/
theorem audio_never_ahead (fl : Floats F) (cfg : Config) (hc : Cuts fl) (s : Call F) (h : History)
    (hr : AudioLooked fl cfg s h) (ht : Timed h.looks) (hrest : audioRest s.audio = .awake)
    (hsize : ∀ work sleepTime, s.audio ≠ .size work sleepTime) :
    ∃ x : Stream, Meets x h.looks ∧ ∀ n, h.looks.length = n + 1 →
      95 * (x.timestamp n + lookahead x n) ≤ 100 * (s.now : Int) + 100 * (n + 1) := by
  obtain ⟨b, ho⟩ := audioLooked_onTime hc hr
  refine ho.bound ht hrest (fun work sleepTime hstage => ?_) rfl rfl
  have hpc : audioStage s.audio = .looked work sleepTime := hstage
  unfold audioStage at hpc
  split at hpc <;> cases hpc
  next haudio => exact hsize work sleepTime haudio

/-! ## Two frames and two packets -/

/-- Neither a jitter buffer nor a low stream. -/
def plainConfig : Config := ⟨false, 0, 0, 0, 15, 0⟩

/-- A frame or a packet of either handler, and the time until the next. -/
def slept40 : List Label :=
  List.flatten [List.replicate 7 .high, List.replicate 6 .listen, List.replicate 40 .tick]

/-- Two of both, 40 ms apart, each handed on and slept for. -/
def slept80 : List Label :=
  List.flatten [[.video [1] true 40, .fps, .audio [2] 40, .video [3] false 80, .fps, .audio [4] 80], slept40, slept40,
    [.high, .listen]]

def highSlept : Option (Call Rat × History) :=
  ((system rationals plainConfig).watched nominalHigh ⟨[], 0⟩).exec (fun _ _ => True)
    (init rationals plainConfig, ⟨[], 0⟩) slept80

def audioSlept : Option (Call Rat × History) :=
  ((system rationals plainConfig).watched nominalAudio ⟨[], 0⟩).exec (fun _ _ => True)
    (init rationals plainConfig, ⟨[], 0⟩) slept80

theorem high_never_ahead_80 : ∃ (s : Call Rat) (h : History) (x : Stream),
    h.looks.length = 2 ∧ s.high = .check ∧ Meets x h.looks ∧ ∀ n, h.looks.length = n + 1 →
      95 * (x.timestamp n + lookahead x n) ≤ 100 * (s.now : Int) + 100 * (n + 1) := by
  have hlook : highSlept.map (fun p => (p.1.high, p.2.looks)) = some (.check,
      [⟨⟨0, [1], true, false, 40⟩, some ⟨2, [3], false, false, 80⟩⟩, ⟨⟨2, [3], false, false, 80⟩, none⟩]) := by
    decide +kernel
  obtain ⟨⟨s, h⟩, hrun, heq⟩ := Option.map_eq_some_iff.mp hlook
  obtain ⟨hhigh, hlooks⟩ := Prod.mk.inj heq
  obtain ⟨x, hx⟩ := high_never_ahead rationals plainConfig rationals_cuts s h (LTS.run_of_exec slept80 hrun)
    (by rw [hlooks]; unfold Timed Timely; decide) (by rw [hhigh]; rfl) (fun _ _ hs => by rw [hhigh] at hs; cases hs)
  exact ⟨s, h, x, by rw [hlooks]; rfl, hhigh, hx⟩

theorem audio_never_ahead_80 : ∃ (s : Call Rat) (h : History) (x : Stream),
    h.looks.length = 2 ∧ s.audio = .wait ∧ Meets x h.looks ∧ ∀ n, h.looks.length = n + 1 →
      95 * (x.timestamp n + lookahead x n) ≤ 100 * (s.now : Int) + 100 * (n + 1) := by
  have hlook : audioSlept.map (fun p => (p.1.audio, p.2.looks)) = some (.wait,
      [⟨⟨1, [2], false, false, 40⟩, some ⟨3, [4], false, false, 80⟩⟩, ⟨⟨3, [4], false, false, 80⟩, none⟩]) := by
    decide +kernel
  obtain ⟨⟨s, h⟩, hrun, heq⟩ := Option.map_eq_some_iff.mp hlook
  obtain ⟨haudio, hlooks⟩ := Prod.mk.inj heq
  obtain ⟨x, hx⟩ := audio_never_ahead rationals plainConfig rationals_cuts s h (LTS.run_of_exec slept80 hrun)
    (by rw [hlooks]; unfold Timed Timely; decide) (by rw [haudio]; rfl) (fun _ _ hs => by rw [haudio] at hs; cases hs)
  exact ⟨s, h, x, by rw [hlooks]; rfl, haudio, hx⟩

end Rtmpg.Pacing
