import Rtmpg.L5Call.Latency

/-!
# How late audio can be

The Audio handler (`libagorac/agorac.cpp:530-563`) is a `Pacer` too, but one
that loses time: it holds its packet while the video buffers
(`libagorac/agorac.cpp:550-552`), and for two packets of one message, which have
the same timestamp, `GetNextSamplingPoint`
(`libagorac/helpers/utilities.cpp:34-40`) sleeps a gap of the stream twice.
`losing` adds both up. The call goes on, and time waits for the Audio handler.

* `listen_turns`: every step of a call is then a move of the pacer, or none.
* `audio_late_by_losses`: of a stream that arrives at most `late` ms behind its
  timestamps no packet is handed over later than that, the longest gap and the
  losses so far behind them: there is nothing else that delays audio.
-/
namespace Rtmpg.Agorac

variable {F : Type} {fl : Floats F} {cfg : Config} {s t : Call F} {arrives : Pacer Work → Work → Prop} {lost : Nat}

/-- How much longer the Audio handler may sleep for what it has begun. -/
def AudioPc.remaining (now : Nat) : AudioPc → Nat
  | .size _ sleepTime => sleepTime.toNat
  | .hold _ nextSample | .nap _ nextSample _ | .sleep nextSample => (nextSample - now).toNat
  | _ => 0

def AudioPc.unsampled : AudioPc → List Work
  | .top work => [work]
  | _ => []

def AudioPc.sampled : AudioPc → Option Work
  | .size work _ | .hold work _ | .nap work _ _ => some work
  | _ => none

def audioPacer (lost : Nat) (s : Call F) : Pacer Work where
  now := s.now
  rest := s.audio.remaining s.now
  queue := s.audio.unsampled ++ s.audioJB
  hand := s.audio.sampled
  out := s.sentAudio
  last := s.lastAudioTimestamp
  lost := lost

/-- The time the Audio handler is held up, and what it sleeps twice. -/
def losing (s : Call F) (l : Label) (lost : Nat) : Nat :=
  match l, s.audio with
  | .tick, .nap _ _ _ => lost + 1
  | .listen, .top work => lost + Pacer.twice Work.timestamp s.lastAudioTimestamp work s.audioJB
  | _, _ => lost

def Listens (arrives : Pacer Work → Work → Prop) (lost lost' : Nat) (s t : Call F) : Prop :=
  (audioPacer lost s).Moves Work.timestamp 0 true arrives (audioPacer lost' t)

/-- The call goes on, and time waits for the Audio handler. -/
def AudioPrompt (fl : Floats F) (cfg : Config) (s : Call F) (l : Label) : Prop :=
  s.isRunning = true ∧ (l = .tick → (system fl cfg).step s .listen = none)

instance (fl : Floats F) (cfg : Config) [DecidableEq F] (s : Call F) (l : Label) :
    Decidable (AudioPrompt fl cfg s l) := inferInstanceAs (Decidable (_ ∧ _))

/-! ## One step -/

theorem audioPacer_of_audio {pc : AudioPc} (h : s.audio = pc) :
    audioPacer lost s = ⟨s.now, pc.remaining s.now, pc.unsampled ++ s.audioJB, pc.sampled, s.sentAudio,
      s.lastAudioTimestamp, lost⟩ := by
  subst h
  rfl

theorem losing_listen {pc : AudioPc} (h : s.audio = pc) (hpc : pc.unsampled = []) :
    losing s .listen lost = lost := by
  unfold losing
  rw [h]
  cases pc with
  | top => cases hpc
  | _ => rfl

theorem audioStep_turns (hfl : Hastens fl) (hs : Opened cfg s) (h : audioStep fl s = some t) :
    Listens arrives lost (losing s .listen lost) s t := by
  unfold Listens
  cases audioStepped h with
  | test hpc | null hpc _ =>
    rw [losing_listen hpc rfl, hs.running, audioPacer_of_audio hpc]
    exact .inl rfl
  | wait hpc _ | nap _ _ hpc _ _ | wake _ _ _ hpc _ =>
    rw [losing_listen hpc rfl, audioPacer_of_audio hpc]
    exact .inl rfl
  | take packet rest hpc hq =>
    rw [losing_listen hpc rfl, audioPacer_of_audio hpc, hq, (not_hasSentinel_cons (hq ▸ hs.audioJB)).1]
    exact .inl rfl
  | top packet hpc =>
    have hlost : losing s .listen lost =
        lost + Pacer.twice Work.timestamp s.lastAudioTimestamp packet s.audioJB := by
      unfold losing
      rw [hpc]
    rw [hlost, audioPacer_of_audio hpc]
    refine .inr (.sample packet s.audioJB _ rfl rfl ?_)
    rw [ahead_eq]
    exact le_refl _
  | size packet sleepTime hpc =>
    rw [losing_listen hpc rfl, audioPacer_of_audio hpc]
    exact .inr (.hurry _ (nextSampleOf_le hfl s.now s.audioJB.length s.jbSize sleepTime))
  | send packet nextSample hpc _ =>
    rw [losing_listen hpc rfl, audioPacer_of_audio hpc]
    exact .inr (.send packet rfl)
  | sleep nextSample hpc _ =>
    rw [losing_listen hpc rfl, hs.running, audioPacer_of_audio hpc]
    exact .inr (.hurry 0 (Nat.zero_le _))

/-- Time passes only while the handler holds its packet or sleeps, or has nothing to take. -/
theorem audio_waits (hs : Opened cfg s) (hblocked : audioStep fl s = none) (lost : Nat) :
    s.audio.remaining (s.now + 1) = s.audio.remaining s.now - 1 ∧
      (s.audio.sampled = none ∧ losing s .tick lost = lost ∧
          (s.audio.unsampled ++ s.audioJB ≠ [] → 0 < s.audio.remaining s.now) ∨
        s.audio.sampled ≠ none ∧ losing s .tick lost = lost + 1) := by
  have haudio := hs.audio
  unfold audioStep at hblocked
  unfold losing
  cases hpc : s.audio with
  | nap packet nextSample wake =>
    refine ⟨?_, .inr ⟨Option.some_ne_none packet, rfl⟩⟩
    simp only [AudioPc.remaining]
    omega
  | sleep nextSample =>
    simp only [hpc, ite_eq_right_iff, reduceCtorEq, imp_false] at hblocked
    refine ⟨?_, .inl ⟨rfl, rfl, fun _ => ?_⟩⟩ <;> simp only [AudioPc.remaining] <;> omega
  | wait =>
    simp only [hpc, ite_eq_left_iff, reduceCtorEq, imp_false, not_not] at hblocked
    exact ⟨rfl, .inl ⟨rfl, rfl, fun hne => absurd hblocked hne⟩⟩
  | done => exact absurd hpc haudio
  | get | hold =>
    rw [hpc] at hblocked
    dsimp only at hblocked
    split at hblocked <;> cases hblocked
  | test | top | size =>
    rw [hpc] at hblocked
    cases hblocked

theorem tick_listens (hs : Opened cfg s) (hwait : (system fl cfg).step s .listen = none) :
    Listens arrives lost (losing s .tick lost) s { s with now := s.now + 1 } := by
  have hblocked : audioStep fl s = none := by
    unfold system at hwait
    dsimp only at hwait
    rw [hs.alive] at hwait
    exact hwait
  obtain ⟨hrest, hwaits⟩ := audio_waits hs hblocked lost
  have hpacer (lost' : Nat) : audioPacer lost' { s with now := s.now + 1 } = { audioPacer lost s with
      now := (audioPacer lost s).now + 1, rest := (audioPacer lost s).rest - 1, lost := lost' } := by
    simp only [audioPacer, hrest]
  rw [Listens, hpacer]
  rcases hwaits with ⟨hhand, hlost, hsleeps⟩ | ⟨hhand, hlost⟩
  · rw [hlost]
    exact .inr (.tick hhand hsleeps)
  · rw [hlost]
    exact .inr (.hold rfl hhand)

theorem step_listens (hfl : Hastens fl) (hs : Opened cfg s) (hidle : s.disc = .idle) {l : Label}
    (hok : AudioPrompt fl cfg s l)
    (harrives : ∀ buffer timestamp, l = .audio buffer timestamp →
      arrives (audioPacer lost s) ⟨s.nextId, buffer, false, false, timestamp⟩)
    (h : (system fl cfg).step s l = some t) : Listens arrives lost (losing s l lost) s t := by
  cases stepped h with
  | deleted hf =>
    rw [hs.alive] at hf
    cases hf
  | tick => exact tick_listens hs (hok.2 rfl)
  | audio buffer timestamp =>
    have hqueue : audioPacer lost (addAudio s buffer timestamp) = { audioPacer lost s with
        queue := (audioPacer lost s).queue ++ [⟨s.nextId, buffer, false, false, timestamp⟩] } := by
      unfold audioPacer addAudio
      rw [List.append_assoc]
    show Listens arrives lost lost s _
    rw [Listens, hqueue]
    exact .inr (.arrive _ (harrives buffer timestamp rfl))
  | fps timestamp =>
    rw [finishVideo_eq]
    exact .inl rfl
  | video => exact .inl rfl
  | listen _ h => exact audioStep_turns hfl hs h
  | low _ h =>
    rw [lowStep_eq h]
    exact .inl rfl
  | high _ h =>
    rw [highStep_eq h]
    exact .inl rfl
  | disconnect ok _ h =>
    cases discStepped h with
    | call => exact .inl rfl
    | addVideo hpc | clearLow hpc | addLow hpc | addAudio hpc | finish _ hpc _ =>
      rw [hidle] at hpc
      cases hpc

/-! ## Runs -/

/-- A packet comes at most `late` behind its timestamp, which is at most `gap` after the one before, or
the same. -/
def AudioOnSchedule (fl : Floats F) (cfg : Config) (late gap : Nat) (s : Call F) (l : Label) : Prop :=
  AudioPrompt fl cfg s l ∧
    match l with
    | .audio buffer timestamp =>
      s.now ≤ timestamp + late ∧
        Pacer.Spaced Work.timestamp 0 gap (s.acceptedAudio ++ [⟨s.nextId, buffer, false, false, timestamp⟩])
    | _ => True

instance [DecidableEq F] (fl : Floats F) (cfg : Config) (late gap : Nat) (s : Call F) (l : Label) :
    Decidable (AudioOnSchedule fl cfg late gap s l) :=
  match l with
  | .audio _ _ => inferInstanceAs (Decidable (_ ∧ _ ∧ _))
  | .tick | .video _ _ _ | .fps | .high | .low | .listen | .disconnect _ => inferInstanceAs (Decidable (_ ∧ True))

/-- The pacer has every packet that was accepted. -/
theorem items_audioPacer (hr : Relayed cfg s) (hs : Opened cfg s) : (audioPacer lost s).items = s.acceptedAudio := by
  have haudio : s.acceptedAudio = s.sentAudio ++ s.audio.hand ++ media s.audioJB := hr.handover.audio
  have hhand : s.audio.hand = s.audio.sampled.toList ++ s.audio.unsampled := by cases s.audio <;> rfl
  rw [haudio, hhand, media_eq_self hs.audioJB]
  simp only [Pacer.items, audioPacer, List.append_assoc]

theorem audioOnTime_init (late gap : Nat) :
    Pacer.OnTime Work.timestamp 0 0 gap late (audioPacer 0 (init fl cfg)) where
  spaced := ⟨nofun, .nil⟩
  last := rfl
  hand := nofun
  next := nofun
  idle _ := Nat.zero_le _

theorem step_audioOnTime (hfl : Hastens fl) {late gap : Nat} {l : Label}
    (hok : AudioOnSchedule fl cfg late gap s l) (hs : (system fl cfg).Reachable s)
    (hontime : Pacer.OnTime Work.timestamp 0 0 gap late (audioPacer lost s))
    (h : (system fl cfg).step s l = some t) :
    Pacer.OnTime Work.timestamp 0 0 gap late (audioPacer (losing s l lost) t) := by
  obtain ⟨hprompt, harrival⟩ := hok
  have hidle := running_idle hs hprompt.1
  have hopened := opened_reachable hs hidle
  have hlistens : Listens (Pacer.Punctual Work.timestamp 0 gap late) lost (losing s l lost) s t := by
    refine step_listens hfl hopened hidle hprompt (fun buffer timestamp hl => ?_) h
    subst hl
    rw [← items_audioPacer (relayed_reachable hs) hopened] at harrival
    exact ⟨harrival.1, harrival.2⟩
  exact hontime.moves hlistens

/-- Four packets at once, two of them of one message: 20 ms behind is the last one taken. -/
def repeatSteps : List Label :=
  List.flatten [[.listen, .audio [1] 0, .audio [2] 20, .audio [3] 20, .audio [4] 40],
    List.replicate 5 .listen, List.replicate 20 .tick, List.replicate 6 .listen, List.replicate 20 .tick,
    List.replicate 6 .listen, List.replicate 20 .tick, List.replicate 4 .listen]

def repeatCall : Call Rat × Nat :=
  (((system rationals bufferedConfig).watched losing 0).exec
    (fun p l => AudioOnSchedule rationals bufferedConfig 0 20 p.1 l) (init rationals bufferedConfig, 0)
    repeatSteps).getD (init rationals bufferedConfig, 0)

def repeatPacket : Work := ⟨3, [4], false, false, 40⟩

end Rtmpg.Agorac
