import Rtmpg.L5Call.Shutdown

/-!
# The context and its handlers

`agora_disconnect` (`libagorac/agorac.cpp:564-625`) puts a sentinel in every
queue, sleeps two seconds, detaches the handlers and deletes the context. A
handler that is pacing (`GetNextSamplingPoint`,
`libagorac/helpers/utilities.cpp:28-54`) notices nothing of it before its
sleep ends, and how long that is the timestamps of the stream say.

Time passes only when no handler and no started `agora_disconnect` can step
(`Prompt`): a sleep ends at its time, and work that is there is taken.

Results:
* `no_use_after_delete`: a call in which no handler is pacing when the context
  is deleted never touches a deleted context: buffering, waiting on a queue
  and the clearing of the low queue are over after two seconds. With a handler
  pacing at that moment the call goes on to touch it.
* `deleted_under_sleeper`: with a first frame at timestamp 5000 the High
  handler sleeps five seconds, and wakes in a deleted context.
-/
namespace Rtmpg.Agorac

variable {F : Type} {fl : Floats F} {cfg : Config} {s t : Call F}

/-- Nobody can step but the producer and the caller of `agora_disconnect`. -/
def Waiting (fl : Floats F) (cfg : Config) (s : Call F) : Prop :=
  (system fl cfg).step s .high = none ∧ (system fl cfg).step s .low = none ∧
  (system fl cfg).step s .listen = none ∧
  (s.disc = .idle ∨ (system fl cfg).step s (.disconnect true) = none)

def Prompt (fl : Floats F) (cfg : Config) (s : Call F) (l : Label) : Prop := l = .tick → Waiting fl cfg s

@[simp] def DiscPc.stage : DiscPc → Nat
  | .idle => 0
  | .addVideo => 1
  | .clearLow => 2
  | .addLow => 3
  | .addAudio => 4
  | .sleep _ => 5
  | .done => 6

/-- `agora_disconnect` comes back from its sleep and goes on to delete the context. -/
def Deletes (s : Call F) (l : Label) : Prop := s.disc.stage = 5 ∧ l = .disconnect true

/-- The High or the Audio handler is in `sleep_until(nextSample)`. -/
def Paced (s : Call F) : Prop := s.high.sleepsUntil ≠ none ∨ s.audio.sleepsUntil ≠ none

/-- Nothing is deleted under a pacing handler. -/
def Careful (fl : Floats F) (cfg : Config) (s : Call F) (l : Label) : Prop :=
  Prompt fl cfg s l ∧ (Deletes s l → ¬ Paced s)

/-! ## The invariant -/

/-- Every handler is done or pacing. -/
structure Parked (s : Call F) : Prop where
  high : s.high = .done ∨ s.high.sleepsUntil ≠ none
  low : s.low = .done
  audio : s.audio = .done ∨ s.audio.sleepsUntil ≠ none

/-- When the naps end at the latest: none begins after the call of `agora_disconnect`. -/
def napBound (s : Call F) : Nat := s.disconnectAt.getD s.now + 10

structure Live (cfg : Config) (s : Call F) : Prop where
  running : s.isRunning = true → s.disc = .idle
  idle : s.disc = .idle → s.disconnectAt = none
  called : 1 ≤ s.disc.stage → s.disc.stage ≤ 4 → s.disconnectAt = some s.now
  asleep : ∀ wake, s.disc = .sleep wake → ∃ d, s.disconnectAt = some d ∧ wake = d + 2000 ∧
    s.now ≤ wake ∧ (s.now = wake → Parked s)
  lowOff : cfg.enableDual = false → s.low = .done
  stopsHigh : 2 ≤ s.disc.stage → HighStops s
  stopsLow : 4 ≤ s.disc.stage → LowStops s
  stopsAudio : 5 ≤ s.disc.stage → AudioStops s
  napsHigh : ∀ wake ∈ s.high.napsUntil, wake ≤ napBound s
  napsAudio : ∀ wake ∈ s.audio.napsUntil, wake ≤ napBound s

theorem live_init : Live cfg (init fl cfg) where
  running _ := rfl
  idle _ := rfl
  called h := by cases h
  asleep _ h := by cases h
  lowOff h := by
    simp only [init, h]
    rfl
  stopsHigh h := by cases h
  stopsLow h := by cases h
  stopsAudio h := by cases h
  napsHigh _ h := by cases h
  napsAudio _ h := by cases h

theorem Live.stopped (hs : Live cfg s) (h : s.disc ≠ .idle) : s.isRunning = false :=
  Bool.eq_false_of_not_eq_true fun hrun => h (hs.running hrun)

/-- A nap of 10 ms that begins now, while the call runs. -/
def Fresh (s : Call F) (wake : Nat) : Prop := s.isRunning = true ∧ wake = s.now + 10

theorem Live.fresh (hs : Live cfg s) {wake : Nat} (h : Fresh s wake) : wake ≤ napBound s := by
  rw [napBound, hs.idle (hs.running h.1), h.2]
  exact Nat.le_refl _

/-- A step that leaves the clock and `agora_disconnect` alone. -/
theorem Live.of_kept (hs : Live cfg s) (hk : Kept s t) (hparked : s.isRunning = false → Parked s → Parked t)
    (hoff : s.low = .done → t.low = .done) (hhigh : HighStops s → HighStops t)
    (hlow : LowStops s → LowStops t) (haudio : AudioStops s → AudioStops t)
    (hnh : ∀ wake ∈ t.high.napsUntil, wake ∈ s.high.napsUntil ∨ Fresh s wake)
    (hna : ∀ wake ∈ t.audio.napsUntil, wake ∈ s.audio.napsUntil ∨ Fresh s wake) : Live cfg t := by
  have hbound : napBound t = napBound s := by rw [napBound, hk.disconnectAt, hk.now, napBound]
  constructor
  · rw [hk.isRunning, hk.disc]
    exact hs.running
  · rw [hk.disc, hk.disconnectAt]
    exact hs.idle
  · rw [hk.disc, hk.disconnectAt, hk.now]
    exact hs.called
  · rw [hk.disc, hk.disconnectAt, hk.now]
    intro wake hwake
    obtain ⟨d, hd, hw, hle, hp⟩ := hs.asleep wake hwake
    have hrun := hs.stopped (by rw [hwake]; exact DiscPc.noConfusion)
    exact ⟨d, hd, hw, hle, fun he => hparked hrun (hp he)⟩
  · exact fun hd => hoff (hs.lowOff hd)
  · rw [hk.disc]
    exact fun h => hhigh (hs.stopsHigh h)
  · rw [hk.disc]
    exact fun h => hlow (hs.stopsLow h)
  · rw [hk.disc]
    exact fun h => haudio (hs.stopsAudio h)
  · rw [hbound]
    exact fun wake h => (hnh wake h).elim (hs.napsHigh wake) hs.fresh
  · rw [hbound]
    exact fun wake h => (hna wake h).elim (hs.napsAudio wake) hs.fresh

theorem highStep_live (hs : Live cfg s) (h : highStep fl cfg s = some t) : Live cfg t := by
  have hf := highStep_frame h
  refine hs.of_kept hf.toKept ?_ ?_ ?_ ?_ ?_ ?_ ?_
  · intro hrun hp
    refine ⟨.inl ?_, hf.low.trans hp.low, hf.audio ▸ hp.audio⟩
    rcases hp.high with hdone | hsleep
    · rw [highStep_done hdone] at h
      cases h
    · exact highStep_wakes hsleep hrun h
  · rw [hf.low]
    exact id
  · exact fun hstops => highStep_stops hstops h
  · rw [LowStops, LowStops, hf.low]
    exact Or.imp_right fun hq => hq.mono hf.videoQueueLow
  · rw [AudioStops, AudioStops, hf.audio, hf.audioJB]
    exact id
  · exact fun wake hwake => .inr (highStep_naps h wake hwake)
  · rw [hf.audio]
    exact fun _ => .inl

theorem lowStep_live (hs : Live cfg s) (h : lowStep fl cfg s = some t) : Live cfg t := by
  have hf := lowStep_frame h
  have hlow : s.low ≠ .done := by
    intro hd
    rw [lowStep_done hd] at h
    cases h
  refine hs.of_kept hf.toKept (fun _ hp => absurd hp.low hlow) (fun hd => absurd hd hlow) ?_ ?_ ?_ ?_ ?_
  · rw [HighStops, HighStops, hf.high, hf.videoJB]
    exact id
  · exact fun hstops => lowStep_stops hstops h
  · rw [AudioStops, AudioStops, hf.audio, hf.audioJB]
    exact id
  · rw [hf.high]
    exact fun _ => .inl
  · rw [hf.audio]
    exact fun _ => .inl

theorem audioStep_live (hs : Live cfg s) (h : audioStep fl s = some t) : Live cfg t := by
  have hf := audioStep_frame h
  refine hs.of_kept hf.toKept ?_ ?_ ?_ ?_ ?_ ?_ ?_
  · intro hrun hp
    refine ⟨hf.high ▸ hp.high, hf.low.trans hp.low, .inl ?_⟩
    rcases hp.audio with hdone | hsleep
    · rw [audioStep_done hdone] at h
      cases h
    · exact audioStep_wakes hsleep hrun h
  · rw [hf.low]
    exact id
  · rw [HighStops, HighStops, hf.high, hf.videoJB]
    exact id
  · rw [LowStops, LowStops, hf.low, hf.videoQueueLow]
    exact id
  · exact fun hstops => audioStep_stops hstops h
  · rw [hf.high]
    exact fun _ => .inl
  · exact fun wake hwake => .inr (audioStep_naps h wake hwake)

theorem producer_live (hs : Live cfg s) (hf : ProducerFrame s t) : Live cfg t := by
  refine hs.of_kept hf.toKept ?_ ?_ ?_ ?_ ?_ ?_ ?_
  · exact fun _ hp => ⟨hf.high ▸ hp.high, hf.low.trans hp.low, hf.audio ▸ hp.audio⟩
  · rw [hf.low]
    exact id
  · rw [HighStops, HighStops, hf.high]
    exact Or.imp_right fun hq => hq.mono hf.videoJB
  · rw [LowStops, LowStops, hf.low, hf.videoQueueLow]
    exact id
  · rw [AudioStops, AudioStops, hf.audio]
    exact Or.imp_right fun hq => hq.mono hf.audioJB
  · rw [hf.high]
    exact fun _ => .inl
  · rw [hf.audio]
    exact fun _ => .inl

/-- A step of `agora_disconnect` between its call and its sleep. -/
theorem Live.of_called (hs : Live cfg s) (hf : DiscFrame s t) (hrun : t.isRunning = s.isRunning)
    (hd : t.disconnectAt = s.disconnectAt) {a b : DiscPc} (ha : s.disc = a) (hb : t.disc = b)
    (ha1 : 1 ≤ a.stage) (ha4 : a.stage ≤ 4) (hb2 : 2 ≤ b.stage) (hb4 : b.stage ≤ 4)
    (hhigh : HighStops t) (hlow : 4 ≤ b.stage → LowStops t) : Live cfg t := by
  have hbound : napBound t = napBound s := by rw [napBound, hd, hf.now, napBound]
  subst ha hb
  constructor
  · rw [hrun]
    intro h
    rw [hs.running h] at ha1
    simp at ha1
  · intro hidle
    rw [hidle] at hb2
    simp at hb2
  · rw [hd, hf.now]
    exact fun _ _ => hs.called ha1 ha4
  · intro wake hwake
    rw [hwake] at hb4
    simp at hb4
  · rw [hf.low]
    exact hs.lowOff
  · exact fun _ => hhigh
  · exact hlow
  · intro h5
    omega
  · rw [hbound, hf.high]
    exact hs.napsHigh
  · rw [hbound, hf.audio]
    exact hs.napsAudio

theorem discStep_live {ok : Bool} (hs : Live cfg s) (h : discStep cfg s ok = some t) : Live cfg t := by
  have hfr := discStep_frame h
  cases discStepped h with
  | call hpc =>
    have hbound : napBound s = s.now + 10 := by rw [napBound, hs.idle hpc, Option.getD_none]
    exact { hs with
      running := fun h => by cases h
      idle := fun h => by cases h
      called := fun _ _ => rfl
      asleep := fun _ h => by cases h
      stopsHigh := fun h => by simp at h
      stopsLow := fun h => by simp at h
      stopsAudio := fun h => by simp at h
      napsHigh := fun wake hwake => (hs.napsHigh wake hwake).trans hbound.le
      napsAudio := fun wake hwake => (hs.napsAudio wake hwake).trans hbound.le }
  | addVideo hpc =>
    refine hs.of_called hfr rfl rfl hpc rfl (by simp) (by simp) ?_ ?_ (.inr (hasSentinel_append _ _)) ?_
    · split <;> simp
    · split <;> simp
    · intro h4
      refine .inl (hs.lowOff ?_)
      cases hdual : cfg.enableDual with
      | false => rfl
      | true => simp [hdual] at h4
  | clearLow hpc =>
    exact hs.of_called hfr rfl rfl hpc rfl (by simp) (by simp) (by simp)
      (by simp) (hs.stopsHigh (by simp [hpc])) (fun h4 => by simp at h4)
  | addLow hpc =>
    exact hs.of_called hfr rfl rfl hpc rfl (by simp) (by simp) (by simp)
      (by simp) (hs.stopsHigh (by simp [hpc])) (fun _ => .inr (hasSentinel_append _ _))
  | addAudio hpc =>
    have hd := hs.called (by simp [hpc]) (by simp [hpc])
    exact { hs with
      running := fun h => by rw [hs.running h] at hpc; cases hpc
      idle := fun h => by cases h
      called := fun _ h => by simp at h
      asleep := fun wake h => by
        cases h
        exact ⟨s.now, hd, rfl, Nat.le_add_right _ _, fun he => by simp at he⟩
      stopsHigh := fun _ => hs.stopsHigh (by simp [hpc])
      stopsLow := fun _ => hs.stopsLow (by simp [hpc])
      stopsAudio := fun _ => .inr (hasSentinel_append _ _) }
  | finish wake hpc _ =>
    exact { hs with
      running := fun h => by rw [hs.running h] at hpc; cases hpc
      idle := fun h => by cases h
      called := fun _ h => by simp at h
      asleep := fun _ h => by cases h
      stopsHigh := fun _ => hs.stopsHigh (by simp [hpc])
      stopsLow := fun _ => hs.stopsLow (by simp [hpc])
      stopsAudio := fun _ => hs.stopsAudio (by simp [hpc]) }

/-- One millisecond before `agora_disconnect` goes on, handlers that cannot step are parked. -/
theorem parked_of_blocked (hs : Live cfg s) {d : Nat} (hd : s.disconnectAt = some d)
    (hstage : 5 ≤ s.disc.stage) (hnow : s.now + 1 = d + 2000) (hhigh : highStep fl cfg s = none)
    (hlow : lowStep fl cfg s = none) (haudio : audioStep fl s = none) : Parked s := by
  have hbound : napBound s = d + 10 := by rw [napBound, hd, Option.getD_some]
  constructor
  · rcases highStep_blocked (hs.stopsHigh (by omega)) hhigh with hdone | ⟨wake, hwake, hlt⟩ | hsleep
    · exact .inl hdone
    · have hle := hs.napsHigh wake hwake
      omega
    · exact .inr hsleep
  · exact lowStep_blocked (hs.stopsLow (by omega)) hlow
  · rcases audioStep_blocked (hs.stopsAudio hstage) haudio with hdone | ⟨wake, hwake, hlt⟩ | hsleep
    · exact .inl hdone
    · have hle := hs.napsAudio wake hwake
      omega
    · exact .inr hsleep

theorem discStep_called {ok : Bool} (hlo : 1 ≤ s.disc.stage) (hhi : s.disc.stage ≤ 4) :
    discStep cfg s ok ≠ none := by
  unfold discStep
  cases hpc : s.disc <;> simp [hpc] at hlo hhi ⊢

theorem discStep_asleep {ok : Bool} {wake : Nat} (hpc : s.disc = .sleep wake)
    (h : discStep cfg s ok = none) : s.now < wake := by
  unfold discStep at h
  rw [hpc] at h
  by_contra hle
  simp [Nat.not_lt.mp hle] at h

theorem tick_live (hs : Live cfg s) (hf : s.freed = false) (hw : Waiting fl cfg s) :
    Live cfg { s with now := s.now + 1 } := by
  obtain ⟨hhigh, hlow, haudio, hdisc⟩ := hw
  simp only [system, hf, Bool.false_eq_true, if_false, liveStep] at hhigh hlow haudio hdisc
  have hbound : napBound s ≤ napBound { s with now := s.now + 1 } := by
    simp only [napBound]
    cases s.disconnectAt <;> simp
  refine { hs with
    called := ?_
    asleep := ?_
    napsHigh := fun wake hwake => (hs.napsHigh wake hwake).trans hbound
    napsAudio := fun wake hwake => (hs.napsAudio wake hwake).trans hbound }
  · intro hlo hhi
    rcases hdisc with hidle | hdisc
    · simp [hidle] at hlo
    · exact absurd hdisc (discStep_called hlo hhi)
  · intro wake hpc
    obtain ⟨d, hd, hwake, -, -⟩ := hs.asleep wake hpc
    have hlt : s.now < wake := by
      rcases hdisc with hidle | hdisc
      · rw [show s.disc = .sleep wake from hpc] at hidle
        cases hidle
      · exact discStep_asleep hpc hdisc
    refine ⟨d, hd, hwake, hlt, fun hlast => ?_⟩
    have hstage : 5 ≤ s.disc.stage := by
      rw [show s.disc = .sleep wake from hpc]
      exact Nat.le_refl 5
    have hp := parked_of_blocked hs hd hstage (hlast.trans hwake) hhigh hlow haudio
    exact ⟨hp.high, hp.low, hp.audio⟩

theorem liveStep_live {l : Label} (hs : Live cfg s) (hf : s.freed = false) (hprompt : Prompt fl cfg s l)
    (h : (system fl cfg).step s l = some t) : Live cfg t := by
  cases stepped h with
  | deleted hfreed =>
    rw [hf] at hfreed
    cases hfreed
  | tick => exact tick_live hs hf (hprompt rfl)
  | video buffer isKeyFrame timestamp => exact producer_live hs (addVideo_frame buffer isKeyFrame timestamp)
  | fps timestamp => exact producer_live hs (finishVideo_frame timestamp)
  | audio buffer timestamp => exact producer_live hs (addAudio_frame buffer timestamp)
  | high _ h => exact highStep_live hs h
  | low _ h => exact lowStep_live hs h
  | listen _ h => exact audioStep_live hs h
  | disconnect ok _ h => exact discStep_live hs h

/-! ## After the deletion -/

/-- Only `agora_disconnect` deletes, and no live step touches a deleted context. -/
theorem liveStep_kept {l : Label} (hf : s.freed = false) (h : (system fl cfg).step s l = some t) :
    t.uaf = s.uaf ∧ (t.freed = s.freed ∨ (∃ ok, l = .disconnect ok ∧ discStep cfg s ok = some t)) := by
  cases stepped h with
  | deleted hfreed =>
    rw [hf] at hfreed
    cases hfreed
  | tick | video | audio => exact ⟨rfl, .inl rfl⟩
  | fps timestamp =>
    have hfr : ProducerFrame s (finishVideo fl s timestamp) := finishVideo_frame timestamp
    exact ⟨hfr.uaf, .inl hfr.freed⟩
  | high _ h => exact ⟨(highStep_frame h).uaf, .inl (highStep_frame h).freed⟩
  | low _ h => exact ⟨(lowStep_frame h).uaf, .inl (lowStep_frame h).freed⟩
  | listen _ h => exact ⟨(audioStep_frame h).uaf, .inl (audioStep_frame h).freed⟩
  | disconnect ok _ h => exact ⟨(discStep_frame h).uaf, .inr ⟨ok, rfl, h⟩⟩

/-- At the deletion every handler is parked. -/
theorem discStep_deletes {ok : Bool} (hs : Live cfg s) (hf : s.freed = false)
    (h : discStep cfg s ok = some t) (hfreed : t.freed = true) : Deletes s (.disconnect ok) ∧ Parked s := by
  cases discStepped h with
  | finish wake hpc hwake =>
    obtain ⟨d, -, -, hle, hp⟩ := hs.asleep wake hpc
    exact ⟨⟨by rw [hpc]; rfl, congrArg Label.disconnect hfreed⟩, hp (by omega)⟩
  | _ =>
    rw [hf] at hfreed
    cases hfreed

theorem step_freed {l : Label} (hf : s.freed = true) : (system fl cfg).step s l = touchFreed s l := by
  simp only [system, hf, if_true]

theorem step_live {l : Label} (hf : s.freed = false) : (system fl cfg).step s l = liveStep fl cfg s l := by
  simp only [system, hf, Bool.false_eq_true, if_false]

structure Over (s : Call F) : Prop where
  high : s.high = .done
  low : s.low = .done
  audio : s.audio = .done

theorem Parked.over (hp : Parked s) (h : ¬ Paced s) : Over s :=
  ⟨hp.high.resolve_right fun hsleep => h (.inl hsleep), hp.low,
    hp.audio.resolve_right fun hsleep => h (.inr hsleep)⟩

structure Safe (cfg : Config) (s : Call F) : Prop where
  uaf : s.uaf = false
  live : s.freed = false → Live cfg s
  ended : s.freed = true → Over s

theorem touchFreed_safe {l : Label} (hs : Safe cfg s) (hf : s.freed = true) (h : touchFreed s l = some t) :
    Safe cfg t := by
  have ho := hs.ended hf
  cases freedTouched h with
  | tick =>
    refine ⟨hs.uaf, fun hn => ?_, fun _ => ⟨ho.high, ho.low, ho.audio⟩⟩
    cases hf.symm.trans hn
  | stop _ _ hpc _ =>
    rw [ho.high] at hpc
    cases hpc
  | high hdone => exact absurd ho.high hdone
  | low hdone => exact absurd ho.low hdone
  | listen hdone => exact absurd ho.audio hdone

theorem step_safe {l : Label} (hok : Careful fl cfg s l) (hs : Safe cfg s)
    (h : (system fl cfg).step s l = some t) : Safe cfg t := by
  obtain ⟨hprompt, hdel⟩ := hok
  cases hf : s.freed with
  | true =>
    rw [step_freed hf] at h
    exact touchFreed_safe hs hf h
  | false =>
    have hlive := hs.live hf
    obtain ⟨huaf, hkept⟩ := liveStep_kept hf h
    refine ⟨huaf.trans hs.uaf, fun _ => liveStep_live hlive hf hprompt h, fun hft => ?_⟩
    rcases hkept with hsame | ⟨ok, rfl, hd⟩
    · rw [hft, hf] at hsame
      cases hsame
    · obtain ⟨hdeletes, hp⟩ := discStep_deletes hlive hf hd hft
      have ho := hp.over (hdel hdeletes)
      have hfr := discStep_frame hd
      exact ⟨hfr.high.trans ho.high, hfr.low.trans ho.low, hfr.audio.trans ho.audio⟩

theorem prompt_live (h : (system fl cfg).Run (Prompt fl cfg) (init fl cfg) s) :
    s.freed = false → Live cfg s := by
  refine h.invariant (I := fun s => s.freed = false → Live cfg s) ?_ fun _ => live_init
  intro s l t hprompt hs hstep hft
  cases hf : s.freed with
  | true =>
    rw [step_freed hf] at hstep
    rw [(touchFreed_frame hstep).1, hf] at hft
    cases hft
  | false => exact liveStep_live (hs hf) hf hprompt hstep

/-- A parked handler that cannot step is done or still asleep; if it can, it touches the context. -/
theorem parked_high (hp : Parked s) :
    (touchFreed s .high = none ∧ ∀ w, s.high.sleepsUntil = some w → (s.now : Int) < w) ∨
      touchFreed s .high = some { s with uaf := true } := by
  rcases hp.high with hdone | hsleep
  · refine .inl ⟨by simp only [touchFreed, hdone], fun w hw => ?_⟩
    rw [hdone] at hw
    cases hw
  · obtain ⟨w, hw⟩ := sleeping_high hsleep
    simp only [touchFreed, hw, asleep, decide_eq_true_eq]
    split
    · next hlt =>
      refine .inl ⟨rfl, fun v hv => ?_⟩
      cases hv
      exact hlt
    · exact .inr rfl

theorem parked_audio (hp : Parked s) :
    (touchFreed s .listen = none ∧ ∀ w, s.audio.sleepsUntil = some w → (s.now : Int) < w) ∨
      touchFreed s .listen = some { s with uaf := true } := by
  rcases hp.audio with hdone | hsleep
  · refine .inl ⟨by simp only [touchFreed, hdone, true_or, if_true], fun w hw => ?_⟩
    rw [hdone] at hw
    cases hw
  · obtain ⟨w, hw⟩ := sleeping_audio hsleep
    simp only [touchFreed, hw, audioAsleep, decide_eq_true_eq, reduceCtorEq, false_or]
    split
    · next hlt =>
      refine .inl ⟨rfl, fun v hv => ?_⟩
      cases hv
      exact hlt
    · exact .inr rfl

theorem parked_next (hf : s.freed = true) (hp : Parked s) :
    (∃ u, (system fl cfg).Run (Prompt fl cfg) s u ∧ u.uaf = true) ∨
      (Waiting fl cfg s ∧
        ∀ w, s.high.sleepsUntil = some w ∨ s.audio.sleepsUntil = some w → (s.now : Int) < w) := by
  rcases parked_high hp with ⟨hhigh, hlate⟩ | hhigh
  · rcases parked_audio hp with ⟨haudio, hlate'⟩ | haudio
    · have hlow : touchFreed s .low = none := by simp only [touchFreed, hp.low, if_true]
      refine .inr ⟨?_, fun w hw => hw.elim (hlate w) (hlate' w)⟩
      simp only [Waiting, step_freed hf]
      exact ⟨hhigh, hlow, haudio, .inr rfl⟩
    · exact .inl ⟨_, .tail .listen .refl (fun h => by cases h) ((step_freed hf).trans haudio), rfl⟩
  · exact .inl ⟨_, .tail .high .refl (fun h => by cases h) ((step_freed hf).trans hhigh), rfl⟩

/-- Induction on the time until a pacing handler wakes. -/
theorem paced_touches (n : Nat) : ∀ {s : Call F}, s.freed = true → Parked s →
    (∃ w, (s.high.sleepsUntil = some w ∨ s.audio.sleepsUntil = some w) ∧ w ≤ s.now + n) →
    ∃ u, (system fl cfg).Run (Prompt fl cfg) s u ∧ u.uaf = true := by
  induction n with
  | zero =>
    intro s hf hp ⟨w, hw, hle⟩
    rcases parked_next hf hp with hdone | ⟨-, hlate⟩
    · exact hdone
    · have hlt := hlate w hw
      omega
  | succ n ih =>
    intro s hf hp ⟨w, hw, hle⟩
    rcases parked_next hf hp with hdone | ⟨hwait, -⟩
    · exact hdone
    · have htick : (system fl cfg).step s .tick = some { s with now := s.now + 1 } := step_freed hf
      obtain ⟨u, hrun, hu⟩ := ih (s := { s with now := s.now + 1 }) hf ⟨hp.high, hp.low, hp.audio⟩
        ⟨w, hw, by push_cast; omega⟩
      exact ⟨u, (LTS.Run.tail .tick .refl (fun _ => hwait) htick).trans hrun, hu⟩

/-- A deletion under a pacing handler: the handler wakes and touches the context. -/
theorem deletes_touches {l : Label} (h : (system fl cfg).Run (Prompt fl cfg) (init fl cfg) s)
    (hdel : Deletes s l) (hpaced : Paced s) (hstep : (system fl cfg).step s l = some t) :
    ∃ u, (system fl cfg).Run (Prompt fl cfg) t u ∧ u.uaf = true := by
  obtain ⟨hstage, rfl⟩ := hdel
  cases hf : s.freed with
  | true =>
    rw [step_freed hf] at hstep
    cases hstep
  | false =>
    rw [step_live hf] at hstep
    have hfr := discStep_frame hstep
    have hfreed : t.freed = true := by
      cases discStepped hstep with
      | finish => rfl
      | call hpc | addVideo hpc | clearLow hpc | addLow hpc | addAudio hpc =>
        rw [hpc] at hstage
        cases hstage
    obtain ⟨-, hp⟩ := discStep_deletes (prompt_live h hf) hf hstep hfreed
    have hp' : Parked t := ⟨hfr.high ▸ hp.high, hfr.low.trans hp.low, hfr.audio ▸ hp.audio⟩
    obtain ⟨w, hw⟩ : ∃ w, t.high.sleepsUntil = some w ∨ t.audio.sleepsUntil = some w := by
      rw [hfr.high, hfr.audio]
      rcases hpaced with hsleep | hsleep
      · obtain ⟨w, hw⟩ := Option.ne_none_iff_exists'.mp hsleep
        exact ⟨w, .inl hw⟩
      · obtain ⟨w, hw⟩ := Option.ne_none_iff_exists'.mp hsleep
        exact ⟨w, .inr hw⟩
    exact paced_touches (w - t.now).toNat hfreed hp' ⟨w, hw, by omega⟩

/-- The context is safe exactly when no handler is pacing while it is deleted. -/
theorem no_use_after_delete (fl : Floats F) (cfg : Config) :
    (∀ s, (system fl cfg).Run (Careful fl cfg) (init fl cfg) s → s.uaf = false) ∧
    ∀ s l t, (system fl cfg).Run (Prompt fl cfg) (init fl cfg) s → Deletes s l → Paced s →
      (system fl cfg).step s l = some t → ∃ u, (system fl cfg).Run (Prompt fl cfg) t u ∧ u.uaf = true := by
  refine ⟨fun s h => ?_, fun s l t h hdel hpaced hstep => deletes_touches h hdel hpaced hstep⟩
  have hsafe : Safe cfg s :=
    h.invariant (fun _ _ _ hok hs hstep => step_safe hok hs hstep)
      ⟨rfl, fun _ => live_init, fun hf => by cases hf⟩
  exact hsafe.uaf

/-! ## Two calls -/

instance [DecidableEq F] (fl : Floats F) (cfg : Config) (s : Call F) : Decidable (Waiting fl cfg s) :=
  inferInstanceAs (Decidable (_ ∧ _ ∧ _ ∧ (_ ∨ _)))

instance [DecidableEq F] (fl : Floats F) (cfg : Config) (s : Call F) (l : Label) :
    Decidable (Prompt fl cfg s l) := inferInstanceAs (Decidable (_ → _))

instance (s : Call F) (l : Label) : Decidable (Deletes s l) := inferInstanceAs (Decidable (_ ∧ _))

instance (s : Call F) : Decidable (Paced s) := inferInstanceAs (Decidable (_ ∨ _))

instance [DecidableEq F] (fl : Floats F) (cfg : Config) (s : Call F) (l : Label) :
    Decidable (Careful fl cfg s l) := inferInstanceAs (Decidable (_ ∧ (_ → ¬ _)))

theorem run_ticks {ok : Call F → Label → Prop} (n : Nat)
    (h : ∀ k < n, ok { s with now := s.now + k } .tick) : (system fl cfg).Run ok s { s with now := s.now + n } := by
  induction n with
  | zero => exact .refl
  | succ n ih =>
    refine .tail .tick (ih fun k hk => h k (by omega)) (h n (by omega)) ?_
    simp only [system, touchFreed, liveStep, ite_self]
    rfl

/-- The two seconds of `agora_disconnect`, with a High handler that is done or sleeps through them. -/
theorem run_shutdown {ok : Call F → Label → Prop} (hok : ∀ u, Waiting fl cfg u → ok u .tick)
    (hf : s.freed = false) (hdisc : s.disc = .sleep (s.now + 2000)) (hlow : s.low = .done)
    (haudio : s.audio = .done)
    (hhigh : s.high = .done ∨ ∃ w, s.high = .sleep w ∧ (s.now : Int) + 2000 ≤ w) :
    (system fl cfg).Run ok s { s with now := s.now + 2000 } := by
  refine run_ticks 2000 fun k hk => hok _ ?_
  simp only [Waiting, step_live (s := { s with now := s.now + k }) hf, liveStep]
  refine ⟨?_, lowStep_done hlow, audioStep_done haudio, .inr ?_⟩
  · rcases hhigh with hdone | ⟨w, hw, hlt⟩
    · exact highStep_done hdone
    · unfold highStep
      simp only [hw]
      rw [if_neg (by push_cast; omega)]
  · unfold discStep
    simp only [hdisc]
    rw [if_neg (by omega)]

/-- One stream, no jitter buffer. -/
def streamConfig : Config := ⟨false, 0, 0, 0, 10, 0⟩

/-- The first frame has timestamp 5000, `agora_disconnect` is called at once. -/
def sleeperSteps : List Label :=
  [.listen, .video [1] true 5000, .fps, .high, .high, .high, .high, .high, .high, .high, .disconnect true,
    .disconnect true, .disconnect true, .listen, .listen]

def sleeper : Call Rat :=
  ((system rationals streamConfig).exec (Prompt rationals streamConfig) (init rationals streamConfig)
    sleeperSteps).getD (init rationals streamConfig)

theorem sleeper_starts : (system rationals streamConfig).Run (Prompt rationals streamConfig)
    (init rationals streamConfig) sleeper :=
  LTS.run_of_exec sleeperSteps (by decide +kernel)

theorem sleeper_sleeps : (system rationals streamConfig).Run (Prompt rationals streamConfig) sleeper
    { sleeper with now := sleeper.now + 2000 } :=
  run_shutdown (fun _ hw _ => hw) (by decide +kernel) (by decide +kernel) (by decide +kernel)
    (by decide +kernel) (.inr ⟨5000, by decide +kernel, by decide +kernel⟩)

theorem sleeper_deletes : ∃ t, (system rationals streamConfig).step
    { sleeper with now := sleeper.now + 2000 } (.disconnect true) = some t :=
  Option.isSome_iff_exists.mp (by decide +kernel)

theorem deleted_under_sleeper :
    (system rationals streamConfig).Run (Prompt rationals streamConfig) (init rationals streamConfig) sleeper ∧
    ¬ ∀ u, (system rationals streamConfig).Run (Prompt rationals streamConfig) sleeper u → u.uaf = false := by
  refine ⟨sleeper_starts, fun h => ?_⟩
  obtain ⟨t, ht⟩ := sleeper_deletes
  obtain ⟨u, hu, huaf⟩ := deletes_touches (sleeper_starts.trans sleeper_sleeps) (by decide +kernel)
    (by decide +kernel) ht
  have hrun := sleeper_sleeps.tail (.disconnect true) (fun hl => by cases hl) ht
  rw [h u (hrun.trans hu)] at huaf
  cases huaf

/-- A frame and a packet, up to the sleep behind them. -/
def quietRound : List Label := List.replicate 7 .high ++ List.replicate 6 .listen

/-- Two of both, and `agora_disconnect` when both handlers wait for more. -/
def quietSteps : List Label :=
  List.flatten [[.video [1] true 40, .fps, .audio [2] 40, .video [3] false 80, .fps, .audio [4] 80], quietRound,
    List.replicate 38 .tick, quietRound, List.replicate 40 .tick, [.high, .high, .listen],
    List.replicate 3 (.disconnect true), [.listen, .listen], List.replicate 5 .high]

def quiet : Call Rat :=
  ((system rationals streamConfig).exec (Careful rationals streamConfig) (init rationals streamConfig)
    quietSteps).getD (init rationals streamConfig)

theorem no_use_after_delete_quiet :
    (quiet.sentHigh.length = 2 ∧ quiet.sentAudio.length = 2 ∧
      ∃ t, (system rationals streamConfig).step { quiet with now := quiet.now + 2000 } (.disconnect true) =
        some t ∧ t.freed = true ∧ t.uaf = false) ∧
    ∃ u, (system rationals streamConfig).Run (Prompt rationals streamConfig) (init rationals streamConfig) u ∧
      u.uaf = true := by
  constructor
  · obtain ⟨t, ht, hfreed⟩ : ∃ t, (system rationals streamConfig).step
        { quiet with now := quiet.now + 2000 } (.disconnect true) = some t ∧ t.freed = true :=
      ⟨_, (Option.some_get (by decide +kernel)).symm, by decide +kernel⟩
    have hstart : (system rationals streamConfig).Run (Careful rationals streamConfig)
        (init rationals streamConfig) quiet := LTS.run_of_exec quietSteps (by decide +kernel)
    have hrun := hstart.trans (run_shutdown (fun u hw => ⟨fun _ => hw, fun hd => by cases hd.2⟩)
      (by decide +kernel) (by decide +kernel) (by decide +kernel) (by decide +kernel)
      (.inl (by decide +kernel)))
    exact ⟨by decide +kernel, by decide +kernel, t, ht, hfreed, (no_use_after_delete rationals streamConfig).1 t
      (hrun.tail (.disconnect true) (by decide +kernel) ht)⟩
  · obtain ⟨t, ht⟩ := sleeper_deletes
    have hrun := sleeper_starts.trans sleeper_sleeps
    obtain ⟨u, hu, huaf⟩ := (no_use_after_delete rationals streamConfig).2 _ _ t hrun (by decide +kernel)
      (by decide +kernel) ht
    exact ⟨u, (hrun.tail (.disconnect true) (fun hl => by cases hl) ht).trans hu, huaf⟩

end Rtmpg.Agorac
