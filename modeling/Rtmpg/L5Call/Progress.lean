import Rtmpg.L5Call.Ending
import Rtmpg.L5Call.Handover

/-!
# What is accepted goes out

A call that nobody disconnects (`libagorac/agorac.cpp:432-563`), on a path on
which time goes on and every handler that can step does some time. `ahead` is
how many steps of its own a handler is before its next hand-over: `fill` and
`nap` at most 200 times each (`helpers/utilities.cpp:93`).

* `opened_reachable`: before `agora_disconnect` no sentinel is on its way and
  no handler has ended.
* `accepted_video_sent`: every accepted frame is sent, and processed by the
  Low handler in dual mode, in its place.
* `accepted_audio_sent`: so is accepted audio, unless the video buffers again
  and again: the audio handler looks at `isJbBuffering` every 10 ms only, and
  may find it set every time.
-/
namespace Rtmpg.Agorac

variable {F : Type} {fl : Floats F} {cfg : Config} {s t : Call F}

/-! ## Before the disconnect -/

theorem not_hasSentinel_concat {l : List Work} {work : Work} (hl : ¬ HasSentinel l) (hf : work.isFinished = false) :
    ¬ HasSentinel (l ++ [work]) := by
  rintro ⟨w, hmem, hw⟩
  rcases List.mem_append.mp hmem with hmem | hmem
  · exact hl ⟨w, hmem, hw⟩
  · rw [List.mem_singleton.mp hmem, hf] at hw
    cases hw

theorem not_hasSentinel_cons {work : Work} {rest : List Work} (h : ¬ HasSentinel (work :: rest)) :
    work.isFinished = false ∧ ¬ HasSentinel rest := by
  refine ⟨Bool.eq_false_of_not_eq_true fun hf => h ⟨work, List.mem_cons_self, hf⟩, ?_⟩
  rintro ⟨w, hmem, hw⟩
  exact h ⟨w, List.mem_cons_of_mem _ hmem, hw⟩

structure Opened (cfg : Config) (s : Call F) : Prop where
  alive : s.freed = false
  running : s.isRunning = true
  videoJB : ¬ HasSentinel s.videoJB
  videoQueueLow : ¬ HasSentinel s.videoQueueLow
  audioJB : ¬ HasSentinel s.audioJB
  high : s.high.stopping = false
  low : cfg.enableDual = true → s.low ≠ .done
  audio : s.audio ≠ .done

theorem highStep_opened (hr : Relayed cfg s) (hs : Opened cfg s) (h : highStep fl cfg s = some t) :
    ¬ HasSentinel t.videoJB ∧ ¬ HasSentinel t.videoQueueLow ∧ t.high.stopping = false := by
  have hhigh := hs.high
  cases highStepped h with
  | test | sleep =>
    rw [hs.running]
    exact ⟨hs.videoJB, hs.videoQueueLow, rfl⟩
  | null hpc hnil => exact absurd hnil (videoJB_ne_nil hr.handover hpc)
  | take work rest hpc hq =>
    obtain ⟨hf, hrest⟩ := not_hasSentinel_cons (hq ▸ hs.videoJB)
    refine ⟨hrest, hs.videoQueueLow, ?_⟩
    cases cfg.enableDual <;> exact hf
  | forward work hpc =>
    rw [hpc] at hhigh
    exact ⟨hs.videoJB, not_hasSentinel_concat hs.videoQueueLow hhigh, hhigh⟩
  | top work hpc | size work _ hpc =>
    rw [hpc] at hhigh
    exact ⟨hs.videoJB, hs.videoQueueLow, hhigh⟩
  | stop work nextSample hpc hf =>
    rw [hpc] at hhigh
    exact absurd hf (Bool.eq_false_iff.mp hhigh)
  | _ => exact ⟨hs.videoJB, hs.videoQueueLow, rfl⟩

theorem lowStep_opened (hs : Opened cfg s) (h : lowStep fl cfg s = some t) :
    ¬ HasSentinel t.videoQueueLow ∧ t.low ≠ .done := by
  cases lowStepped h with
  | test | null =>
    rw [hs.running]
    exact ⟨hs.videoQueueLow, LowPc.noConfusion⟩
  | take work rest hpc hq =>
    obtain ⟨hf, hrest⟩ := not_hasSentinel_cons (hq ▸ hs.videoQueueLow)
    rw [hf]
    exact ⟨hrest, LowPc.noConfusion⟩
  | _ => exact ⟨hs.videoQueueLow, LowPc.noConfusion⟩

theorem audioStep_opened (hs : Opened cfg s) (h : audioStep fl s = some t) :
    ¬ HasSentinel t.audioJB ∧ t.audio ≠ .done := by
  cases audioStepped h with
  | test | null | sleep =>
    rw [hs.running]
    exact ⟨hs.audioJB, AudioPc.noConfusion⟩
  | take work rest hpc hq =>
    obtain ⟨hf, hrest⟩ := not_hasSentinel_cons (hq ▸ hs.audioJB)
    rw [hf]
    exact ⟨hrest, AudioPc.noConfusion⟩
  | _ => exact ⟨hs.audioJB, AudioPc.noConfusion⟩

theorem step_opened (hr : Relayed cfg s) (hs : Opened cfg s) (hidle : s.disc = .idle) {l : Label}
    (h : (system fl cfg).step s l = some t) (hidle' : t.disc = .idle) : Opened cfg t := by
  obtain ⟨halive, hrun, hvideo, hqueue, haudio, hhigh, hlow, haud⟩ := hs
  have hs : Opened cfg s := ⟨halive, hrun, hvideo, hqueue, haudio, hhigh, hlow, haud⟩
  cases stepped h with
  | deleted hf =>
    rw [halive] at hf
    cases hf
  | tick => exact ⟨halive, hrun, hvideo, hqueue, haudio, hhigh, hlow, haud⟩
  | video => exact ⟨halive, hrun, not_hasSentinel_concat hvideo rfl, hqueue, haudio, hhigh, hlow, haud⟩
  | audio => exact ⟨halive, hrun, hvideo, hqueue, not_hasSentinel_concat haudio rfl, hhigh, hlow, haud⟩
  | fps timestamp =>
    rw [finishVideo_eq]
    exact ⟨halive, hrun, hvideo, hqueue, haudio, hhigh, hlow, haud⟩
  | high _ h =>
    obtain ⟨hv, hq, hp⟩ := highStep_opened hr hs h
    rw [highStep_eq h]
    exact ⟨halive, hrun, hv, hq, haudio, hp, hlow, haud⟩
  | low _ h =>
    obtain ⟨hq, hp⟩ := lowStep_opened hs h
    rw [lowStep_eq h]
    exact ⟨halive, hrun, hvideo, hq, haudio, hhigh, fun _ => hp, haud⟩
  | listen _ h =>
    obtain ⟨hq, hp⟩ := audioStep_opened hs h
    rw [audioStep_eq h]
    exact ⟨halive, hrun, hvideo, hqueue, hq, hhigh, hlow, hp⟩
  | disconnect ok _ h =>
    cases discStepped h with
    | call => cases hidle'
    | addVideo hpc | clearLow hpc | addLow hpc | addAudio hpc | finish _ hpc _ =>
      rw [hidle] at hpc
      cases hpc

/-- `agora_disconnect` is called once. -/
theorem idle_before {l : Label} (h : (system fl cfg).step s l = some t) (hidle : t.disc = .idle) :
    s.disc = .idle := by
  cases stepped h with
  | deleted _ h =>
    rw [touchFreed_eq h] at hidle
    exact hidle
  | tick | video | audio => exact hidle
  | fps timestamp =>
    rw [finishVideo_eq] at hidle
    exact hidle
  | high _ h => exact (highStep_frame h).disc ▸ hidle
  | low _ h => exact (lowStep_frame h).disc ▸ hidle
  | listen _ h => exact (audioStep_frame h).disc ▸ hidle
  | disconnect ok _ h =>
    cases discStepped h with
    | addVideo => cases hd : cfg.enableDual <;> rw [hd] at hidle <;> cases hidle
    | _ => cases hidle

theorem opened_init : Opened cfg (init fl cfg) where
  alive := rfl
  running := rfl
  videoJB := not_hasSentinel_nil
  videoQueueLow := not_hasSentinel_nil
  audioJB := not_hasSentinel_nil
  high := rfl
  low hd := by
    simp only [init, hd]
    exact LowPc.noConfusion
  audio := AudioPc.noConfusion

theorem opened_reachable (h : (system fl cfg).Reachable s) (hidle : s.disc = .idle) : Opened cfg s := by
  refine (h.invariant (I := fun s => Relayed cfg s ∧ (s.disc = .idle → Opened cfg s)) (fun s hinit => ?_)
    fun s l t hs hstep => ⟨relayed_step hs.1 hstep, fun hidle => ?_⟩).2 hidle
  · rw [show s = Agorac.init fl cfg from hinit]
    exact ⟨relayed_init, fun _ => opened_init⟩
  · exact step_opened hs.1 (hs.2 (idle_before hstep hidle)) (idle_before hstep hidle) hstep hidle

/-! ## Steps to the next hand-over -/

def HighPc.ahead : HighPc F → Nat
  | .send _ _ => 0
  | .size _ _ => 1
  | .top _ => 2
  | .forward _ => 3
  | .get => 4
  | .wait => 5
  | .fill _ count => 6 + 2 * (200 - count)
  | .nap _ count _ => 7 + 2 * (200 - count)
  | .check => 407
  | .test | .sleep _ => 408
  | .done => 0

def LowPc.ahead : LowPc → Nat
  | .send _ => 0
  | .get => 1
  | .wait => 2
  | .test => 3
  | .done => 0

/-- Without the naps of a video that buffers. -/
def AudioPc.ahead : AudioPc → Nat
  | .hold _ _ => 0
  | .size _ _ | .nap _ _ _ => 1
  | .top _ => 2
  | .get => 3
  | .wait => 4
  | .sleep _ | .test => 5
  | .done => 0

theorem highStep_ahead (hr : Relayed cfg s) (hs : Opened cfg s) (h : highStep fl cfg s = some t) :
    s.sentHigh.length < t.sentHigh.length ∨ t.high.ahead < s.high.ahead := by
  have hhigh := hs.high
  cases highStepped h with
  | test hpc | sleep _ hpc _ =>
    rw [hs.running, hpc]
    exact .inr (Nat.lt_succ_self 407)
  | null hpc hnil => exact absurd hnil (videoJB_ne_nil hr.handover hpc)
  | stop work nextSample hpc hf =>
    rw [hpc] at hhigh
    exact absurd hf (Bool.eq_false_iff.mp hhigh)
  | send => exact .inl (by simp)
  | take work rest hpc =>
    refine .inr ?_
    rw [hpc]
    cases cfg.enableDual <;> simp [HighPc.ahead]
  | nap fps count hpc _ hlt =>
    refine .inr ?_
    simp only [hpc, HighPc.ahead]
    omega
  | starve hpc _ | fed hpc _ | resize _ _ hpc _ _ | full _ _ hpc _ _ | wake _ _ _ hpc _ | wait hpc _ | forward _ hpc
  | top _ hpc | size _ _ hpc =>
    refine .inr ?_
    simp only [hpc, HighPc.ahead]
    omega

theorem lowStep_ahead (hs : Opened cfg s) (hwait : s.low = .get → s.videoQueueLow ≠ [])
    (h : lowStep fl cfg s = some t) :
    s.lowProcessed.length < t.lowProcessed.length ∨ t.low.ahead < s.low.ahead := by
  cases lowStepped h with
  | test hpc =>
    rw [hs.running, hpc]
    exact .inr (Nat.lt_succ_self 2)
  | wait hpc =>
    rw [hpc]
    exact .inr (Nat.lt_succ_self 1)
  | null hpc hnil => exact absurd hnil (hwait hpc)
  | take work rest hpc hq =>
    rw [(not_hasSentinel_cons (hq ▸ hs.videoQueueLow)).1, hpc]
    exact .inr Nat.one_pos
  | send => exact .inl (by simp)

theorem audioStep_ahead (hr : Relayed cfg s) (hs : Opened cfg s) (hbuf : s.isJbBuffering = false)
    (h : audioStep fl s = some t) :
    s.sentAudio.length < t.sentAudio.length ∨ t.audio.ahead < s.audio.ahead := by
  cases audioStepped h with
  | test hpc | sleep _ hpc _ =>
    rw [hs.running, hpc]
    exact .inr (Nat.lt_succ_self 4)
  | null hpc hnil => exact absurd hnil (audioJB_ne_nil hr.handover hpc)
  | take work rest hpc hq =>
    rw [(not_hasSentinel_cons (hq ▸ hs.audioJB)).1, hpc]
    exact .inr (Nat.lt_succ_self 2)
  | nap _ _ _ hbuf' =>
    rw [hbuf] at hbuf'
    cases hbuf'
  | send => exact .inl (by simp)
  | wait hpc _ | top _ hpc | size _ _ hpc | wake _ _ _ hpc _ =>
    refine .inr ?_
    simp only [hpc, AudioPc.ahead]
    omega

/-! ## What only grows -/

structure Grows (s t : Call F) : Prop where
  acceptedVideo : s.acceptedVideo <+: t.acceptedVideo
  acceptedAudio : s.acceptedAudio <+: t.acceptedAudio
  sentHigh : s.sentHigh <+: t.sentHigh
  lowProcessed : s.lowProcessed <+: t.lowProcessed
  sentAudio : s.sentAudio <+: t.sentAudio

theorem Grows.refl (s : Call F) : Grows s s :=
  ⟨List.prefix_rfl, List.prefix_rfl, List.prefix_rfl, List.prefix_rfl, List.prefix_rfl⟩

theorem Grows.trans {u : Call F} (h : Grows s t) (h' : Grows t u) : Grows s u :=
  ⟨h.1.trans h'.1, h.2.trans h'.2, h.3.trans h'.3, h.4.trans h'.4, h.5.trans h'.5⟩

theorem step_grows {l : Label} (h : (system fl cfg).step s l = some t) : Grows s t := by
  cases stepped h with
  | deleted _ h =>
    rw [touchFreed_eq h]
    exact ⟨List.prefix_rfl, List.prefix_rfl, List.prefix_rfl, List.prefix_rfl, List.prefix_rfl⟩
  | tick => exact ⟨List.prefix_rfl, List.prefix_rfl, List.prefix_rfl, List.prefix_rfl, List.prefix_rfl⟩
  | video => exact ⟨List.prefix_append .., List.prefix_rfl, List.prefix_rfl, List.prefix_rfl, List.prefix_rfl⟩
  | audio => exact ⟨List.prefix_rfl, List.prefix_append .., List.prefix_rfl, List.prefix_rfl, List.prefix_rfl⟩
  | fps timestamp =>
    rw [finishVideo_eq]
    exact ⟨List.prefix_rfl, List.prefix_rfl, List.prefix_rfl, List.prefix_rfl, List.prefix_rfl⟩
  | high _ h =>
    cases highStepped h with
    | send => exact ⟨List.prefix_rfl, List.prefix_rfl, List.prefix_append .., List.prefix_rfl, List.prefix_rfl⟩
    | _ => exact ⟨List.prefix_rfl, List.prefix_rfl, List.prefix_rfl, List.prefix_rfl, List.prefix_rfl⟩
  | low _ h =>
    cases lowStepped h with
    | send => exact ⟨List.prefix_rfl, List.prefix_rfl, List.prefix_rfl, List.prefix_append .., List.prefix_rfl⟩
    | _ => exact ⟨List.prefix_rfl, List.prefix_rfl, List.prefix_rfl, List.prefix_rfl, List.prefix_rfl⟩
  | listen _ h =>
    cases audioStepped h with
    | send => exact ⟨List.prefix_rfl, List.prefix_rfl, List.prefix_rfl, List.prefix_rfl, List.prefix_append ..⟩
    | _ => exact ⟨List.prefix_rfl, List.prefix_rfl, List.prefix_rfl, List.prefix_rfl, List.prefix_rfl⟩
  | disconnect ok _ h =>
    rw [discStep_eq h]
    exact ⟨List.prefix_rfl, List.prefix_rfl, List.prefix_rfl, List.prefix_rfl, List.prefix_rfl⟩

/-! ## Along a path -/

section
variable {p : (system fl cfg).Path}

/-- A call nobody disconnects, with time. -/
structure Going (p : (system fl cfg).Path) : Prop where
  reachable : (system fl cfg).Reachable (p.state 0)
  idle : ∀ j, (p.state j).disc = .idle
  time : Diverges p

theorem Going.relayed (hg : Going p) (j : Nat) : Relayed cfg (p.state j) :=
  relayed_reachable (p.reachable hg.reachable j)

theorem Going.opened (hg : Going p) (j : Nat) : Opened cfg (p.state j) :=
  opened_reachable (p.reachable hg.reachable j) (hg.idle j)

theorem path_grows {i j : Nat} (h : i ≤ j) : Grows (p.state i) (p.state j) :=
  p.invariant (I := Grows (p.state i)) (fun _ _ _ hs hstep => hs.trans (step_grows hstep)) (.refl _) j h

/-- With all its frames sent the handler waits; before that it finds one. -/
theorem waiting_high (hr : Relayed cfg s) (hpc : s.high = .wait) (h : s.sentHigh.length < s.acceptedVideo.length) :
    s.videoJB ≠ [] := by
  intro hnil
  have hv := hr.handover.video
  rw [relay_of_high hpc] at hv
  have hall : s.acceptedVideo = s.sentHigh ++ [] ++ media s.videoJB := hv
  rw [hnil, media_nil, List.append_nil, List.append_nil] at hall
  rw [hall] at h
  exact Nat.lt_irrefl _ h

theorem waiting_audio (hr : Relayed cfg s) (hpc : s.audio = .wait)
    (h : s.sentAudio.length < s.acceptedAudio.length) : s.audioJB ≠ [] := by
  intro hnil
  have hv := hr.handover.audio
  rw [relay_of_audio hpc] at hv
  have hall : s.acceptedAudio = s.sentAudio ++ [] ++ media s.audioJB := hv
  rw [hnil, media_nil, List.append_nil, List.append_nil] at hall
  rw [hall] at h
  exact Nat.lt_irrefl _ h

/-- A frame that was sent has been forwarded before. -/
theorem waiting_low (hr : Relayed cfg s) (hdual : cfg.enableDual = true) (hidle : s.disc = .idle)
    (hpc : s.low = .wait ∨ s.low = .get) (h : s.lowProcessed.length < s.sentHigh.length) :
    s.videoQueueLow ≠ [] := by
  intro hnil
  have hkept : s.tookHigh = s.lowProcessed ++ s.low.hand ++ (media s.videoQueueLow ++ media s.high.toForward) :=
    hr.handover.lowKept hdual (by simp only [relay, hidle]; rfl)
  have htook : s.tookHigh = s.sentHigh ++ s.high.hand := hr.handover.took
  have hhand : s.low.hand = [] := by
    rcases hpc with hpc | hpc <;> rw [hpc] <;> rfl
  have hfwd : (media s.high.toForward).length ≤ s.high.hand.length := by
    cases s.high <;> simp [HighPc.toForward, HighPc.hand]
  have hlen := congrArg List.length (htook.symm.trans hkept)
  rw [hnil, hhand] at hlen
  simp only [List.length_append, media_nil, List.length_nil, Nat.zero_add, Nat.add_zero] at hlen
  omega

theorem Going.next_high (hg : Going p) (hfair : p.Fair .high) {i : Nat}
    (hlt : (p.state i).sentHigh.length < (p.state i).acceptedVideo.length) :
    ∃ j ≥ i, (p.state i).sentHigh.length < (p.state j).sentHigh.length := by
  refine LTS.Path.eventually hfair wellFounded_lt (fun s => s.high.ahead)
    (fun s => (p.state i).sentHigh.length < s.sentHigh.length) i (fun j hj hno hl => ?_)
    (fun j _ _ hl => .inr (congrArg HighPc.ahead ((step_others (p.step j)).high hl).1)) fun j hj hnever => ?_
  · rcases highStep_ahead (hg.relayed j) (hg.opened j) (path_live (hg.opened j).alive hl) with hsent | hahead
    · exact .inl (Nat.lt_of_le_of_lt (path_grows hj).sentHigh.length_le hsent)
    · exact .inr hahead
  · refine high_wakes hg.time (fun k hk => (hnever k hk).2) (fun k _ => (hg.opened k).alive) (fun hd => ?_)
      fun k hk hw => ?_
    · have hhigh := (hg.opened j).high
      rw [hd] at hhigh
      cases hhigh
    · refine waiting_high (hg.relayed k) hw ?_
      have hle := (path_grows (p := p) (le_trans hj hk)).acceptedVideo.length_le
      have hno := (hnever k hk).1
      omega

theorem Going.next_low (hg : Going p) (hfair : p.Fair .low) (hdual : cfg.enableDual = true) {i : Nat}
    (hlt : (p.state i).lowProcessed.length < (p.state i).sentHigh.length) :
    ∃ j ≥ i, (p.state i).lowProcessed.length < (p.state j).lowProcessed.length := by
  have hfound : ∀ j ≥ i, ¬ (p.state i).lowProcessed.length < (p.state j).lowProcessed.length →
      (p.state j).low = .wait ∨ (p.state j).low = .get → (p.state j).videoQueueLow ≠ [] := fun j hj hno hpc => by
    have hle := (path_grows (p := p) hj).sentHigh.length_le
    exact waiting_low (hg.relayed j) hdual (hg.idle j) hpc (by omega)
  refine LTS.Path.eventually hfair wellFounded_lt (fun s => s.low.ahead)
    (fun s => (p.state i).lowProcessed.length < s.lowProcessed.length) i (fun j hj hno hl => ?_)
    (fun j _ _ hl => .inr (congrArg LowPc.ahead ((step_others (p.step j)).low hl).1)) fun j hj hnever => ?_
  · rcases lowStep_ahead (hg.opened j) (fun hpc => hfound j hj hno (.inr hpc))
      (path_live (hg.opened j).alive hl) with hsent | hahead
    · exact .inl (Nat.lt_of_le_of_lt (path_grows hj).lowProcessed.length_le hsent)
    · exact .inr hahead
  · exact low_wakes (fun k hk => (hnever k hk).2) (fun k _ => (hg.opened k).alive) ((hg.opened j).low hdual)
      fun k hk hw => hfound k (le_trans hj hk) (hnever k hk).1 (.inl hw)

theorem Going.next_audio (hg : Going p) (hfair : p.Fair .listen) {i : Nat}
    (hbuf : ∀ j ≥ i, (p.state j).isJbBuffering = false)
    (hlt : (p.state i).sentAudio.length < (p.state i).acceptedAudio.length) :
    ∃ j ≥ i, (p.state i).sentAudio.length < (p.state j).sentAudio.length := by
  refine LTS.Path.eventually hfair wellFounded_lt (fun s => s.audio.ahead)
    (fun s => (p.state i).sentAudio.length < s.sentAudio.length) i (fun j hj hno hl => ?_)
    (fun j _ _ hl => .inr (congrArg AudioPc.ahead ((step_others (p.step j)).audio hl).1)) fun j hj hnever => ?_
  · rcases audioStep_ahead (hg.relayed j) (hg.opened j) (hbuf j hj)
      (path_live (hg.opened j).alive hl) with hsent | hahead
    · exact .inl (Nat.lt_of_le_of_lt (path_grows hj).sentAudio.length_le hsent)
    · exact .inr hahead
  · refine audio_wakes hg.time (fun k hk => (hnever k hk).2) (fun k _ => (hg.opened k).alive) (hg.opened j).audio
      fun k hk hw => ?_
    refine waiting_audio (hg.relayed k) hw ?_
    have hle := (path_grows (p := p) (le_trans hj hk)).acceptedAudio.length_le
    have hno := (hnever k hk).1
    omega

theorem Going.sends_high (hg : Going p) (hfair : p.Fair .high) (i : Nat) :
    ∃ j ≥ i, (p.state i).acceptedVideo <+: (p.state j).sentHigh := by
  obtain ⟨j, hj, hle⟩ := LTS.climbs (f := fun j => (p.state j).sentHigh.length)
    (n := (p.state i).acceptedVideo.length) i fun j hj hlt =>
      hg.next_high hfair (Nat.lt_of_lt_of_le hlt (path_grows hj).acceptedVideo.length_le)
  exact ⟨j, hj, List.prefix_of_prefix_length_le (path_grows hj).acceptedVideo
    (hg.relayed j).handover.video.prefix_accepted hle⟩

/-- In a fair run that goes on, every accepted frame is sent, in order, and with the dual stream
processed for the low one too. -/
theorem accepted_video_sent (p : (system fl cfg).Path) (hg : Going p) (hhigh : p.Fair .high)
    (hlow : p.Fair .low) (i : Nat) :
    (∃ j ≥ i, (p.state i).acceptedVideo <+: (p.state j).sentHigh) ∧
      (cfg.enableDual = true → ∃ j ≥ i, (p.state i).acceptedVideo <+: (p.state j).lowProcessed) := by
  obtain ⟨j, hj, hsent⟩ := hg.sends_high hhigh i
  refine ⟨⟨j, hj, hsent⟩, fun hdual => ?_⟩
  obtain ⟨k, hk, hle⟩ := LTS.climbs (f := fun k => (p.state k).lowProcessed.length)
    (n := (p.state i).acceptedVideo.length) j fun k hk hlt =>
      hg.next_low hlow hdual
        (Nat.lt_of_lt_of_le hlt (hsent.length_le.trans (path_grows hk).sentHigh.length_le))
  have hr := hg.relayed k
  have hlow : (p.state k).lowProcessed <+: (p.state k).tookHigh :=
    (hr.handover.lowKept hdual (by simp only [relay, hg.idle k]; rfl)).prefix_accepted
  have htook : (p.state k).tookHigh = (p.state k).sentHigh ++ (p.state k).high.hand := hr.handover.took
  have hbefore : (p.state i).acceptedVideo <+: (p.state k).tookHigh := by
    rw [htook]
    exact (hsent.trans (path_grows hk).sentHigh).trans (List.prefix_append ..)
  exact ⟨k, hj.trans hk, List.prefix_of_prefix_length_le hbefore hlow hle⟩

/-- The same for audio, unless the video buffers again and again. -/
theorem accepted_audio_sent (p : (system fl cfg).Path) (hg : Going p) (hfair : p.Fair .listen) (i : Nat) :
    (∃ j ≥ i, (p.state i).acceptedAudio <+: (p.state j).sentAudio) ∨
      ∀ j, ∃ k ≥ j, (p.state k).isJbBuffering = true := by
  by_cases hagain : ∀ j, ∃ k ≥ j, (p.state k).isJbBuffering = true
  · exact .inr hagain
  · refine .inl ?_
    push Not at hagain
    obtain ⟨m, hm⟩ := hagain
    have hbuf : ∀ j ≥ max i m, (p.state j).isJbBuffering = false := fun j hj =>
      Bool.eq_false_of_not_eq_true (hm j (le_trans (le_max_right i m) hj))
    obtain ⟨j, hj, hle⟩ := LTS.climbs (f := fun j => (p.state j).sentAudio.length)
      (n := (p.state i).acceptedAudio.length) (max i m) fun j hj hlt =>
        hg.next_audio hfair (fun k hk => hbuf k (le_trans hj hk))
          (Nat.lt_of_lt_of_le hlt (path_grows (le_trans (le_max_left i m) hj)).acceptedAudio.length_le)
    have hij : i ≤ j := le_trans (le_max_left i m) hj
    exact ⟨j, hij, List.prefix_of_prefix_length_le (path_grows hij).acceptedAudio
      (hg.relayed j).handover.audio.prefix_accepted hle⟩

end

/-! ## A call with one frame of each kind -/

/-- Both frames are in their queues, and every handler waits. -/
def frameSteps : List Label := [.high, .high, .low, .listen, .video [1] true 0, .fps, .audio [2] 0]

/-- They go through, and the handlers come back. -/
def drainSteps : List Label :=
  [.high, .high, .high, .high, .high, .high, .high, .high, .low, .low, .low, .low, .listen, .listen, .listen,
    .listen, .listen, .listen]

def frameCall : Call Rat :=
  ((system rationals sampleConfig).exec (fun _ _ => True) (init rationals sampleConfig) frameSteps).getD
    (init rationals sampleConfig)

def drainedCall : Call Rat :=
  ((system rationals sampleConfig).exec (fun _ _ => True) frameCall drainSteps).getD frameCall

theorem ticking_idle (hf : s.freed = false) (hhigh : s.high = .wait ∧ s.videoJB = [])
    (hlow : s.low = .wait ∧ s.videoQueueLow = []) (haudio : s.audio = .wait ∧ s.audioJB = []) {l : Label}
    (hl : l = .high ∨ l = .low ∨ l = .listen) : (ticking fl cfg s).Fair l := by
  refine ticking_fair fun i => ?_
  rw [step_live (show ({ s with now := s.now + i } : Call F).freed = false from hf)]
  rcases hl with rfl | rfl | rfl
  · simp [liveStep, highStep, hhigh]
  · simp [liveStep, lowStep, hlow]
  · simp [liveStep, audioStep, haudio]

theorem drained_path : ∃ p : (system rationals sampleConfig).Path, p.state 0 = frameCall ∧ Going p ∧
    p.Fair .high ∧ p.Fair .low ∧ p.Fair .listen := by
  have hidle : ∀ {l : Label}, l = .high ∨ l = .low ∨ l = .listen →
      (ticking rationals sampleConfig drainedCall).Fair l :=
    ticking_idle (by decide +kernel) (by decide +kernel) (by decide +kernel) (by decide +kernel)
  obtain ⟨p, hp, hlater, hfair, hoften⟩ := LTS.Path.replayed (p := ticking rationals sampleConfig drainedCall)
    drainSteps (s := frameCall) (by decide +kernel)
  have hback : ∀ n j, (p.state (j + n)).disc = .idle → (p.state j).disc = .idle := by
    intro n
    induction n with
    | zero => exact fun _ => id
    | succ n ih => exact fun j hj => ih j (idle_before (p.step (j + n)) hj)
  have hdisc : drainedCall.disc = .idle := by decide +kernel
  refine ⟨p, hp, ⟨hp ▸ LTS.reachable_of_exec rfl frameSteps (by decide +kernel), fun j => ?_,
    hoften _ (ticking_diverges drainedCall)⟩, hfair _ (hidle (.inl rfl)), hfair _ (hidle (.inr (.inl rfl))),
    hfair _ (hidle (.inr (.inr rfl)))⟩
  refine hback drainSteps.length j ?_
  rw [Nat.add_comm, hlater j]
  exact hdisc

theorem accepted_video_sent_frame : frameCall.acceptedVideo.length = 1 ∧
    ∃ p : (system rationals sampleConfig).Path, p.state 0 = frameCall ∧
      (∃ j ≥ 0, (p.state 0).acceptedVideo <+: (p.state j).sentHigh) ∧
        (sampleConfig.enableDual = true → ∃ j ≥ 0, (p.state 0).acceptedVideo <+: (p.state j).lowProcessed) := by
  obtain ⟨p, hp, hg, hhigh, hlow, -⟩ := drained_path
  exact ⟨by decide +kernel, p, hp, accepted_video_sent p hg hhigh hlow 0⟩

theorem accepted_audio_sent_frame : frameCall.acceptedAudio.length = 1 ∧
    ∃ p : (system rationals sampleConfig).Path, p.state 0 = frameCall ∧
      ((∃ j ≥ 0, (p.state 0).acceptedAudio <+: (p.state j).sentAudio) ∨
        ∀ j, ∃ k ≥ j, (p.state k).isJbBuffering = true) := by
  obtain ⟨p, hp, hg, -, -, haudio⟩ := drained_path
  exact ⟨by decide +kernel, p, hp, accepted_audio_sent p hg haudio 0⟩

end Rtmpg.Agorac
