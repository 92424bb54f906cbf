import Rtmpg.L5Call.Lifetime
import Rtmpg.L5Call.NoBlock
import Rtmpg.L5Call.Paths

/-!
# How a call ends

`agora_disconnect` clears `isRunning` before it does anything else
(`libagorac/agorac.cpp:564-582`). A handler reads it at the top of its loop, in
`WaitForBuffering` and while audio is held back; the turn it is in goes on to
its end, with the hand-over of the frame it takes. `left` is how many steps of
its own are left to a handler that finds `isRunning` false from now on, and
`pending` how many frames it may still hand over.

* `highStep_left`, `lowStep_left`, `audioStep_left`: one step of a handler.
* `ending_bounded`: every run from the call of `agora_disconnect` on.
* `ending_reached`: behind the last sentinel every handler that is treated
  fairly does end, in a context that is not deleted before.
-/
namespace Rtmpg.Agorac

variable {F : Type} {fl : Floats F} {cfg : Config} {s t : Call F}

/-! ## What is left of a turn -/

def HighPc.left : HighPc F → Nat
  | .check | .nap _ _ _ => 9
  | .fill _ _ => 8
  | .wait => 7
  | .get => 6
  | .forward _ => 5
  | .top _ => 4
  | .size _ _ => 3
  | .send _ _ => 2
  | .sleep _ | .test => 1
  | .done => 0

def LowPc.left : LowPc → Nat
  | .wait => 4
  | .get => 3
  | .send _ => 2
  | .test => 1
  | .done => 0

def AudioPc.left : AudioPc → Nat
  | .wait => 6
  | .get => 5
  | .top _ => 4
  | .size _ _ | .nap _ _ _ => 3
  | .hold _ _ => 2
  | .sleep _ | .test => 1
  | .done => 0

def HighPc.pending : HighPc F → Nat
  | .sleep _ | .test | .done => 0
  | _ => 1

def LowPc.pending : LowPc → Nat
  | .test | .done => 0
  | _ => 1

def AudioPc.pending : AudioPc → Nat
  | .sleep _ | .test | .done => 0
  | _ => 1

theorem highPc_left_le (pc : HighPc F) : pc.left ≤ 9 := by
  cases pc <;> simp [HighPc.left]

theorem lowPc_left_le (pc : LowPc) : pc.left ≤ 4 := by
  cases pc <;> simp [LowPc.left]

theorem audioPc_left_le (pc : AudioPc) : pc.left ≤ 6 := by
  cases pc <;> simp [AudioPc.left]

theorem highPc_pending_le (pc : HighPc F) : pc.pending ≤ 1 := by
  cases pc <;> simp [HighPc.pending]

theorem lowPc_pending_le (pc : LowPc) : pc.pending ≤ 1 := by
  cases pc <;> simp [LowPc.pending]

theorem audioPc_pending_le (pc : AudioPc) : pc.pending ≤ 1 := by
  cases pc <;> simp [AudioPc.pending]

/-! ## One step -/

theorem highStep_left (hrun : s.isRunning = false) (h : highStep fl cfg s = some t) :
    t.high.left < s.high.left ∧ t.sentHigh.length + t.high.pending ≤ s.sentHigh.length + s.high.pending := by
  cases highStepped h with
  | nap _ _ _ hrun' =>
    rw [hrun] at hrun'
    cases hrun'
  | take work rest hpc =>
    cases cfg.enableDual <;> simp [hpc, HighPc.left, HighPc.pending]
  | test hpc | sleep _ hpc _ => simp [hpc, hrun, HighPc.left, HighPc.pending]
  | starve hpc _ | fed hpc _ | resize _ _ hpc _ _ | full _ _ hpc _ _ | wake _ _ _ hpc _ | wait hpc _ | null hpc _
  | forward _ hpc | top _ hpc | size _ _ hpc | stop _ _ hpc _ | send _ _ hpc _ =>
    simp [hpc, HighPc.left, HighPc.pending, resizeBuffer]

theorem lowStep_left (hrun : s.isRunning = false) (h : lowStep fl cfg s = some t) :
    t.low.left < s.low.left ∧ t.lowProcessed.length + t.low.pending ≤ s.lowProcessed.length + s.low.pending := by
  cases lowStepped h with
  | take work rest hpc =>
    cases hf : work.isFinished <;> simp [hpc, LowPc.left, LowPc.pending]
  | test hpc | null hpc _ => simp [hpc, hrun, LowPc.left, LowPc.pending]
  | wait hpc _ | send _ hpc => simp [hpc, LowPc.left, LowPc.pending]

theorem audioStep_left (hrun : s.isRunning = false) (h : audioStep fl s = some t) :
    t.audio.left < s.audio.left ∧
      t.sentAudio.length + t.audio.pending ≤ s.sentAudio.length + s.audio.pending := by
  cases audioStepped h with
  | nap _ _ _ _ hrun' =>
    rw [hrun] at hrun'
    cases hrun'
  | take work rest hpc =>
    cases hf : work.isFinished <;> simp [hpc, AudioPc.left, AudioPc.pending]
  | test hpc | null hpc _ | sleep _ hpc _ => simp [hpc, hrun, AudioPc.left, AudioPc.pending]
  | wait hpc _ | top _ hpc | size _ _ hpc | send _ _ hpc _ | wake _ _ _ hpc _ =>
    simp [hpc, AudioPc.left, AudioPc.pending]

/-! ## `isRunning` -/

def Flagged (s : Call F) : Prop := s.isRunning = decide (s.disc = .idle)

theorem Flagged.kept (hs : Flagged s) (hrun : t.isRunning = s.isRunning) (hdisc : t.disc = s.disc) : Flagged t := by
  rw [Flagged, hrun, hdisc]
  exact hs

theorem discStep_flagged (hs : Flagged s) {ok : Bool} (h : discStep cfg s ok = some t) : Flagged t := by
  unfold Flagged at hs ⊢
  cases discStepped h with
  | call => rfl
  | addVideo hpc =>
    simp only [hpc] at hs
    cases cfg.enableDual <;> simp [hs]
  | clearLow hpc | addLow hpc | addAudio hpc | finish _ hpc _ =>
    simp only [hpc] at hs
    simp [hs]

theorem step_flagged (hs : Flagged s) {l : Label} (h : (system fl cfg).step s l = some t) : Flagged t := by
  cases stepped h with
  | deleted _ h =>
    rw [touchFreed_eq h]
    exact hs
  | tick | video | audio => exact hs
  | fps timestamp =>
    rw [finishVideo_eq]
    exact hs
  | high _ h => exact hs.kept (highStep_frame h).isRunning (highStep_frame h).disc
  | low _ h => exact hs.kept (lowStep_frame h).isRunning (lowStep_frame h).disc
  | listen _ h => exact hs.kept (audioStep_frame h).isRunning (audioStep_frame h).disc
  | disconnect ok _ h => exact discStep_flagged hs h

theorem flagged_reachable (h : (system fl cfg).Reachable s) : Flagged s := by
  refine h.invariant (fun s hinit => ?_) fun _ _ _ hs hstep => step_flagged hs hstep
  rw [show s = Agorac.init fl cfg from hinit]
  rfl

theorem Flagged.called (hs : Flagged s) (h : s.disc ≠ .idle) : s.isRunning = false := by
  rw [hs]
  exact decide_eq_false h

theorem Flagged.running (hs : Flagged s) (h : s.disc = .idle) : s.isRunning = true := by
  rw [hs]
  exact decide_eq_true h

/-- `isRunning` is set once, before the call. -/
theorem step_stopped (hrun : s.isRunning = false) {l : Label} (h : (system fl cfg).step s l = some t) :
    t.isRunning = false := by
  cases stepped h with
  | deleted _ h =>
    rw [touchFreed_eq h]
    exact hrun
  | tick | video | audio => exact hrun
  | fps timestamp =>
    rw [finishVideo_eq]
    exact hrun
  | high _ h => exact (highStep_frame h).isRunning.trans hrun
  | low _ h => exact (lowStep_frame h).isRunning.trans hrun
  | listen _ h => exact (audioStep_frame h).isRunning.trans hrun
  | disconnect ok _ h =>
    cases discStepped h with
    | call => rfl
    | _ => exact hrun

/-! ## Every run -/

/-- A step this party takes in a context that exists. -/
def own (party : Label) (s : Call F) (l : Label) : Bool := !s.freed && decide (l = party)

structure Ends (s : Call F) (l : Label) (t : Call F) : Prop where
  high : LTS.tally (own .high) s l t.high.left ≤ s.high.left
  low : LTS.tally (own .low) s l t.low.left ≤ s.low.left
  audio : LTS.tally (own .listen) s l t.audio.left ≤ s.audio.left
  sentHigh : t.sentHigh.length + t.high.pending ≤ s.sentHigh.length + s.high.pending
  lowProcessed : t.lowProcessed.length + t.low.pending ≤ s.lowProcessed.length + s.low.pending
  sentAudio : t.sentAudio.length + t.audio.pending ≤ s.sentAudio.length + s.audio.pending

theorem tally_own {party l : Label} (hf : s.freed = false) (n : Nat) :
    LTS.tally (own party) s l n = if l = party then n + 1 else n := by
  simp [LTS.tally, own, hf]

theorem tally_freed {party l : Label} (hf : s.freed = true) (n : Nat) : LTS.tally (own party) s l n = n := by
  simp [LTS.tally, own, hf]

/-- A step of none of the handlers. -/
theorem Ends.still {l : Label} (hf : s.freed = false) (hl : l ≠ .high ∧ l ≠ .low ∧ l ≠ .listen)
    (hhigh : t.high = s.high) (hlow : t.low = s.low) (haudio : t.audio = s.audio)
    (hsent : t.sentHigh = s.sentHigh) (hproc : t.lowProcessed = s.lowProcessed)
    (haud : t.sentAudio = s.sentAudio) : Ends s l t := by
  obtain ⟨h1, h2, h3⟩ := hl
  constructor <;> simp [tally_own hf, *]

theorem step_ends (hrun : s.isRunning = false) {l : Label} (h : (system fl cfg).step s l = some t) :
    Ends s l t := by
  cases stepped h with
  | deleted hf h =>
    cases freedTouched h with
    | stop work nextSample hpc =>
      constructor <;> simp [tally_freed hf, hpc, HighPc.left, HighPc.pending]
    | _ => constructor <;> simp [tally_freed hf]
  | tick hf | video _ _ _ hf | audio _ _ hf =>
    exact .still hf ⟨nofun, nofun, nofun⟩ rfl rfl rfl rfl rfl rfl
  | fps timestamp hf =>
    rw [finishVideo_eq]
    exact .still hf ⟨nofun, nofun, nofun⟩ rfl rfl rfl rfl rfl rfl
  | disconnect ok hf h =>
    rw [discStep_eq h]
    exact .still hf ⟨nofun, nofun, nofun⟩ rfl rfl rfl rfl rfl rfl
  | high hf h =>
    obtain ⟨hleft, hsent⟩ := highStep_left hrun h
    rw [highStep_eq h]
    constructor <;> simp [tally_own hf] <;> omega
  | low hf h =>
    obtain ⟨hleft, hsent⟩ := lowStep_left hrun h
    rw [lowStep_eq h]
    constructor <;> simp [tally_own hf] <;> omega
  | listen hf h =>
    obtain ⟨hleft, hsent⟩ := audioStep_left hrun h
    rw [audioStep_eq h]
    constructor <;> simp [tally_own hf] <;> omega

/-- From `s` to `t`, and `n` of the steps are those of this party. -/
def Takes (fl : Floats F) (cfg : Config) (party : Label) (s t : Call F) (n : Nat) : Prop :=
  ((system fl cfg).watched (LTS.tally (own party)) 0).Run (fun _ _ => True) (s, 0) (t, n)

theorem takes_le {party : Label} (left : Call F → Nat) (hrun : s.isRunning = false)
    (hleft : ∀ s l t, s.isRunning = false → (system fl cfg).step s l = some t →
      LTS.tally (own party) s l (left t) ≤ left s) {n : Nat} (h : Takes fl cfg party s t n) : n ≤ left s := by
  have hle : n + left t ≤ 0 + left s :=
    LTS.Run.tally_le (I := fun s => s.isRunning = false)
      (fun s l t (_ : True) hs hstep => ⟨step_stopped hs hstep, hleft s l t hs hstep⟩) h hrun
  omega

/-- Once the disconnect is called each handler takes a few more steps and hands over one more
frame at most. -/
theorem ending_bounded (fl : Floats F) (cfg : Config) (s : Call F) (h : (system fl cfg).Reachable s)
    (hcalled : s.disc ≠ .idle) :
    (∀ t n, Takes fl cfg .high s t n → n ≤ 9) ∧ (∀ t n, Takes fl cfg .low s t n → n ≤ 4) ∧
      (∀ t n, Takes fl cfg .listen s t n → n ≤ 6) ∧
      ∀ t, (system fl cfg).Run (fun _ _ => True) s t →
        t.sentHigh.length ≤ s.sentHigh.length + 1 ∧ t.lowProcessed.length ≤ s.lowProcessed.length + 1 ∧
          t.sentAudio.length ≤ s.sentAudio.length + 1 := by
  have hrun := (flagged_reachable h).called hcalled
  refine ⟨fun t n hn => ?_, fun t n hn => ?_, fun t n hn => ?_, fun t hr => ?_⟩
  · exact (takes_le (fun s => s.high.left) hrun (fun _ _ _ hs hstep => (step_ends hs hstep).high) hn).trans
      (highPc_left_le s.high)
  · exact (takes_le (fun s => s.low.left) hrun (fun _ _ _ hs hstep => (step_ends hs hstep).low) hn).trans
      (lowPc_left_le s.low)
  · exact (takes_le (fun s => s.audio.left) hrun (fun _ _ _ hs hstep => (step_ends hs hstep).audio) hn).trans
      (audioPc_left_le s.audio)
  · have hsent : t.isRunning = false ∧
        t.sentHigh.length + t.high.pending ≤ s.sentHigh.length + s.high.pending ∧
        t.lowProcessed.length + t.low.pending ≤ s.lowProcessed.length + s.low.pending ∧
        t.sentAudio.length + t.audio.pending ≤ s.sentAudio.length + s.audio.pending := by
      refine hr.invariant (I := fun u => u.isRunning = false ∧
        u.sentHigh.length + u.high.pending ≤ s.sentHigh.length + s.high.pending ∧
        u.lowProcessed.length + u.low.pending ≤ s.lowProcessed.length + s.low.pending ∧
        u.sentAudio.length + u.audio.pending ≤ s.sentAudio.length + s.audio.pending)
        (fun u l v _ hu hstep => ?_) ⟨hrun, le_refl _, le_refl _, le_refl _⟩
      obtain ⟨hstop, hh, hl, ha⟩ := hu
      have he := step_ends hstop hstep
      exact ⟨step_stopped hstop hstep, he.sentHigh.trans hh, he.lowProcessed.trans hl, he.sentAudio.trans ha⟩
    have hh := highPc_pending_le s.high
    have hl := lowPc_pending_le s.low
    have ha := audioPc_pending_le s.audio
    omega

theorem ending_bounded_stopped :
    stoppedCall.disc = .sleep 2000 ∧ (∀ t n, Takes rationals stoppedConfig .high stoppedCall t n → n ≤ 9) ∧
      (∀ t n, Takes rationals stoppedConfig .low stoppedCall t n → n ≤ 4) ∧
      (∀ t n, Takes rationals stoppedConfig .listen stoppedCall t n → n ≤ 6) ∧
      ∀ t, (system rationals stoppedConfig).Run (fun _ _ => True) stoppedCall t →
        t.sentHigh.length ≤ stoppedCall.sentHigh.length + 1 ∧
          t.lowProcessed.length ≤ stoppedCall.lowProcessed.length + 1 ∧
          t.sentAudio.length ≤ stoppedCall.sentAudio.length + 1 := by
  refine ⟨by decide +kernel, ending_bounded rationals stoppedConfig stoppedCall ?_ (by decide +kernel)⟩
  exact LTS.reachable_of_exec rfl stoppedSteps (by decide +kernel)

/-! ## The end -/

theorem step_high_done (hdone : s.high = .done) {l : Label} (h : (system fl cfg).step s l = some t) :
    t.high = .done := by
  by_cases hl : l = .high
  · subst hl
    cases stepped h with
    | deleted _ h =>
      cases freedTouched h with
      | stop => rfl
      | high => exact hdone
    | high _ h =>
      rw [highStep_done hdone] at h
      cases h
  · exact ((step_others h).high hl).1.trans hdone

theorem freed_stays (hf : s.freed = true) {l : Label} (h : (system fl cfg).step s l = some t) :
    t.freed = true := by
  cases stepped h with
  | deleted _ h =>
    rw [touchFreed_eq h]
    exact hf
  | _ => simp_all

theorem step_added (ha : s.disc.addedAudio = true) {l : Label} (h : (system fl cfg).step s l = some t) :
    t.disc.addedAudio = true := by
  cases stepped h with
  | deleted _ h =>
    rw [touchFreed_eq h]
    exact ha
  | tick | video | audio => exact ha
  | fps timestamp =>
    rw [finishVideo_eq]
    exact ha
  | high _ h => exact (highStep_frame h).disc ▸ ha
  | low _ h => exact (lowStep_frame h).disc ▸ ha
  | listen _ h => exact (audioStep_frame h).disc ▸ ha
  | disconnect ok _ h =>
    cases discStepped h with
    | finish => rfl
    | call hpc | addVideo hpc | clearLow hpc | addLow hpc | addAudio hpc =>
      rw [hpc] at ha
      cases ha

section
variable {p : (system fl cfg).Path}

/-- The last sentinel is in its queue from `i` on, and the context is there. -/
structure Closing (p : (system fl cfg).Path) (i : Nat) : Prop where
  stopping : ∀ j ≥ i, Stopping cfg (p.state j)
  stopped : ∀ j ≥ i, (p.state j).isRunning = false
  added : ∀ j ≥ i, (p.state j).disc.addedAudio = true

theorem DiscPc.addedVideo_of_audio {pc : DiscPc} (h : pc.addedAudio = true) : pc.addedVideo = true := by
  cases pc <;> first | rfl | cases h

theorem DiscPc.addedLow_of_audio {pc : DiscPc} (h : pc.addedAudio = true) : pc.addedLow = true := by
  cases pc <;> first | rfl | cases h

theorem closing_of_added (h0 : (system fl cfg).Reachable (p.state 0)) {i : Nat}
    (hadded : (p.state i).disc.addedAudio = true) : Closing p i := by
  have hall : ∀ j ≥ i, (p.state j).disc.addedAudio = true :=
    p.invariant (fun _ _ _ ha hstep => step_added ha hstep) hadded
  refine ⟨fun j _ => stopping_reachable (p.reachable h0 j), fun j hj => ?_, hall⟩
  refine (flagged_reachable (p.reachable h0 j)).called fun hidle => ?_
  have ha := hall j hj
  rw [hidle] at ha
  cases ha

/-- With the context there a path's step is one of the call. -/
theorem path_live {j : Nat} {l : Label} (hf : (p.state j).freed = false) (hl : p.label j = l) :
    liveStep fl cfg (p.state j) l = some (p.state (j + 1)) := by
  have hstep := p.step j
  rw [hl] at hstep
  simpa only [system, hf, Bool.false_eq_true, if_false] using hstep

theorem Closing.high_ends {i : Nat} (hc : Closing p i) (htime : Diverges p) (hfair : p.Fair .high) :
    ∃ j ≥ i, (p.state j).freed = true ∨ (p.state j).high = .done := by
  refine LTS.Path.eventually hfair wellFounded_lt (fun s => s.high.left)
    (fun s => s.freed = true ∨ s.high = .done) i (fun j hj hno hl => ?_)
    (fun j _ _ hl => .inr (congrArg HighPc.left ((step_others (p.step j)).high hl).1)) fun j hj hnever => ?_
  · rw [not_or, Bool.not_eq_true] at hno
    exact .inr (highStep_left (hc.stopped j hj) (path_live hno.1 hl)).1
  · refine high_wakes htime (fun k hk => (hnever k hk).2) (fun k hk => ?_) (fun hd => ?_) fun k hk hw hnil => ?_
    · exact Bool.eq_false_of_not_eq_true fun hf => (hnever k hk).1 (.inl hf)
    · exact (hnever j (Nat.le_refl j)).1 (.inr hd)
    · have hij : k ≥ i := le_trans hj hk
      have hq := ((hc.stopping k hij).high (DiscPc.addedVideo_of_audio (hc.added k hij))).queued (by rw [hw]; rfl)
      rw [hnil] at hq
      exact not_hasSentinel_nil hq

theorem Closing.low_ends {i : Nat} (hc : Closing p i) (hfair : p.Fair .low) :
    ∃ j ≥ i, (p.state j).freed = true ∨ (p.state j).low = .done := by
  refine LTS.Path.eventually hfair wellFounded_lt (fun s => s.low.left)
    (fun s => s.freed = true ∨ s.low = .done) i (fun j hj hno hl => ?_)
    (fun j _ _ hl => .inr (congrArg LowPc.left ((step_others (p.step j)).low hl).1)) fun j hj hnever => ?_
  · rw [not_or, Bool.not_eq_true] at hno
    exact .inr (lowStep_left (hc.stopped j hj) (path_live hno.1 hl)).1
  · refine low_wakes (fun k hk => (hnever k hk).2) (fun k hk => ?_) (fun hd => ?_) fun k hk hw hnil => ?_
    · exact Bool.eq_false_of_not_eq_true fun hf => (hnever k hk).1 (.inl hf)
    · exact (hnever j (Nat.le_refl j)).1 (.inr hd)
    · have hij : k ≥ i := le_trans hj hk
      have hq := ((hc.stopping k hij).low (DiscPc.addedLow_of_audio (hc.added k hij))).resolve_left
        (by rw [hw]; exact LowPc.noConfusion)
      rw [hnil] at hq
      exact not_hasSentinel_nil hq

theorem Closing.audio_ends {i : Nat} (hc : Closing p i) (htime : Diverges p) (hfair : p.Fair .listen) :
    ∃ j ≥ i, (p.state j).freed = true ∨ (p.state j).audio = .done := by
  refine LTS.Path.eventually hfair wellFounded_lt (fun s => s.audio.left)
    (fun s => s.freed = true ∨ s.audio = .done) i (fun j hj hno hl => ?_)
    (fun j _ _ hl => .inr (congrArg AudioPc.left ((step_others (p.step j)).audio hl).1)) fun j hj hnever => ?_
  · rw [not_or, Bool.not_eq_true] at hno
    exact .inr (audioStep_left (hc.stopped j hj) (path_live hno.1 hl)).1
  · refine audio_wakes htime (fun k hk => (hnever k hk).2) (fun k hk => ?_) (fun hd => ?_) fun k hk hw hnil => ?_
    · exact Bool.eq_false_of_not_eq_true fun hf => (hnever k hk).1 (.inl hf)
    · exact (hnever j (Nat.le_refl j)).1 (.inr hd)
    · have hij : k ≥ i := le_trans hj hk
      have hq := ((hc.stopping k hij).audio (hc.added k hij)).resolve_left (by rw [hw]; exact AudioPc.noConfusion)
      rw [hnil] at hq
      exact not_hasSentinel_nil hq

/-- With fair handlers and time that goes on, every handler comes to its end or the context is
deleted. -/
theorem ending_reached (p : (system fl cfg).Path) (h0 : (system fl cfg).Reachable (p.state 0))
    (htime : Diverges p) (hhigh : p.Fair .high) (hlow : p.Fair .low) (haudio : p.Fair .listen) (i : Nat)
    (hadded : (p.state i).disc.addedAudio = true) : ∃ j ≥ i, (p.state j).freed = true ∨ Over (p.state j) := by
  have hc := closing_of_added h0 hadded
  obtain ⟨jh, hjh, hh⟩ := hc.high_ends htime hhigh
  obtain ⟨jl, hjl, hl⟩ := hc.low_ends hlow
  obtain ⟨ja, hja, ha⟩ := hc.audio_ends htime haudio
  refine ⟨max jh (max jl ja), le_max_of_le_left hjh, ?_⟩
  have hfreed : ∀ {j k}, j ≤ k → (p.state j).freed = true → (p.state k).freed = true := fun hjk hf =>
    p.invariant (fun _ _ _ hf hstep => freed_stays hf hstep) hf _ hjk
  have hleh : jh ≤ max jh (max jl ja) := le_max_left _ _
  have hlel : jl ≤ max jh (max jl ja) := le_trans (le_max_left _ _) (le_max_right _ _)
  have hlea : ja ≤ max jh (max jl ja) := le_trans (le_max_right _ _) (le_max_right _ _)
  rcases hh with hf | hh
  · exact .inl (hfreed hleh hf)
  rcases hl with hf | hl
  · exact .inl (hfreed hlel hf)
  rcases ha with hf | ha
  · exact .inl (hfreed hlea hf)
  refine .inr ⟨?_, ?_, ?_⟩
  · exact p.invariant (I := fun s => s.high = .done) (fun _ _ _ hd hstep => step_high_done hd hstep) hh _ hleh
  · exact p.invariant (I := fun s => s.low = .done) (fun _ _ _ hd hstep => (step_past hstep).low hd) hl _ hlel
  · exact p.invariant (I := fun s => s.audio = .done) (fun _ _ _ hd hstep => (step_past hstep).audio hd) ha _ hlea

end

/-- Every handler takes its sentinel. -/
def closingSteps : List Label :=
  [.high, .high, .high, .high, .high, .high, .low, .low, .listen, .listen]

def closedCall : Call Rat :=
  ((system rationals stoppedConfig).exec (fun _ _ => True) stoppedCall closingSteps).getD stoppedCall

theorem ticking_over (hf : s.freed = false) (ho : Over s) {l : Label} (hl : l = .high ∨ l = .low ∨ l = .listen) :
    (ticking fl cfg s).Fair l := by
  refine ticking_fair fun i => ?_
  rw [step_live (show ({ s with now := s.now + i } : Call F).freed = false from hf)]
  rcases hl with rfl | rfl | rfl
  · exact highStep_done ho.high
  · exact lowStep_done ho.low
  · exact audioStep_done ho.audio

theorem ending_reached_stopped : ∃ p : (system rationals stoppedConfig).Path, p.state 0 = stoppedCall ∧
    ¬ Over stoppedCall ∧ ∃ j ≥ 0, (p.state j).freed = true ∨ Over (p.state j) := by
  have hover : Over closedCall := ⟨by decide +kernel, by decide +kernel, by decide +kernel⟩
  have hfreed : closedCall.freed = false := by decide +kernel
  obtain ⟨p, hp, -, hfair, hoften⟩ := (LTS.Path.replayed (p := ticking rationals stoppedConfig closedCall)
    closingSteps (s := stoppedCall) (by decide +kernel))
  have hreach : (system rationals stoppedConfig).Reachable (p.state 0) :=
    hp ▸ LTS.reachable_of_exec rfl stoppedSteps (by decide +kernel)
  have hnot : stoppedCall.high ≠ .done := by decide +kernel
  refine ⟨p, hp, fun ho => hnot ho.high, ending_reached p hreach (hoften _ (ticking_diverges closedCall))
    (hfair _ (ticking_over hfreed hover (.inl rfl))) (hfair _ (ticking_over hfreed hover (.inr (.inl rfl))))
    (hfair _ (ticking_over hfreed hover (.inr (.inr rfl)))) 0 ?_⟩
  rw [hp]
  decide +kernel

end Rtmpg.Agorac
