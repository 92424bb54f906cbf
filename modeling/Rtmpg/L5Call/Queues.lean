import Rtmpg.L5Call.NoBlock
import Rtmpg.L5Call.WorkQueue

/-!
# The queues of a call

`Rtmpg.L5Call.Model` has three lists where `agora_context_t` has three
`WorkQueue`s. Here each list is what `Rtmpg.L5Call.WorkQueue` makes of its
queue. `Agrees` says that a call and the queue have the same content, that the
handler is in `waitForWork` in both, and that what the handler goes on with is
what `get` or `top` returned.

* `step_calls`: on each queue a step of a call is whole calls of `WorkQueue`,
  mostly none or one.
* `queues_simulated`: so the three queues take part in every run of a call,
  with their mutex free between its steps, and a handler behind the sentinel
  does get out of `waitForWork`, from the middle of another thread's call too.
-/
namespace Rtmpg.Agorac

open WorkQueue (Shared shared monitor)

variable {F : Type} {fl : Floats F} {cfg : Config} {s t u : Call F} {v : Shared Work}

/-- The `WorkQueue`s of `agora_context_t`. -/
inductive QueueName where
  | videoJB
  | videoQueueLow
  | audioJB
  deriving DecidableEq, Repr

def HighPc.waits : HighPc F → Bool
  | .wait => true
  | _ => false

def LowPc.waits : LowPc → Bool
  | .wait => true
  | _ => false

def AudioPc.waits : AudioPc → Bool
  | .wait => true
  | _ => false

theorem HighPc.of_waits {pc : HighPc F} (h : pc.waits = true) : pc = .wait := by
  cases pc with
  | wait => rfl
  | _ => cases h

theorem LowPc.of_waits {pc : LowPc} (h : pc.waits = true) : pc = .wait := by
  cases pc with
  | wait => rfl
  | _ => cases h

theorem AudioPc.of_waits {pc : AudioPc} (h : pc.waits = true) : pc = .wait := by
  cases pc with
  | wait => rfl
  | _ => cases h

/-- `result` is what `get` or `top` returned last, and the handler still goes by it. -/
def HighPc.heard (pc : HighPc F) (lastTimestamp : Int) (result : Option Work) : Prop :=
  match pc with
  | .forward work | .top work => result = some work
  | .size work sleepTime => sleepTime = sleepTimeOf result work.timestamp lastTimestamp
  | _ => True

def LowPc.heard (pc : LowPc) (result : Option Work) : Prop :=
  match pc with
  | .send work => result = some work
  | _ => True

def AudioPc.heard (pc : AudioPc) (lastTimestamp : Int) (result : Option Work) : Prop :=
  match pc with
  | .top work => result = some work
  | .size work sleepTime => sleepTime = sleepTimeOf result work.timestamp lastTimestamp
  | _ => True

def Call.queue (s : Call F) : QueueName → List Work
  | .videoJB => s.videoJB
  | .videoQueueLow => s.videoQueueLow
  | .audioJB => s.audioJB

/-- The handler of the queue is in `waitForWork`. -/
def Call.waits (s : Call F) : QueueName → Bool
  | .videoJB => s.high.waits
  | .videoQueueLow => s.low.waits
  | .audioJB => s.audio.waits

def Call.heard (s : Call F) : QueueName → Option Work → Prop
  | .videoJB => s.high.heard s.lastVideoTimestamp
  | .videoQueueLow => s.low.heard
  | .audioJB => s.audio.heard s.lastAudioTimestamp

/-- `agora_disconnect` has put its sentinel into the queue. -/
def DiscPc.added (pc : DiscPc) : QueueName → Bool
  | .videoJB => pc.addedVideo
  | .videoQueueLow => pc.addedLow
  | .audioJB => pc.addedAudio

structure Agrees (q : QueueName) (s : Call F) (v : Shared Work) : Prop where
  queue : v.queue = s.queue q
  waiting : v.waiting = s.waits q
  result : s.heard q v.result

/-! ## One step, one queue -/

/-- From `s` to `t` the queue is called only in ways that `WorkQueue` has. -/
def Calls (q : QueueName) (s t : Call F) : Prop :=
  ∀ v, Agrees q s v → ∃ w, Relation.ReflTransGen Shared.Step v w ∧ Agrees q t w

variable {q : QueueName}

theorem Calls.idle (hq : t.queue q = s.queue q) (hw : t.waits q = s.waits q)
    (hr : ∀ r, s.heard q r → t.heard q r) : Calls q s t := fun v ha =>
  ⟨v, .refl, ha.queue.trans hq.symm, ha.waiting.trans hw.symm, hr _ ha.result⟩

theorem Calls.add (work : Work) (hq : t.queue q = s.queue q ++ [work]) (hw : t.waits q = s.waits q)
    (hr : ∀ r, s.heard q r → t.heard q r) : Calls q s t := fun _ ha =>
  ⟨_, .single (.add work), by rw [hq, ← ha.queue], ha.waiting.trans hw.symm, hr _ ha.result⟩

theorem Calls.clear (hq : t.queue q = []) (hw : t.waits q = s.waits q) (hr : ∀ r, s.heard q r → t.heard q r) :
    Calls q s t := fun _ ha =>
  ⟨_, .single .clear, hq.symm, ha.waiting.trans hw.symm, hr _ ha.result⟩

theorem Calls.enter (hs : s.waits q = false) (hq : t.queue q = s.queue q) (hw : t.waits q = true)
    (hr : ∀ r, t.heard q r) : Calls q s t := fun _ ha =>
  ⟨_, .single (.enter (ha.waiting.trans hs)), ha.queue.trans hq.symm, hw.symm, hr _⟩

theorem Calls.waitForWork (hs : s.waits q = true) (hne : s.queue q ≠ []) (hq : t.queue q = s.queue q)
    (hw : t.waits q = false) (hr : ∀ r, t.heard q r) : Calls q s t := fun _ ha =>
  ⟨_, .single (.waitForWork (ha.waiting.trans hs) (ha.queue ▸ hne)), ha.queue.trans hq.symm, hw.symm, hr _⟩

theorem Calls.take (work : Work) (hs : s.waits q = false) (hq : s.queue q = work :: t.queue q)
    (hw : t.waits q = false) (hr : t.heard q (some work)) : Calls q s t := fun v ha => by
  have hv : v.queue = work :: t.queue q := ha.queue.trans hq
  refine ⟨_, .single (.get (ha.waiting.trans hs)), ?_, (ha.waiting.trans hs).trans hw.symm, ?_⟩ <;> dsimp only <;>
    rw [hv]
  · rfl
  · exact hr

theorem Calls.null (hs : s.waits q = false) (hnil : s.queue q = []) (hq : t.queue q = []) (hw : t.waits q = false)
    (hr : t.heard q none) : Calls q s t := fun v ha => by
  have hv : v.queue = [] := ha.queue.trans hnil
  refine ⟨_, .single (.get (ha.waiting.trans hs)), ?_, (ha.waiting.trans hs).trans hw.symm, ?_⟩ <;> dsimp only <;>
    rw [hv]
  · exact hq.symm
  · exact hr

theorem Calls.top (hs : s.waits q = false) (hq : t.queue q = s.queue q) (hw : t.waits q = false)
    (hr : t.heard q (s.queue q).head?) : Calls q s t := fun _ ha =>
  ⟨_, .single (.top (ha.waiting.trans hs)), ha.queue.trans hq.symm, (ha.waiting.trans hs).trans hw.symm,
    by rw [← ha.queue] at hr; exact hr⟩

theorem Calls.trans (h : Calls q s t) (h' : Calls q t u) : Calls q s u := fun v ha => by
  obtain ⟨w, hw, hb⟩ := h v ha
  obtain ⟨x, hx, hc⟩ := h' w hb
  exact ⟨x, hw.trans hx, hc⟩

theorem highStep_calls (h : highStep fl cfg s = some t) : Calls q s t := by
  cases q with
  | audioJB =>
    rw [highStep_eq h]
    exact .idle rfl rfl fun _ => id
  | videoQueueLow =>
    cases highStepped h with
    | forward work => exact .add work rfl rfl fun _ => id
    | _ => exact .idle rfl rfl fun _ => id
  | videoJB =>
    have hwaits {pc : HighPc F} (hpc : s.high = pc) : s.waits .videoJB = pc.waits := congrArg HighPc.waits hpc
    cases highStepped h with
    | test hpc | sleep _ hpc =>
      cases hrun : s.isRunning <;> exact .idle rfl (hwaits hpc).symm fun _ _ => trivial
    | starve hpc | nap _ _ hpc | wake _ _ _ hpc | size _ _ hpc | stop _ _ hpc | send _ _ hpc =>
      exact .idle rfl (hwaits hpc).symm fun _ _ => trivial
    | fed hpc | resize _ _ hpc | full _ _ hpc => exact .enter (hwaits hpc) rfl rfl fun _ => trivial
    | wait hpc hne => exact .waitForWork (hwaits hpc) hne rfl rfl fun _ => trivial
    | null hpc hnil => exact .null (hwaits hpc) hnil hnil rfl trivial
    | take work rest hpc hq =>
      cases hdual : cfg.enableDual <;> exact .take work (hwaits hpc) hq rfl rfl
    | forward work hpc =>
      refine .idle rfl (hwaits hpc).symm fun r hr => ?_
      dsimp only [Call.heard] at hr
      rw [hpc] at hr
      exact hr
    | top work hpc => exact .top (hwaits hpc) rfl rfl rfl

/-- An empty queue sends the handler back to `waitForWork`, if it goes on. -/
theorem lowStep_calls (h : lowStep fl cfg s = some t) : Calls q s t := by
  cases q with
  | videoJB | audioJB =>
    rw [lowStep_eq h]
    exact .idle rfl rfl fun _ => id
  | videoQueueLow =>
    have hwaits {pc : LowPc} (hpc : s.low = pc) : s.waits .videoQueueLow = pc.waits := congrArg LowPc.waits hpc
    cases lowStepped h with
    | test hpc =>
      cases hrun : s.isRunning with
      | true => exact .enter (hwaits hpc) rfl rfl fun _ => trivial
      | false => exact .idle rfl (hwaits hpc).symm fun _ _ => trivial
    | wait hpc hne => exact .waitForWork (hwaits hpc) hne rfl rfl fun _ => trivial
    | null hpc hnil =>
      have hget : Calls .videoQueueLow s { s with low := .test } :=
        .null (hwaits hpc) hnil hnil rfl trivial
      cases hrun : s.isRunning with
      | true => exact hget.trans (.enter rfl rfl rfl fun _ => trivial)
      | false => exact hget.trans (.idle rfl rfl fun _ _ => trivial)
    | take work rest hpc hq =>
      cases hf : work.isFinished with
      | true => exact .take work (hwaits hpc) hq rfl trivial
      | false => exact .take work (hwaits hpc) hq rfl rfl
    | send _ hpc => exact .idle rfl (hwaits hpc).symm fun _ _ => trivial

theorem audioStep_calls (h : audioStep fl s = some t) : Calls q s t := by
  cases q with
  | videoJB | videoQueueLow =>
    rw [audioStep_eq h]
    exact .idle rfl rfl fun _ => id
  | audioJB =>
    have hwaits {pc : AudioPc} (hpc : s.audio = pc) : s.waits .audioJB = pc.waits := congrArg AudioPc.waits hpc
    cases audioStepped h with
    | test hpc | sleep _ hpc =>
      cases hrun : s.isRunning with
      | true => exact .enter (hwaits hpc) rfl rfl fun _ => trivial
      | false => exact .idle rfl (hwaits hpc).symm fun _ _ => trivial
    | wait hpc hne => exact .waitForWork (hwaits hpc) hne rfl rfl fun _ => trivial
    | null hpc hnil =>
      have hget : Calls .audioJB s { s with audio := .test } :=
        .null (hwaits hpc) hnil hnil rfl trivial
      cases hrun : s.isRunning with
      | true => exact hget.trans (.enter rfl rfl rfl fun _ => trivial)
      | false => exact hget.trans (.idle rfl rfl fun _ _ => trivial)
    | take work rest hpc hq =>
      cases hf : work.isFinished with
      | true => exact .take work (hwaits hpc) hq rfl trivial
      | false => exact .take work (hwaits hpc) hq rfl rfl
    | top work hpc => exact .top (hwaits hpc) rfl rfl rfl
    | size _ _ hpc | nap _ _ hpc | wake _ _ _ hpc | send _ _ hpc =>
      exact .idle rfl (hwaits hpc).symm fun _ _ => trivial

theorem discStep_calls {ok : Bool} (h : discStep cfg s ok = some t) : Calls q s t := by
  cases discStepped h with
  | addVideo =>
    cases q with
    | videoJB => exact .add _ rfl rfl fun _ => id
    | videoQueueLow | audioJB => exact .idle rfl rfl fun _ => id
  | clearLow =>
    cases q with
    | videoQueueLow => exact .clear rfl rfl fun _ => id
    | videoJB | audioJB => exact .idle rfl rfl fun _ => id
  | addLow =>
    cases q with
    | videoQueueLow => exact .add _ rfl rfl fun _ => id
    | videoJB | audioJB => exact .idle rfl rfl fun _ => id
  | addAudio =>
    cases q with
    | audioJB => exact .add _ rfl rfl fun _ => id
    | videoJB | videoQueueLow => exact .idle rfl rfl fun _ => id
  | call | finish => cases q <;> exact .idle rfl rfl fun _ => id

theorem touchFreed_calls {l : Label} (h : touchFreed s l = some t) : Calls q s t := by
  cases freedTouched h with
  | stop work nextSample hpc =>
    cases q with
    | videoJB => exact .idle rfl (congrArg HighPc.waits hpc).symm fun _ _ => trivial
    | videoQueueLow | audioJB => exact .idle rfl rfl fun _ => id
  | _ => cases q <;> exact .idle rfl rfl fun _ => id

theorem step_calls {l : Label} (h : (system fl cfg).step s l = some t) : Calls q s t := by
  cases stepped h with
  | deleted _ h => exact touchFreed_calls h
  | tick => cases q <;> exact .idle rfl rfl fun _ => id
  | video buffer isKeyFrame timestamp =>
    cases q with
    | videoJB => exact .add _ rfl rfl fun _ => id
    | videoQueueLow | audioJB => exact .idle rfl rfl fun _ => id
  | fps timestamp =>
    rw [finishVideo_eq]
    cases q <;> exact .idle rfl rfl fun _ => id
  | audio buffer timestamp =>
    cases q with
    | audioJB => exact .add _ rfl rfl fun _ => id
    | videoJB | videoQueueLow => exact .idle rfl rfl fun _ => id
  | high _ h => exact highStep_calls h
  | low _ h => exact lowStep_calls h
  | listen _ h => exact audioStep_calls h
  | disconnect ok _ h => exact discStep_calls h

/-! ## Runs -/

/-- A state the queue can be in while the call is at `s`. -/
structure Matches (q : QueueName) (s : Call F) (m : WorkQueue.State Work) : Prop where
  reachable : (monitor Work).Reachable m
  agrees : Agrees q s (shared m)

variable {m : WorkQueue.State Work}

theorem matches_init : Matches q (init fl cfg) ⟨[], none, .away, none⟩ := by
  refine ⟨⟨_, rfl, .refl⟩, ?_⟩
  cases q with
  | videoJB | audioJB => exact ⟨rfl, rfl, trivial⟩
  | videoQueueLow =>
    refine ⟨rfl, ?_, ?_⟩
    · show false = (if cfg.enableDual = true then LowPc.test else LowPc.done).waits
      cases cfg.enableDual <;> rfl
    · show (if cfg.enableDual = true then LowPc.test else LowPc.done).heard none
      cases cfg.enableDual <;> trivial

theorem matches_step (hm : Matches q s m) (hfree : m.holder = none) {l : Label}
    (h : (system fl cfg).step s l = some t) :
    ∃ m', (monitor Work).Run (fun _ _ => True) m m' ∧ m'.holder = none ∧ Matches q t m' := by
  obtain ⟨w, hcalls, ha⟩ := step_calls h (shared m) hm.agrees
  obtain ⟨m', hrun, hfree', rfl⟩ := WorkQueue.calls_realised hm.reachable hfree hcalls
  exact ⟨m', hrun, hfree', hm.reachable.trans hrun, ha⟩

theorem matches_reachable (h : (system fl cfg).Reachable s) : ∃ m, m.holder = none ∧ Matches q s m := by
  refine h.invariant (I := fun u => ∃ m, m.holder = none ∧ Matches q u m) (fun u hinit => ?_)
    fun u l t ⟨m, hfree, hm⟩ hstep => ?_
  · rw [show u = init fl cfg from hinit]
    exact ⟨_, rfl, matches_init⟩
  · obtain ⟨m', -, hm'⟩ := matches_step hm hfree hstep
    exact ⟨m', hm'⟩

theorem waits_filled (h : (system fl cfg).Reachable s) (ha : s.disc.added q = true) (hw : s.waits q = true) :
    s.queue q ≠ [] := by
  have hs := stopping_reachable h
  cases q with
  | videoJB => exact hs.high_filled ha (HighPc.of_waits hw)
  | videoQueueLow => exact hs.low_filled ha (LowPc.of_waits hw)
  | audioJB => exact hs.audio_filled ha (AudioPc.of_waits hw)

/-- A handler that waits at a filled queue has something due to it. -/
theorem Matches.due (hm : Matches q s m) (hw : s.waits q = true) (hq : s.queue q ≠ []) : WorkQueue.Due m := by
  have hqueue := hm.agrees.queue
  have hwaiting := hm.agrees.waiting.trans hw
  dsimp only [shared] at hqueue hwaiting
  split at hqueue
  · exact absurd hqueue.symm hq
  · next hclear =>
    refine ⟨hqueue ▸ hq, fun haway => ?_, fun pc hpc => ?_⟩
    · rw [haway] at hwaiting
      cases hwaiting
    · rw [hpc] at hclear
      exact Bool.eq_false_of_not_eq_true hclear

end Rtmpg.Agorac
