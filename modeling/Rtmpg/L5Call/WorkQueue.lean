import Rtmpg.Core.LTS
import Mathlib.Logic.Relation

/-!
# The queue between two threads (`WorkQueue`)

`libagorac/workqueue.h:19-77`: a `std::queue` behind a mutex, with a condition
variable for the one handler that takes from it. Any number of other threads
call `add` and `clear` at any time; a thread that wants the mutex while
somebody else has it waits, which is not a step. `State.holder` is where the
holder of the mutex is, so two of them cannot be written down.

`Rtmpg.L5Call.Model` takes every call as one step, and lets `waitForWork`
return when the queue is not empty. Here these calls are made of single
accesses to the queue, the mutex and the condition variable, `wait` releases
the mutex and falls asleep in one step, and may wake up for no reason.
`isEmpty` and `size` read without the mutex and change nothing.

* `no_lost_wakeup`: the handler sleeps beside a filled queue only while a
  notification is on its way.
* `wait_returns`: then, and in any other state with a filled queue, the holder
  and the handler have a way to the return of `waitForWork`.
* `step_atomic`: every step is a whole call of the model, or changes nothing
  of what the model has.
* `calls_realised`: and with the mutex free, whole calls of the model are runs
  to a state with the mutex free again. `Rtmpg.L5Call.Queues` has what follows
  for the three queues of a call.
-/
namespace Rtmpg.WorkQueue

variable {α : Type}

/-- What the holder of the mutex does next. -/
inductive Holder (α : Type) where
  | push (work : α)
  | notify
  | check
  | take
  | peek
  | popAll
  | unlock
  deriving DecidableEq, Repr

/-- In `get` or `top`. -/
def Holder.reads : Holder α → Bool
  | .take | .peek => true
  | _ => false

def Holder.clears : Holder α → Bool
  | .popAll => true
  | _ => false

/-- The handler, in `waitForWork` or not. `calling` wants the mutex, `asleep` waits for
a notification. -/
inductive Waiter where
  | away
  | calling
  | asleep
  deriving DecidableEq, Repr

/-- `result` is what the last `get` or `top` returned. -/
structure State (α : Type) where
  queue : List α
  holder : Option (Holder α)
  waiter : Waiter
  result : Option α
  deriving DecidableEq, Repr

inductive Label (α : Type) where
  -- a thread gets the mutex for this call
  | add (work : α)
  | clear
  | get
  | top
  -- `waitForWork` is called, and gets the mutex
  | enter
  | lock
  -- the holder of the mutex goes on
  | run
  | spurious
  deriving DecidableEq, Repr

/-- The next step of the holder.
mirrors libagorac/workqueue.h:23-70 -/
def holderStep (s : State α) : Holder α → State α
  | .push work => { s with queue := s.queue ++ [work], holder := some .notify }
  | .notify => { s with
      waiter := if s.waiter = .asleep then .calling else s.waiter
      holder := some .unlock }
  | .check =>
    if s.queue = [] then { s with waiter := .asleep, holder := none }
    else { s with waiter := .away, holder := some .unlock }
  | .take => { s with result := s.queue.head?, queue := s.queue.tail, holder := some .unlock }
  | .peek => { s with result := s.queue.head?, holder := some .unlock }
  | .popAll => if s.queue = [] then { s with holder := some .unlock } else { s with queue := s.queue.tail }
  | .unlock => { s with holder := none }

/-- Only the handler, outside of `waitForWork`, calls `get` and `top`. -/
def monitor (α : Type) : LTS (State α) (Label α) where
  init s := s = ⟨[], none, .away, none⟩
  step s
    | .add work => if s.holder.isNone then some { s with holder := some (.push work) } else none
    | .clear => if s.holder.isNone then some { s with holder := some .popAll } else none
    | .get => if s.holder.isNone ∧ s.waiter = .away then some { s with holder := some .take } else none
    | .top => if s.holder.isNone ∧ s.waiter = .away then some { s with holder := some .peek } else none
    | .enter =>
      if s.waiter = .away ∧ s.holder.any Holder.reads = false then some { s with waiter := .calling } else none
    | .lock => if s.holder.isNone ∧ s.waiter = .calling then some { s with holder := some .check } else none
    | .run => s.holder.map (holderStep s)
    | .spurious => if s.waiter = .asleep then some { s with waiter := .calling } else none

variable {s t : State α}

/-- What a step can be. -/
inductive Stepped (s : State α) : State α → Prop
  | add (work : α) : s.holder = none → Stepped s { s with holder := some (.push work) }
  | clear : s.holder = none → Stepped s { s with holder := some .popAll }
  | get : s.holder = none → s.waiter = .away → Stepped s { s with holder := some .take }
  | top : s.holder = none → s.waiter = .away → Stepped s { s with holder := some .peek }
  | enter : s.waiter = .away → s.holder.any Holder.reads = false → Stepped s { s with waiter := .calling }
  | lock : s.holder = none → s.waiter = .calling → Stepped s { s with holder := some .check }
  | run (pc : Holder α) : s.holder = some pc → Stepped s (holderStep s pc)
  | spurious : s.waiter = .asleep → Stepped s { s with waiter := .calling }

theorem stepped {l : Label α} (h : (monitor α).step s l = some t) : Stepped s t := by
  unfold monitor at h
  cases l with
  | add work =>
    dsimp only at h
    split at h <;> cases h
    next hfree => exact .add work (Option.isNone_iff_eq_none.mp hfree)
  | clear =>
    dsimp only at h
    split at h <;> cases h
    next hfree => exact .clear (Option.isNone_iff_eq_none.mp hfree)
  | get =>
    dsimp only at h
    split at h <;> cases h
    next hfree => exact .get (Option.isNone_iff_eq_none.mp hfree.1) hfree.2
  | top =>
    dsimp only at h
    split at h <;> cases h
    next hfree => exact .top (Option.isNone_iff_eq_none.mp hfree.1) hfree.2
  | enter =>
    dsimp only at h
    split at h <;> cases h
    next hfree => exact .enter hfree.1 hfree.2
  | lock =>
    dsimp only at h
    split at h <;> cases h
    next hfree => exact .lock (Option.isNone_iff_eq_none.mp hfree.1) hfree.2
  | run =>
    obtain ⟨pc, hpc, rfl⟩ := Option.map_eq_some_iff.mp h
    exact .run pc hpc
  | spurious =>
    dsimp only at h
    split at h <;> cases h
    next hw => exact .spurious hw

/-! ## Every state -/

structure Sound (s : State α) : Prop where
  asleep : s.waiter = .asleep → s.queue = [] ∨ s.holder = some .notify
  check : s.holder = some .check → s.waiter = .calling
  reads : s.holder.any Holder.reads = true → s.waiter = .away

theorem holderStep_sound {pc : Holder α} (hs : Sound s) (hpc : s.holder = some pc) : Sound (holderStep s pc) := by
  have hasleep := hs.asleep
  rw [hpc] at hasleep
  cases pc with
  | push work => exact ⟨fun _ => .inr rfl, nofun, nofun⟩
  | notify =>
    refine ⟨fun hw => ?_, nofun, nofun⟩
    simp only [holderStep] at hw
    split at hw
    · cases hw
    · next hne => exact absurd hw hne
  | check =>
    dsimp only [holderStep]
    split
    · next hnil => exact ⟨fun _ => .inl hnil, nofun, nofun⟩
    · exact ⟨nofun, nofun, nofun⟩
  | take =>
    have haway : s.waiter = .away := hs.reads (by rw [hpc]; rfl)
    refine ⟨fun hw => ?_, nofun, nofun⟩
    cases haway.symm.trans hw
  | peek =>
    have haway : s.waiter = .away := hs.reads (by rw [hpc]; rfl)
    refine ⟨fun hw => ?_, nofun, nofun⟩
    cases haway.symm.trans hw
  | popAll =>
    dsimp only [holderStep]
    split
    · next hnil => exact ⟨fun _ => .inl hnil, nofun, nofun⟩
    · next hne =>
      refine ⟨fun hw => ?_, fun hc => ?_, fun hr => ?_⟩
      · exact absurd ((hasleep hw).resolve_right nofun) hne
      · cases hpc.symm.trans hc
      · rw [show s.holder = some .popAll from hpc] at hr
        cases hr
  | unlock => exact ⟨fun hw => .inl ((hasleep hw).resolve_right nofun), nofun, nofun⟩

theorem not_notify (h : s.holder = none) : s.holder ≠ some .notify := by
  intro hn
  rw [hn] at h
  cases h

theorem step_sound {l : Label α} (hs : Sound s) (h : (monitor α).step s l = some t) : Sound t := by
  cases stepped h with
  | add work hfree | clear hfree =>
    exact ⟨fun hw => .inl ((hs.asleep hw).resolve_right (not_notify hfree)), nofun, nofun⟩
  | get _ haway | top _ haway => exact ⟨fun hw => absurd (haway.symm.trans hw) nofun, nofun, fun _ => haway⟩
  | enter _ hreads => exact ⟨nofun, fun _ => rfl, fun hr => absurd (hreads.symm.trans hr) nofun⟩
  | lock _ hcalling => exact ⟨fun hw => absurd (hcalling.symm.trans hw) nofun, fun _ => hcalling, nofun⟩
  | run pc hpc => exact holderStep_sound hs hpc
  | spurious hw =>
    refine ⟨nofun, fun _ => rfl, fun hr => ?_⟩
    cases hw.symm.trans (hs.reads hr)

theorem sound_reachable (h : (monitor α).Reachable s) : Sound s := by
  refine h.invariant (I := Sound) (fun s hs => ?_) fun _ _ _ hs hstep => step_sound hs hstep
  rw [show s = ⟨[], none, .away, none⟩ from hs]
  exact ⟨nofun, nofun, nofun⟩

theorem no_lost_wakeup (h : (monitor α).Reachable s) (hw : s.waiter = .asleep) (hq : s.queue ≠ []) :
    s.holder = some .notify :=
  ((sound_reachable h).asleep hw).resolve_left hq

/-! ## The way to the return -/

/-- The handler waits, and there is something to take. -/
structure Due (s : State α) : Prop where
  queue : s.queue ≠ []
  waiting : s.waiter ≠ .away
  kept : ∀ pc, s.holder = some pc → pc.clears = false

/-- How many steps the holder and the handler are from the return. -/
def rank (s : State α) : Nat :=
  match s.holder with
  | some (.push _) => 5
  | some .notify => 4
  | some .unlock => 3
  | none => 2
  | _ => 1

theorem due_step (hs : Sound s) (hd : Due s) : ∃ l t, (l = .run ∨ l = .lock) ∧
    (monitor α).step s l = some t ∧ t.queue ≠ [] ∧ (t.waiter = .away ∨ Due t ∧ rank t < rank s) := by
  cases hh : s.holder with
  | none =>
    have hcalling : s.waiter = .calling := by
      cases hw : s.waiter with
      | away => exact absurd hw hd.waiting
      | calling => rfl
      | asleep =>
        have hn := (hs.asleep hw).resolve_left hd.queue
        cases hh.symm.trans hn
    refine ⟨.lock, { s with holder := some .check }, .inr rfl, ?_, hd.queue, .inr ⟨⟨hd.queue, hd.waiting, ?_⟩, ?_⟩⟩
    · simp only [monitor, hh, hcalling, Option.isNone_none, and_self, if_true]
    · intro pc hpc
      cases hpc
      rfl
    · simp only [rank, hh]
      decide
  | some pc =>
    have hrun : (monitor α).step s .run = some (holderStep s pc) := by
      simp only [monitor, hh, Option.map_some]
    refine ⟨.run, holderStep s pc, .inl rfl, hrun, ?_⟩
    cases pc with
    | push work =>
      refine ⟨List.append_ne_nil_of_right_ne_nil _ (List.cons_ne_nil _ _), .inr ⟨⟨?_, hd.waiting, ?_⟩, ?_⟩⟩
      · exact List.append_ne_nil_of_right_ne_nil _ (List.cons_ne_nil _ _)
      · intro pc hpc
        cases hpc
        rfl
      · simp only [rank, hh, holderStep]
        decide
    | notify =>
      refine ⟨hd.queue, .inr ⟨⟨hd.queue, ?_, ?_⟩, ?_⟩⟩
      · simp only [holderStep]
        split
        · exact Waiter.noConfusion
        · exact hd.waiting
      · intro pc hpc
        cases hpc
        rfl
      · simp only [rank, hh, holderStep]
        decide
    | check =>
      simp only [holderStep]
      rw [if_neg hd.queue]
      exact ⟨hd.queue, .inl rfl⟩
    | take => exact absurd (hs.reads (by rw [hh]; rfl)) hd.waiting
    | peek => exact absurd (hs.reads (by rw [hh]; rfl)) hd.waiting
    | popAll => cases hd.kept _ hh
    | unlock =>
      refine ⟨hd.queue, .inr ⟨⟨hd.queue, hd.waiting, nofun⟩, ?_⟩⟩
      simp only [rank, hh, holderStep]
      decide

theorem due_returns : ∀ (n : Nat) {s : State α}, rank s ≤ n → Sound s → Due s →
    ∃ t, (monitor α).Run (fun _ l => l = .run ∨ l = .lock) s t ∧ t.waiter = .away ∧ t.queue ≠ [] := by
  intro n
  induction n with
  | zero =>
    intro s hn hs hd
    obtain ⟨l, t, -, -, -, haway | ⟨-, hlt⟩⟩ := due_step hs hd
    · exfalso
      unfold rank at hn
      split at hn <;> omega
    · omega
  | succ n ih =>
    intro s hn hs hd
    obtain ⟨l, t, hl, hstep, hq, haway | ⟨hdt, hlt⟩⟩ := due_step hs hd
    · exact ⟨t, .tail l .refl hl hstep, haway, hq⟩
    · obtain ⟨u, hr, hu⟩ := ih (by omega) (step_sound hs hstep) hdt
      exact ⟨u, (LTS.Run.tail l .refl hl hstep).trans hr, hu⟩

theorem wait_returns (h : (monitor α).Reachable s) (hd : Due s) :
    ∃ t, (monitor α).Run (fun _ l => l = .run ∨ l = .lock) s t ∧ t.waiter = .away ∧ t.queue ≠ [] :=
  due_returns (rank s) (Nat.le_refl _) (sound_reachable h) hd

/-! ## Whole calls -/

/-- What the model of a call has of a queue and its handler. -/
structure Shared (α : Type) where
  queue : List α
  waiting : Bool
  result : Option α

/-- The calls, each in one step. -/
inductive Shared.Step (v : Shared α) : Shared α → Prop
  | add (work : α) : Step v { v with queue := v.queue ++ [work] }
  | clear : Step v { v with queue := [] }
  | enter : v.waiting = false → Step v { v with waiting := true }
  | waitForWork : v.waiting = true → v.queue ≠ [] → Step v { v with waiting := false }
  | get : v.waiting = false → Step v { v with result := v.queue.head?, queue := v.queue.tail }
  | top : v.waiting = false → Step v { v with result := v.queue.head? }

/-- A queue that is being cleared is as good as empty: nobody sees what is left of it. -/
def shared (s : State α) : Shared α where
  queue := if s.holder.any Holder.clears then [] else s.queue
  waiting := s.waiter != .away
  result := s.result

theorem holderStep_atomic {pc : Holder α} (hs : Sound s) (hpc : s.holder = some pc) :
    shared (holderStep s pc) = shared s ∨ (shared s).Step (shared (holderStep s pc)) := by
  cases pc with
  | push work =>
    refine .inr ?_
    simp only [shared, holderStep, hpc]
    exact .add work
  | notify =>
    refine .inl ?_
    simp only [shared, holderStep, hpc]
    cases s.waiter <;> rfl
  | check =>
    have hcalling := hs.check hpc
    simp only [shared, holderStep, hpc, hcalling]
    split
    · exact .inl rfl
    · next hne => exact .inr (.waitForWork rfl hne)
  | take =>
    have haway : s.waiter = .away := hs.reads (by rw [hpc]; rfl)
    simp only [shared, holderStep, hpc, haway]
    exact .inr (.get rfl)
  | peek =>
    have haway : s.waiter = .away := hs.reads (by rw [hpc]; rfl)
    simp only [shared, holderStep, hpc, haway]
    exact .inr (.top rfl)
  | popAll =>
    refine .inl ?_
    dsimp only [holderStep]
    split
    · next hnil =>
      simp only [shared, hpc, hnil]
      rfl
    · simp only [shared, hpc]
      rfl
  | unlock =>
    refine .inl ?_
    simp only [shared, holderStep, hpc]
    rfl

theorem step_atomic {l : Label α} (h : (monitor α).Reachable s) (hstep : (monitor α).step s l = some t) :
    shared t = shared s ∨ (shared s).Step (shared t) := by
  have hs := sound_reachable h
  cases stepped hstep with
  | run pc hpc => exact holderStep_atomic hs hpc
  | clear hfree =>
    simp only [shared, hfree]
    exact .inr .clear
  | enter haway =>
    simp only [shared, haway]
    exact .inr (.enter rfl)
  | spurious hw =>
    refine .inl ?_
    simp only [shared, hw]
    rfl
  | add _ hfree | get hfree | top hfree | lock hfree =>
    simp only [shared, hfree]
    exact .inl rfl

/-! ## Whole calls, step by step -/

theorem shared_free (hfree : s.holder = none) : shared s = ⟨s.queue, s.waiter != .away, s.result⟩ := by
  simp only [shared, hfree, Option.any_none, Bool.false_eq_true, if_false]

theorem holder_runs {pc : Holder α} (hpc : s.holder = some pc) :
    (monitor α).Run (fun _ _ => True) s (holderStep s pc) := by
  refine .tail .run .refl trivial ?_
  simp only [monitor, hpc, Option.map_some]

/-- The loop of `clear`. -/
theorem clear_runs (queue : List α) : ∀ {s : State α}, s.queue = queue → s.holder = some .popAll →
    (monitor α).Run (fun _ _ => True) s { s with queue := [], holder := some .unlock } := by
  induction queue with
  | nil =>
    intro s hq hpc
    have hrun := holder_runs hpc
    rw [holderStep, if_pos hq] at hrun
    rw [← hq]
    exact hrun
  | cons work rest ih =>
    intro s hq hpc
    have hrun := holder_runs hpc
    rw [holderStep, if_neg (hq ▸ List.cons_ne_nil work rest), hq, List.tail_cons] at hrun
    exact hrun.trans (ih (s := { s with queue := rest }) rfl hpc)

theorem call_realised (hs : Sound s) (hfree : s.holder = none) {w : Shared α} (h : (shared s).Step w) :
    ∃ t, (monitor α).Run (fun _ _ => True) s t ∧ t.holder = none ∧ shared t = w := by
  rw [shared_free hfree] at h
  cases h with
  | add work =>
    have hlock : (monitor α).Run (fun _ _ => True) s { s with holder := some (.push work) } := by
      refine .tail (.add work) .refl trivial ?_
      simp only [monitor, hfree, Option.isNone_none, if_true]
    refine ⟨_, ((hlock.trans (holder_runs rfl)).trans (holder_runs rfl)).trans (holder_runs rfl), rfl, ?_⟩
    rw [shared_free rfl]
    simp only [holderStep]
    cases s.waiter <;> rfl
  | clear =>
    have hlock : (monitor α).Run (fun _ _ => True) s { s with holder := some .popAll } := by
      refine .tail .clear .refl trivial ?_
      simp only [monitor, hfree, Option.isNone_none, if_true]
    exact ⟨_, (hlock.trans (clear_runs s.queue rfl rfl)).trans (holder_runs rfl), rfl, rfl⟩
  | enter haway =>
    have haway : s.waiter = .away := by simpa using haway
    have henter : (monitor α).Run (fun _ _ => True) s { s with waiter := .calling } := by
      refine .tail .enter .refl trivial ?_
      simp only [monitor, haway, hfree, Option.any_none, and_self, if_true]
    exact ⟨_, henter, hfree, shared_free hfree⟩
  | waitForWork hwaiting hq =>
    have hcalling : s.waiter = .calling := by
      cases hw : s.waiter with
      | away =>
        rw [hw] at hwaiting
        cases hwaiting
      | calling => rfl
      | asleep => exact absurd ((hs.asleep hw).resolve_right (not_notify hfree)) hq
    have hlock : (monitor α).Run (fun _ _ => True) s { s with holder := some .check } := by
      refine .tail .lock .refl trivial ?_
      simp only [monitor, hfree, hcalling, Option.isNone_none, and_self, if_true]
    have hcheck := hlock.trans (holder_runs rfl)
    rw [holderStep, if_neg hq] at hcheck
    exact ⟨_, hcheck.trans (holder_runs rfl), rfl, rfl⟩
  | get haway =>
    have haway : s.waiter = .away := by simpa using haway
    have hlock : (monitor α).Run (fun _ _ => True) s { s with holder := some .take } := by
      refine .tail .get .refl trivial ?_
      simp only [monitor, hfree, haway, Option.isNone_none, and_self, if_true]
    exact ⟨_, (hlock.trans (holder_runs rfl)).trans (holder_runs rfl), rfl, rfl⟩
  | top haway =>
    have haway : s.waiter = .away := by simpa using haway
    have hlock : (monitor α).Run (fun _ _ => True) s { s with holder := some .peek } := by
      refine .tail .top .refl trivial ?_
      simp only [monitor, hfree, haway, Option.isNone_none, and_self, if_true]
    exact ⟨_, (hlock.trans (holder_runs rfl)).trans (holder_runs rfl), rfl, rfl⟩

theorem calls_realised (h : (monitor α).Reachable s) (hfree : s.holder = none) {w : Shared α}
    (hcalls : Relation.ReflTransGen Shared.Step (shared s) w) :
    ∃ t, (monitor α).Run (fun _ _ => True) s t ∧ t.holder = none ∧ shared t = w := by
  induction hcalls with
  | refl => exact ⟨s, .refl, hfree, rfl⟩
  | tail _ hcall ih =>
    obtain ⟨u, hrun, hu, rfl⟩ := ih
    obtain ⟨t, hmore, ht, hw⟩ := call_realised (sound_reachable (h.trans hrun)) hu hcall
    exact ⟨t, hrun.trans hmore, ht, hw⟩

end Rtmpg.WorkQueue
