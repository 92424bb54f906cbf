import Rtmpg.L5Call.Frame
import Rtmpg.L5Call.Pacing

/-!
# The handlers of a call keep this pace

`Rtmpg.L5Call.Pacing` adds up the sleeps over a `Stream`. Here the stream is
what the High or the Audio handler of a call really meets, with the producer,
the other handlers and `agora_disconnect` running beside it. The history of a
handler has its calls of `GetNextSamplingPoint`, with what `q->top()` returned,
and by how much each `nextSample` was ahead of the clock.

A `Sampler` is a handler as this history sees it, and `Sampler.Move` what may
happen to it: a packet arrives, the handler takes one, looks behind it, sets
the time of the next one, passes it on or leaves.

* `Paces.move`: every move keeps the history in step with `handle`.
* `exists_stream`: packets with nondecreasing timestamps make a `Stream`.
* `high_step_moves`, `audio_step_moves`: every step of a call is a move or none.
* `high_paces`, `audio_paces`: every run without the speed-up.
-/
namespace Rtmpg.Pacing

open Rtmpg.Agorac

/-! ## The history -/

/-- A call of `GetNextSamplingPoint`: the packet, and what `q->top()` returned. -/
structure Look where
  work : Work
  next : Option Work
  deriving DecidableEq, Repr

structure History where
  looks : List Look
  slept : Int
  deriving DecidableEq, Repr

def paceOf (looks : List Look) : Pace := looks.foldl (fun p l => handle p l.work l.next) ⟨0, 0⟩

/-- What was at the head of the queue when the handler last looked. -/
def expected (looks : List Look) : Option Work := looks.getLast?.bind (·.next)

/-- What was at the head of the queue is taken next. -/
def Linked (looks : List Look) : Prop := looks.IsChain fun a b => ∀ work, a.next = some work → work = b.work

@[simp] theorem paceOf_concat (looks : List Look) (l : Look) :
    paceOf (looks ++ [l]) = handle (paceOf looks) l.work l.next := List.foldl_concat ..

@[simp] theorem expected_concat (looks : List Look) (l : Look) : expected (looks ++ [l]) = l.next := by
  rw [expected, List.getLast?_concat, Option.bind_some]

theorem Linked.concat {looks : List Look} {l : Look} (h : Linked looks)
    (hl : ∀ work, expected looks = some work → work = l.work) : Linked (looks ++ [l]) := by
  refine List.isChain_append.mpr ⟨h, List.isChain_singleton l, fun a ha b hb work hw => ?_⟩
  cases hb
  exact hl work (by rw [expected, ha, Option.bind_some, hw])

/-! ## A handler and its moves -/

inductive Stage where
  | away
  | taken (work : Work)
  | looked (work : Work) (sleepTime : Int)
  | timed (work : Work)
  | left

structure Sampler where
  queue : List Work
  lastTimestamp : Int
  stage : Stage
  history : History

inductive Sampler.Move (v : Sampler) : Sampler → Prop
  | add (work : Work) : Move v { v with queue := v.queue ++ [work] }
  | take (work : Work) (rest : List Work) : v.stage = .away → v.queue = work :: rest →
      Move v { v with queue := rest, stage := .taken work }
  | look (work : Work) : v.stage = .taken work → Move v { v with
      stage := .looked work (sleepTimeOf v.queue.head? work.timestamp v.lastTimestamp)
      history := ⟨v.history.looks ++ [⟨work, v.queue.head?⟩], v.history.slept⟩ }
  | time (work : Work) (sleepTime : Int) : v.stage = .looked work sleepTime → Move v { v with
      stage := .timed work
      history := ⟨v.history.looks, v.history.slept + sleepTime⟩ }
  | pass (work : Work) : v.stage = .timed work →
      Move v { v with lastTimestamp := work.timestamp, stage := .away }
  | leave (queue : List Work) : v.stage = .away ∨ (∃ work, v.stage = .timed work) →
      Move v { v with queue := queue, stage := .left }

/-- The head of the queue is what the handler saw there. -/
def Sampler.Waiting (v : Sampler) : Prop := ∀ work, expected v.history.looks = some work → v.queue.head? = some work

/-- The history against `handle`, at each stage. -/
def Sampler.InStep (v : Sampler) : Prop :=
  match v.stage with
  | .away => paceOf v.history.looks = ⟨v.lastTimestamp, v.history.slept⟩ ∧ v.Waiting
  | .taken work => paceOf v.history.looks = ⟨v.lastTimestamp, v.history.slept⟩ ∧
      ∀ seen, expected v.history.looks = some seen → seen = work
  | .looked work sleepTime =>
    paceOf v.history.looks = ⟨work.timestamp, v.history.slept + sleepTime⟩ ∧ v.Waiting
  | .timed work => paceOf v.history.looks = ⟨work.timestamp, v.history.slept⟩ ∧ v.Waiting
  | .left => (paceOf v.history.looks).slept = v.history.slept

structure Paces (v : Sampler) : Prop where
  linked : Linked v.history.looks
  inStep : v.InStep

theorem Sampler.Waiting.add {v : Sampler} (h : v.Waiting) (work : Work) :
    ({ v with queue := v.queue ++ [work] } : Sampler).Waiting := by
  intro seen hs
  have hhead := h seen hs
  show (v.queue ++ [work]).head? = some seen
  rw [List.head?_append, hhead, Option.some_or]

theorem Paces.move {v w : Sampler} (hv : Paces v) (h : v.Move w) : Paces w := by
  obtain ⟨hlinked, hstep⟩ := hv
  unfold Sampler.InStep at hstep
  cases h with
  | add work =>
    refine ⟨hlinked, ?_⟩
    unfold Sampler.InStep
    dsimp only
    cases hs : v.stage with
    | away =>
      rw [hs] at hstep
      exact ⟨hstep.1, hstep.2.add work⟩
    | taken work' =>
      rw [hs] at hstep
      exact hstep
    | looked work' sleepTime =>
      rw [hs] at hstep
      exact ⟨hstep.1, hstep.2.add work⟩
    | timed work' =>
      rw [hs] at hstep
      exact ⟨hstep.1, hstep.2.add work⟩
    | left =>
      rw [hs] at hstep
      exact hstep
  | take work rest hs hq =>
    rw [hs] at hstep
    refine ⟨hlinked, hstep.1, fun seen hseen => ?_⟩
    have hhead := hstep.2 seen hseen
    rw [hq, List.head?_cons, Option.some.injEq] at hhead
    exact hhead.symm
  | look work hs =>
    rw [hs] at hstep
    obtain ⟨hpace, hseen⟩ := hstep
    refine ⟨hlinked.concat hseen, ?_, fun seen hsee => ?_⟩
    · show paceOf (v.history.looks ++ [_]) = _
      rw [paceOf_concat, hpace]
      rfl
    · exact (expected_concat ..).symm.trans hsee
  | time work sleepTime hs =>
    rw [hs] at hstep
    exact ⟨hlinked, hstep.1, hstep.2⟩
  | pass work hs =>
    rw [hs] at hstep
    exact ⟨hlinked, hstep.1, hstep.2⟩
  | leave queue hs =>
    refine ⟨hlinked, ?_⟩
    rcases hs with hs | ⟨work, hs⟩
    · rw [hs] at hstep
      exact congrArg Pace.slept hstep.1
    · rw [hs] at hstep
      exact congrArg Pace.slept hstep.1

/-! ## The stream it met -/

/-- The packets taken, and the one seen behind them. -/
def packets (looks : List Look) : List Work := looks.map (·.work) ++ (expected looks).toList

/-- Nondecreasing timestamps. -/
def Timely (l : List Work) : Prop := l.Pairwise fun a b => a.timestamp ≤ b.timestamp

/-- A packet of no use, behind a history of no packets. -/
def noWork : Work := ⟨0, [], false, false, 0⟩

theorem Timely.getD : ∀ {l : List Work}, Timely l → ∀ (d : Work) (k : Nat),
    (l.getD k (l.getLastD d)).timestamp ≤ (l.getD (k + 1) (l.getLastD d)).timestamp
  | [], _, _, _ => le_refl _
  | [_], _, _, 0 => le_refl _
  | _ :: b :: _, h, _, 0 => (List.pairwise_cons.mp h).1 b List.mem_cons_self
  | a :: l, h, d, k + 1 => by
    rw [List.getLastD_cons]
    exact Timely.getD (List.pairwise_cons.mp h).2 a k

/-- The packets of a history, the last of them again and again behind it. -/
def streamOf (looks : List Look) (h : Timely (packets looks)) : Stream where
  packet k := (packets looks).getD k ((packets looks).getLastD noWork)
  arrived k := (looks[k]?.bind (·.next)).isSome
  mono k := h.getD noWork k

section
variable {looks : List Look} (ht : Timely (packets looks))

theorem streamOf_packet {k : Nat} (hk : k < looks.length) : (streamOf looks ht).packet k = looks[k].work := by
  show (packets looks).getD k _ = _
  rw [List.getD_eq_getElem?_getD, packets, List.getElem?_append_left (by rwa [List.length_map]),
    List.getElem?_map, List.getElem?_eq_getElem hk]
  rfl

theorem streamOf_behind {work : Work} (h : expected looks = some work) :
    (streamOf looks ht).packet looks.length = work := by
  show (packets looks).getD looks.length _ = _
  rw [List.getD_eq_getElem?_getD, packets, h, List.getElem?_append_right (by rw [List.length_map]),
    List.length_map, Nat.sub_self]
  rfl

theorem streamOf_next (hl : Linked looks) {k : Nat} (hk : k < looks.length) :
    (streamOf looks ht).next k = looks[k].next := by
  have harrived : (streamOf looks ht).arrived k = looks[k].next.isSome := by
    show (looks[k]?.bind _).isSome = _
    rw [List.getElem?_eq_getElem hk, Option.bind_some]
  unfold Stream.next
  rw [harrived]
  cases hn : looks[k].next with
  | none => rfl
  | some work =>
    rw [Option.isSome_some, if_pos rfl, Option.some.injEq]
    by_cases hlast : k + 1 < looks.length
    · rw [streamOf_packet ht hlast]
      exact (List.isChain_iff_getElem.mp hl k hlast work hn).symm
    · have hlen : looks.length = k + 1 := by omega
      rw [← hlen]
      refine streamOf_behind ht ?_
      rw [expected, List.getLast?_eq_getElem?, hlen, Nat.add_sub_cancel, List.getElem?_eq_getElem hk,
        Option.bind_some, hn]

theorem handleAll_take (hl : Linked looks) : ∀ n, n ≤ looks.length →
    handleAll (streamOf looks ht) n = paceOf (looks.take n)
  | 0, _ => rfl
  | n + 1, hn => by
    rw [List.take_succ_eq_append_getElem hn, paceOf_concat, ← handleAll_take hl n (Nat.le_of_succ_le hn),
      ← streamOf_next ht hl hn, ← streamOf_packet ht hn]
    rfl

end

/-- What `x` has for the first packets is what the history has. -/
structure Meets (x : Stream) (looks : List Look) : Prop where
  packet : ∀ k (hk : k < looks.length), x.packet k = looks[k].work
  next : ∀ k (hk : k < looks.length), x.next k = looks[k].next
  pace : handleAll x looks.length = paceOf looks

theorem exists_stream {looks : List Look} (hl : Linked looks) (ht : Timely (packets looks)) :
    ∃ x : Stream, Meets x looks := by
  refine ⟨streamOf looks ht, fun k hk => streamOf_packet ht hk, fun k hk => streamOf_next ht hl hk, ?_⟩
  rw [handleAll_take ht hl looks.length (le_refl _), List.take_length]

/-! ## The handlers of a call -/

variable {F : Type}

def highStage : HighPc F → Stage
  | .forward work => .taken work
  | .top work => .taken work
  | .size work sleepTime => .looked work sleepTime
  | .send work _ => .timed work
  | .done => .left
  | _ => .away

def audioStage : AudioPc → Stage
  | .top work => .taken work
  | .size work sleepTime => .looked work sleepTime
  | .hold work _ => .timed work
  | .nap work _ _ => .timed work
  | .done => .left
  | _ => .away

def highSampler (s : Call F) (h : History) : Sampler := ⟨s.videoJB, s.lastVideoTimestamp, highStage s.high, h⟩

def audioSampler (s : Call F) (h : History) : Sampler := ⟨s.audioJB, s.lastAudioTimestamp, audioStage s.audio, h⟩

/-- What a step of the High handler adds to its history. -/
def watchHigh (fl : Floats F) (s : Call F) (l : Label) (h : History) : History :=
  if s.freed = true ∨ l ≠ .high then h
  else match s.high with
    | .top work => ⟨h.looks ++ [⟨work, s.videoJB.head?⟩], h.slept⟩
    | .size _ sleepTime =>
      ⟨h.looks, h.slept + (nextSampleOf fl s.now s.videoJB.length s.jbSize sleepTime - s.now)⟩
    | _ => h

def watchAudio (fl : Floats F) (s : Call F) (l : Label) (h : History) : History :=
  if s.freed = true ∨ l ≠ .listen then h
  else match s.audio with
    | .top work => ⟨h.looks ++ [⟨work, s.audioJB.head?⟩], h.slept⟩
    | .size _ sleepTime =>
      ⟨h.looks, h.slept + (nextSampleOf fl s.now s.audioJB.length s.jbSize sleepTime - s.now)⟩
    | _ => h

/-- The same with the sleeps as they are before the speed-up. -/
def nominalHigh (s : Call F) (l : Label) (h : History) : History :=
  if s.freed = true ∨ l ≠ .high then h
  else match s.high with
    | .top work => ⟨h.looks ++ [⟨work, s.videoJB.head?⟩], h.slept⟩
    | .size _ sleepTime => ⟨h.looks, h.slept + sleepTime⟩
    | _ => h

def nominalAudio (s : Call F) (l : Label) (h : History) : History :=
  if s.freed = true ∨ l ≠ .listen then h
  else match s.audio with
    | .top work => ⟨h.looks ++ [⟨work, s.audioJB.head?⟩], h.slept⟩
    | .size _ sleepTime => ⟨h.looks, h.slept + sleepTime⟩
    | _ => h

/-- The step is not a speed-up: `bufferSizeMs` is not over `jb_size`. -/
def HighUnhurried (s : Call F) (l : Label) : Prop :=
  l = .high → ∀ work sleepTime, s.high = .size work sleepTime → s.videoJB.length * sleepTime ≤ s.jbSize

def AudioUnhurried (s : Call F) (l : Label) : Prop :=
  l = .listen → ∀ work sleepTime, s.audio = .size work sleepTime → s.audioJB.length * sleepTime ≤ s.jbSize

def Sampler.Moves (v w : Sampler) : Prop := w = v ∨ v.Move w

theorem Paces.moves {v w : Sampler} (hv : Paces v) (h : v.Moves w) : Paces w := by
  rcases h with rfl | h
  · exact hv
  · exact hv.move h

theorem nextSampleOf_unhurried {fl : Floats F} {now size jbSize : Nat} {sleepTime : Int}
    (h : size * sleepTime ≤ jbSize) : nextSampleOf fl now size jbSize sleepTime - now = sleepTime := by
  rw [nextSampleOf, if_neg (not_lt.mpr h)]
  omega

section
variable {fl : Floats F} {cfg : Config} {s t : Call F} {b : History}

theorem watchHigh_unhurried {l : Label} (hu : HighUnhurried s l) : watchHigh fl s l b = nominalHigh s l b := by
  unfold watchHigh nominalHigh
  split
  · rfl
  · next hl =>
    rw [not_or, not_not] at hl
    split
    · rfl
    · next work sleepTime hpc => rw [nextSampleOf_unhurried (hu hl.2 work sleepTime hpc)]
    · rfl

theorem watchAudio_unhurried {l : Label} (hu : AudioUnhurried s l) : watchAudio fl s l b = nominalAudio s l b := by
  unfold watchAudio nominalAudio
  split
  · rfl
  · next hl =>
    rw [not_or, not_not] at hl
    split
    · rfl
    · next work sleepTime hpc => rw [nextSampleOf_unhurried (hu hl.2 work sleepTime hpc)]
    · rfl

theorem highStep_moves (hf : s.freed = false) (h : highStep fl cfg s = some t) :
    (highSampler s b).Moves (highSampler t (nominalHigh s .high b)) := by
  have hwatch : ¬ (s.freed = true ∨ Label.high ≠ .high) := by simp [hf]
  unfold nominalHigh
  rw [if_neg hwatch]
  cases highStepped h with
  | test hpc | sleep _ hpc _ =>
    simp only [highSampler, hpc]
    cases s.isRunning with
    | false => exact .inr (.leave s.videoJB (.inl rfl))
    | true => exact .inl rfl
  | starve hpc _ | fed hpc _ | nap _ _ hpc _ _ _ | resize _ _ hpc _ _ | full _ _ hpc _ _ | wake _ _ _ hpc _
  | wait hpc _ | forward _ hpc =>
    simp only [highSampler, hpc]
    exact .inl rfl
  | null hpc _ =>
    simp only [highSampler, hpc]
    exact .inr (.leave s.videoJB (.inl rfl))
  | take work rest hpc hq =>
    simp only [highSampler, hpc, hq]
    cases cfg.enableDual <;> exact .inr (.take work rest rfl rfl)
  | top work hpc =>
    simp only [highSampler, hpc]
    exact .inr (.look work rfl)
  | size work sleepTime hpc =>
    simp only [highSampler, hpc]
    exact .inr (.time work sleepTime rfl)
  | stop work nextSample hpc _ =>
    simp only [highSampler, hpc]
    exact .inr (.leave s.videoJB (.inr ⟨work, rfl⟩))
  | send work nextSample hpc _ =>
    simp only [highSampler, hpc]
    exact .inr (.pass work rfl)

theorem audioStep_moves (hf : s.freed = false) (h : audioStep fl s = some t) :
    (audioSampler s b).Moves (audioSampler t (nominalAudio s .listen b)) := by
  have hwatch : ¬ (s.freed = true ∨ Label.listen ≠ .listen) := by simp [hf]
  unfold nominalAudio
  rw [if_neg hwatch]
  cases audioStepped h with
  | test hpc | null hpc _ | sleep _ hpc _ =>
    simp only [audioSampler, hpc]
    cases s.isRunning with
    | false => exact .inr (.leave s.audioJB (.inl rfl))
    | true => exact .inl rfl
  | wait hpc _ | nap _ _ hpc _ _ | wake _ _ _ hpc _ =>
    simp only [audioSampler, hpc]
    exact .inl rfl
  | take work rest hpc hq =>
    simp only [audioSampler, hpc, hq]
    cases work.isFinished with
    | false => exact .inr (.take work rest rfl rfl)
    | true => exact .inr (.leave rest (.inl rfl))
  | top work hpc =>
    simp only [audioSampler, hpc]
    exact .inr (.look work rfl)
  | size work sleepTime hpc =>
    simp only [audioSampler, hpc]
    exact .inr (.time work sleepTime rfl)
  | send work nextSample hpc _ =>
    simp only [audioSampler, hpc]
    exact .inr (.pass work rfl)

theorem highStep_audioSampler (h : highStep fl cfg s = some t) : audioSampler t b = audioSampler s b := by
  rw [highStep_eq h]
  rfl

theorem audioStep_highSampler (h : audioStep fl s = some t) : highSampler t b = highSampler s b := by
  rw [audioStep_eq h]
  rfl

theorem lowStep_samplers (h : lowStep fl cfg s = some t) :
    highSampler t b = highSampler s b ∧ audioSampler t b = audioSampler s b := by
  rw [lowStep_eq h]
  exact ⟨rfl, rfl⟩

theorem finishVideo_samplers (timestamp : Int) : highSampler (finishVideo fl s timestamp) b = highSampler s b ∧
    audioSampler (finishVideo fl s timestamp) b = audioSampler s b := by
  rw [finishVideo_eq]
  exact ⟨rfl, rfl⟩

theorem discStep_moves {ok : Bool} (h : discStep cfg s ok = some t) :
    (highSampler s b).Moves (highSampler t b) ∧ (audioSampler s b).Moves (audioSampler t b) := by
  cases discStepped h with
  | addVideo => exact ⟨.inr (.add (sentinel cfg s)), .inl rfl⟩
  | addAudio => exact ⟨.inl rfl, .inr (.add (sentinel cfg s))⟩
  | _ => exact ⟨.inl rfl, .inl rfl⟩

theorem touchFreed_moves {l : Label} (h : touchFreed s l = some t) :
    (highSampler s b).Moves (highSampler t b) ∧ (audioSampler s b).Moves (audioSampler t b) := by
  cases freedTouched h with
  | stop work _ hpc _ =>
    simp only [highSampler, hpc]
    exact ⟨.inr (.leave s.videoJB (.inr ⟨work, rfl⟩)), .inl rfl⟩
  | _ => exact ⟨.inl rfl, .inl rfl⟩

theorem nominalHigh_other {l : Label} (hl : l ≠ .high) : nominalHigh s l b = b := if_pos (.inr hl)

theorem nominalAudio_other {l : Label} (hl : l ≠ .listen) : nominalAudio s l b = b := if_pos (.inr hl)

theorem high_step_moves {l : Label} (h : (system fl cfg).step s l = some t) :
    (highSampler s b).Moves (highSampler t (nominalHigh s l b)) := by
  cases stepped h with
  | deleted hf h =>
    rw [nominalHigh, if_pos (.inl hf)]
    exact (touchFreed_moves h).1
  | high hf h => exact highStep_moves hf h
  | tick => exact .inl (by rw [nominalHigh_other (by nofun)]; rfl)
  | video =>
    rw [nominalHigh_other (by nofun)]
    exact .inr (.add _)
  | fps timestamp =>
    rw [nominalHigh_other (by nofun)]
    exact .inl (finishVideo_samplers timestamp).1
  | audio =>
    rw [nominalHigh_other (by nofun)]
    exact .inl rfl
  | low _ h =>
    rw [nominalHigh_other (by nofun)]
    exact .inl (lowStep_samplers h).1
  | listen _ h =>
    rw [nominalHigh_other (by nofun)]
    exact .inl (audioStep_highSampler h)
  | disconnect ok _ h =>
    rw [nominalHigh_other (by nofun)]
    exact (discStep_moves h).1

theorem audio_step_moves {l : Label} (h : (system fl cfg).step s l = some t) :
    (audioSampler s b).Moves (audioSampler t (nominalAudio s l b)) := by
  cases stepped h with
  | deleted hf h =>
    rw [nominalAudio, if_pos (.inl hf)]
    exact (touchFreed_moves h).2
  | listen hf h => exact audioStep_moves hf h
  | tick => exact .inl (by rw [nominalAudio_other (by nofun)]; rfl)
  | video =>
    rw [nominalAudio_other (by nofun)]
    exact .inl rfl
  | fps timestamp =>
    rw [nominalAudio_other (by nofun)]
    exact .inl (finishVideo_samplers timestamp).2
  | audio =>
    rw [nominalAudio_other (by nofun)]
    exact .inr (.add _)
  | high _ h =>
    rw [nominalAudio_other (by nofun)]
    exact .inl (highStep_audioSampler h)
  | low _ h =>
    rw [nominalAudio_other (by nofun)]
    exact .inl (lowStep_samplers h).2
  | disconnect ok _ h =>
    rw [nominalAudio_other (by nofun)]
    exact (discStep_moves h).2

/-! ## Every run -/

theorem Paces.stream {v : Sampler} (hv : Paces v) (ht : Timely (packets v.history.looks)) :
    ∃ x : Stream, Meets x v.history.looks ∧ ((∀ work sleepTime, v.stage ≠ .looked work sleepTime) →
      (handleAll x v.history.looks.length).slept = v.history.slept) := by
  obtain ⟨x, hx⟩ := exists_stream hv.linked ht
  refine ⟨x, hx, fun hstage => ?_⟩
  rw [hx.pace]
  have hstep := hv.inStep
  unfold Sampler.InStep at hstep
  cases hs : v.stage with
  | looked work sleepTime => exact absurd hs (hstage work sleepTime)
  | left =>
    rw [hs] at hstep
    exact hstep
  | _ =>
    rw [hs] at hstep
    exact congrArg Pace.slept hstep.1

theorem start_paces {v : Sampler} (hs : v.stage = .away) (hlast : v.lastTimestamp = 0)
    (hb : v.history = ⟨[], 0⟩) : Paces v := by
  refine ⟨?_, ?_⟩
  · rw [hb]
    exact List.isChain_nil
  · unfold Sampler.InStep Sampler.Waiting
    rw [hs, hlast, hb]
    exact ⟨rfl, nofun⟩

/-- The High handler up to `s` has met a stream, and `b.slept` is what it sleeps over it. -/
theorem high_paces (hr : (system fl cfg).Run HighUnhurried (init fl cfg) s) :
    ∃ b, ((system fl cfg).watched (watchHigh fl) ⟨[], 0⟩).Run (fun p => HighUnhurried p.1)
        (init fl cfg, ⟨[], 0⟩) (s, b) ∧
      (Timely (packets b.looks) → ∃ x : Stream, Meets x b.looks ∧
        ((∀ work sleepTime, s.high ≠ .size work sleepTime) → (handleAll x b.looks.length).slept = b.slept)) := by
  obtain ⟨b, hrun⟩ : ∃ b, ((system fl cfg).watched (watchHigh fl) ⟨[], 0⟩).Run (fun p => HighUnhurried p.1)
      (init fl cfg, ⟨[], 0⟩) (s, b) := hr.watched (History.mk [] 0)
  refine ⟨b, hrun, fun ht => ?_⟩
  have hpaces : Paces (highSampler s b) := by
    refine hrun.invariant (I := fun p => Paces (highSampler p.1 p.2)) (fun p l q hok hp hstep => ?_)
      (start_paces rfl rfl rfl)
    obtain ⟨t, ht, rfl⟩ := Option.map_eq_some_iff.mp hstep
    rw [watchHigh_unhurried hok]
    exact hp.moves (high_step_moves ht)
  obtain ⟨x, hx, hslept⟩ := hpaces.stream ht
  refine ⟨x, hx, fun hsize => hslept fun work sleepTime hstage => ?_⟩
  have hpc : highStage s.high = .looked work sleepTime := hstage
  unfold highStage at hpc
  split at hpc <;> cases hpc
  next hhigh => exact hsize work sleepTime hhigh

theorem audio_paces (hr : (system fl cfg).Run AudioUnhurried (init fl cfg) s) :
    ∃ b, ((system fl cfg).watched (watchAudio fl) ⟨[], 0⟩).Run (fun p => AudioUnhurried p.1)
        (init fl cfg, ⟨[], 0⟩) (s, b) ∧
      (Timely (packets b.looks) → ∃ x : Stream, Meets x b.looks ∧
        ((∀ work sleepTime, s.audio ≠ .size work sleepTime) → (handleAll x b.looks.length).slept = b.slept)) := by
  obtain ⟨b, hrun⟩ : ∃ b, ((system fl cfg).watched (watchAudio fl) ⟨[], 0⟩).Run (fun p => AudioUnhurried p.1)
      (init fl cfg, ⟨[], 0⟩) (s, b) := hr.watched (History.mk [] 0)
  refine ⟨b, hrun, fun ht => ?_⟩
  have hpaces : Paces (audioSampler s b) := by
    refine hrun.invariant (I := fun p => Paces (audioSampler p.1 p.2)) (fun p l q hok hp hstep => ?_)
      (start_paces rfl rfl rfl)
    obtain ⟨t, ht, rfl⟩ := Option.map_eq_some_iff.mp hstep
    rw [watchAudio_unhurried hok]
    exact hp.moves (audio_step_moves ht)
  obtain ⟨x, hx, hslept⟩ := hpaces.stream ht
  refine ⟨x, hx, fun hsize => hslept fun work sleepTime hstage => ?_⟩
  have hpc : audioStage s.audio = .looked work sleepTime := hstage
  unfold audioStage at hpc
  split at hpc <;> cases hpc
  next haudio => exact hsize work sleepTime haudio

end

end Rtmpg.Pacing
