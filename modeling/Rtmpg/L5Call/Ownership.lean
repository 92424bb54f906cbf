import Rtmpg.Core.Ledger
import Rtmpg.L5Call.Scaler

/-!
# What the encoder of the low stream allocates

The pointers of `AgoraEncoder` (`helpers/agoraencoder.cpp:14-112,187-241`) from
its constructor to its destructor: the encoder of x264, the plane of its input
picture, the scaler's context, and for each frame an `AVFrame` with its
picture. The runs are those of `doSendLowVideo`; a block is named after the
call it was allocated in.

`encode` points the input picture at the scaled one and frees that at its end;
the destructor clears the pointer before x264 would free it once more. On the
two early returns of `scaleFrame` nobody frees what there is.

* `encodePointers_audit`: one call.
* `encoder_leaks`: in every run no block is used or freed that is not held, the
  pointers are null where the encoder's are, and behind the destructor exactly
  the frames and pictures of failed calls are left, and what x264 allocated for
  its input picture.
-/
namespace Rtmpg.LowVideo

open Rtmpg.Agorac Rtmpg.Ledger

variable {F : Type}

inductive Kind where
  | codec
  | input
  | scaleContext
  | frame
  | picture
  deriving DecidableEq

/-- `init` is call 0, the calls of `encode` are those from 1 on. -/
structure Block where
  kind : Kind
  call : Nat
  deriving DecidableEq

/-- `plane` is `m_avInputFrame.img.plane[0]`. -/
structure Pointers where
  avCodec : Option Block
  plane : Option Block
  scaleContext : Option Block
  deriving DecidableEq

abbrev Trail := List (Entry Block)

/-- mirrors agoraencoder.cpp:187-209 -/
def createVideoScaleContext (call : Nat) (p : Pointers) (ok : Bool) : Pointers × Trail :=
  let (context, taken) := alloc ⟨.scaleContext, call⟩ ok
  ({ p with scaleContext := context }, free p.scaleContext ++ taken)

structure InitOutcome where
  encoderOpen : Bool
  pictureAlloc : Bool
  getContext : Bool

/-- The return value with the pointers.
mirrors agoraencoder.cpp:14-26,40-57 -/
def initPointers (i : InitOutcome) : Bool × Pointers × Trail :=
  match alloc ⟨.codec, 0⟩ i.encoderOpen with
  | (none, _) => (false, ⟨none, none, none⟩, [])
  | (some codec, opened) =>
    let (plane, taken) := alloc ⟨.input, 0⟩ i.pictureAlloc
    let (p, made) := createVideoScaleContext 0 ⟨some codec, plane, none⟩ i.getContext
    (true, p, opened ++ taken ++ made)

/-- The frame and its picture, if the result is not `nullptr`.
mirrors agoraencoder.cpp:215-241 -/
def scaleFramePointers (call : Nat) (context : Option Block) (o : EncodeOutcome) : Option (Block × Block) × Trail :=
  let frame : Block := ⟨.frame, call⟩
  let picture : Block := ⟨.picture, call⟩
  if o.frameAlloc = false then (none, [])
  else if o.imageAlloc < 0 then (none, [.take frame])
  else
    let scaled := [.take frame, .take picture] ++ touch context ++ [.use picture]
    if o.swsScale ≤ 0 then (none, scaled) else (some (frame, picture), scaled)

/-- x264 is asked for delayed frames once more than it has some.
mirrors agoraencoder.cpp:59-112 -/
def encodePointers (call : Nat) (p : Pointers) (e : Encoder) (inFrame : Frame) (o : EncodeOutcome) :
    Pointers × Trail :=
  match p.avCodec with
  | none => (p, [])
  | some codec =>
    let (p, resized) :=
      if inFrame.width ≠ e.srcWidth ∨ inFrame.height ≠ e.srcHeight then
        createVideoScaleContext call p o.getContext
      else (p, [])
    match scaleFramePointers call p.scaleContext o with
    | (none, scaled) => (p, resized ++ scaled)
    | (some (frame, picture), scaled) =>
      ({ p with plane := some picture },
        resized ++ (scaled ++ ([.use frame, .use codec, .use picture] ++
          (List.replicate (2 * o.flushes.length + 1) (.use codec) ++ [.give picture, .give frame]))))

/-- mirrors agoraencoder.cpp:28-39 -/
def destroy (p : Pointers) : Trail :=
  match p.avCodec with
  | none => []
  | some codec =>
    let p := { p with plane := none }
    free p.plane ++ ([.give codec] ++ free p.scaleContext)

/-! ## One call -/

/-- What the destructor frees. -/
def Pointers.live (p : Pointers) : Finset Block := p.avCodec.toFinset ∪ p.scaleContext.toFinset

/-- What a call leaves behind. -/
def lost (call : Nat) (o : EncodeOutcome) : Finset Block :=
  if o.frameAlloc = false then ∅
  else if o.imageAlloc < 0 then {⟨.frame, call⟩}
  else if o.swsScale ≤ 0 then {⟨.frame, call⟩, ⟨.picture, call⟩}
  else ∅

/-- An open encoder before the call `call`. -/
structure Pointers.Ready (p : Pointers) (call : Nat) : Prop where
  codec : p.avCodec = some ⟨.codec, 0⟩
  context : ∀ b ∈ p.scaleContext, b.kind = .scaleContext ∧ b.call < call

theorem Pointers.Ready.live {p : Pointers} {call : Nat} (hp : p.Ready call) :
    p.live = insert ⟨.codec, 0⟩ p.scaleContext.toFinset := by
  rw [Pointers.live, hp.codec, Option.toFinset_some, Finset.insert_eq]

theorem resize_audit {p : Pointers} {call : Nat} (hp : p.Ready call) (ok : Bool) :
    audit p.live (createVideoScaleContext call p ok).2 = some (createVideoScaleContext call p ok).1.live ∧
      (createVideoScaleContext call p ok).1.Ready (call + 1) := by
  have hready : (createVideoScaleContext call p ok).1.Ready (call + 1) := by
    refine ⟨hp.codec, fun b hb => ?_⟩
    cases ok with
    | false => cases hb
    | true =>
      cases hb
      exact ⟨rfl, Nat.lt_succ_self call⟩
  have hcodec : (⟨.codec, 0⟩ : Block) ∉ p.scaleContext.toFinset := fun hb => by
    cases (hp.context _ (Option.mem_toFinset.mp hb)).1
  have hfree : audit p.live (free p.scaleContext) = some {⟨.codec, 0⟩} := by
    rw [hp.live, audit_free fun b hb => Finset.mem_insert_of_mem (Option.mem_toFinset.mpr hb),
      Finset.insert_sdiff_of_notMem _ hcodec, Finset.sdiff_self]
    rfl
  refine ⟨?_, hready⟩
  rw [hready.live]
  exact audit_trans hfree (audit_alloc (by simp) ok)

/-- Nothing of a frame is held before it is scaled. -/
theorem Pointers.Ready.fresh {p : Pointers} {call : Nat} (hp : p.Ready call) {b : Block}
    (hb : b.kind = .frame ∨ b.kind = .picture) : b ∉ p.live := by
  rw [hp.live, Finset.mem_insert, Option.mem_toFinset, not_or]
  refine ⟨fun he => ?_, fun hmem => ?_⟩
  · subst he
    rcases hb with h | h <;> cases h
  · rw [(hp.context b hmem).1] at hb
    rcases hb with h | h <;> cases h

theorem scale_audit {p : Pointers} {call : Nat} (hp : p.Ready (call + 1)) (o : EncodeOutcome) :
    (∃ scaled, scaleFramePointers call p.scaleContext o = (none, scaled) ∧
      audit p.live scaled = some (p.live ∪ lost call o)) ∨
    (∃ scaled, scaleFramePointers call p.scaleContext o = (some (⟨.frame, call⟩, ⟨.picture, call⟩), scaled) ∧
      audit p.live scaled = some (insert ⟨.picture, call⟩ (insert ⟨.frame, call⟩ p.live)) ∧ lost call o = ∅) := by
  have hframe : (⟨.frame, call⟩ : Block) ∉ p.live := hp.fresh (.inl rfl)
  have hpicture : (⟨.picture, call⟩ : Block) ∉ insert ⟨.frame, call⟩ p.live := by
    rw [Finset.mem_insert, not_or]
    exact ⟨by simp, hp.fresh (.inr rfl)⟩
  have hscaled : audit p.live ([.take ⟨.frame, call⟩, .take ⟨.picture, call⟩] ++ touch p.scaleContext ++
      [.use ⟨.picture, call⟩]) = some (insert ⟨.picture, call⟩ (insert ⟨.frame, call⟩ p.live)) := by
    refine audit_trans (audit_trans (audit_trans (audit_take hframe) (audit_take hpicture)) (audit_touch ?_))
      (audit_uses ?_)
    · intro b hb
      exact Finset.mem_insert_of_mem (Finset.mem_insert_of_mem
        (Finset.mem_union_right _ (Option.mem_toFinset.mpr hb)))
    · intro e he
      exact ⟨_, Finset.mem_insert_self _ _, List.mem_singleton.mp he⟩
  unfold scaleFramePointers lost
  by_cases h₁ : o.frameAlloc = false
  · rw [if_pos h₁, if_pos h₁]
    exact .inl ⟨[], rfl, by rw [Finset.union_empty]; rfl⟩
  rw [if_neg h₁, if_neg h₁]
  by_cases h₂ : o.imageAlloc < 0
  · rw [if_pos h₂, if_pos h₂]
    exact .inl ⟨_, rfl, by rw [audit_take hframe, Finset.insert_eq, Finset.union_comm]⟩
  rw [if_neg h₂, if_neg h₂]
  by_cases h₃ : o.swsScale ≤ 0
  · rw [if_pos h₃, if_pos h₃]
    refine .inl ⟨_, rfl, ?_⟩
    rw [hscaled]
    rw [Finset.insert_comm, Finset.union_comm, Finset.insert_union, ← Finset.insert_eq]
  · rw [if_neg h₃, if_neg h₃]
    exact .inr ⟨_, rfl, hscaled, rfl⟩

theorem encodePointers_audit {p : Pointers} {call : Nat} (hp : p.Ready call) (e : Encoder) (inFrame : Frame)
    (o : EncodeOutcome) :
    audit p.live (encodePointers call p e inFrame o).2 =
        some ((encodePointers call p e inFrame o).1.live ∪ lost call o) ∧
      (encodePointers call p e inFrame o).1.Ready (call + 1) := by
  obtain ⟨p', resized, hresize, haudit, hp'⟩ : ∃ p' resized,
      (if inFrame.width ≠ e.srcWidth ∨ inFrame.height ≠ e.srcHeight then
        createVideoScaleContext call p o.getContext else (p, [])) = (p', resized) ∧
      audit p.live resized = some p'.live ∧ p'.Ready (call + 1) := by
    split
    · obtain ⟨haudit, hready⟩ := resize_audit hp o.getContext
      exact ⟨_, _, rfl, haudit, hready⟩
    · exact ⟨p, [], rfl, rfl, hp.codec, fun b hb => (hp.context b hb).imp_right (Nat.lt_succ_of_lt ·)⟩
  have hcodec : (⟨.codec, 0⟩ : Block) ∈ p'.live := by
    rw [hp'.live]
    exact Finset.mem_insert_self _ _
  have hencode : encodePointers call p e inFrame o =
      match scaleFramePointers call p'.scaleContext o with
      | (none, scaled) => (p', resized ++ scaled)
      | (some (frame, picture), scaled) =>
        ({ p' with plane := some picture },
          resized ++ (scaled ++ ([.use frame, .use ⟨.codec, 0⟩, .use picture] ++
            (List.replicate (2 * o.flushes.length + 1) (.use ⟨.codec, 0⟩) ++ [.give picture, .give frame])))) := by
    simp only [encodePointers, hp.codec, hresize]
  rcases scale_audit hp' o with ⟨scaled, hscale, hend⟩ | ⟨scaled, hscale, hmid, hlost⟩
  · rw [hencode, hscale]
    exact ⟨audit_trans haudit hend, hp'⟩
  · rw [hencode, hscale]
    have hframe : (⟨.frame, call⟩ : Block) ∉ p'.live := hp'.fresh (.inl rfl)
    have hpicture : (⟨.picture, call⟩ : Block) ∉ insert ⟨.frame, call⟩ p'.live := by
      rw [Finset.mem_insert, not_or]
      exact ⟨by simp, hp'.fresh (.inr rfl)⟩
    have hfreed : audit (insert ⟨.picture, call⟩ (insert ⟨.frame, call⟩ p'.live))
        ([.give ⟨.picture, call⟩] ++ [.give ⟨.frame, call⟩]) = some p'.live := by
      refine audit_trans (audit_give (Finset.mem_insert_self _ _)) ?_
      rw [Finset.erase_insert hpicture, audit_give (Finset.mem_insert_self _ _), Finset.erase_insert hframe]
    refine ⟨audit_trans haudit (audit_trans hmid (audit_trans (audit_uses fun e he => ?_)
      (audit_trans (audit_uses fun e he => ?_) ?_))), hp'.codec, hp'.context⟩
    · rcases List.mem_cons.mp he with rfl | he
      · exact ⟨_, Finset.mem_insert_of_mem (Finset.mem_insert_self _ _), rfl⟩
      rcases List.mem_cons.mp he with rfl | he
      · exact ⟨_, Finset.mem_insert_of_mem (Finset.mem_insert_of_mem hcodec), rfl⟩
      · exact ⟨_, Finset.mem_insert_self _ _, List.mem_singleton.mp he⟩
    · exact ⟨_, Finset.mem_insert_of_mem (Finset.mem_insert_of_mem hcodec), List.eq_of_mem_replicate he⟩
    · rw [hlost, Finset.union_empty]
      exact hfreed

/-- The blocks of a call are new ones. -/
def Fresh (call : Nat) (t : Trail) : Prop := ∀ b, .take b ∈ t → b.call = call

theorem Fresh.append {call : Nat} {t u : Trail} (ht : Fresh call t) (hu : Fresh call u) : Fresh call (t ++ u) :=
  fun b hb => (List.mem_append.mp hb).elim (ht b) (hu b)

theorem resize_fresh (call : Nat) (p : Pointers) (ok : Bool) : Fresh call (createVideoScaleContext call p ok).2 := by
  cases ok <;> simp [createVideoScaleContext, alloc, free, Fresh]

theorem scale_fresh (call : Nat) (context : Option Block) (o : EncodeOutcome) :
    Fresh call (scaleFramePointers call context o).2 := by
  unfold scaleFramePointers
  split_ifs <;> simp [touch, Fresh]

theorem encodePointers_fresh (call : Nat) (p : Pointers) (e : Encoder) (inFrame : Frame) (o : EncodeOutcome) :
    Fresh call (encodePointers call p e inFrame o).2 := by
  have hresize : Fresh call (if inFrame.width ≠ e.srcWidth ∨ inFrame.height ≠ e.srcHeight then
      createVideoScaleContext call p o.getContext else (p, [])).2 := by
    split
    · exact resize_fresh call p o.getContext
    · exact fun b hb => absurd hb List.not_mem_nil
  unfold encodePointers
  split
  · exact fun b hb => absurd hb List.not_mem_nil
  dsimp only
  have hscale := scale_fresh call (if inFrame.width ≠ e.srcWidth ∨ inFrame.height ≠ e.srcHeight then
      createVideoScaleContext call p o.getContext else (p, [])).1.scaleContext o
  split
  · next hs =>
    rw [hs] at hscale
    exact hresize.append hscale
  · next hs =>
    rw [hs] at hscale
    refine hresize.append (hscale.append (.append ?_ (.append ?_ ?_)))
    · simp [Fresh]
    · exact fun b hb => by cases List.eq_of_mem_replicate hb
    · simp [Fresh]

/-- The pointers are null where those of the encoder are. -/
theorem encodePointers_null {p : Pointers} {call : Nat} {e : Encoder} (hp : p.Ready call)
    (hnull : p.scaleContext.isSome = e.scaleContext) (inFrame : Frame) (o : EncodeOutcome) :
    (encodePointers call p e inFrame o).1.scaleContext.isSome = (e.forFrame inFrame o).scaleContext := by
  have hresize : (if inFrame.width ≠ e.srcWidth ∨ inFrame.height ≠ e.srcHeight then
      createVideoScaleContext call p o.getContext else (p, [])).1.scaleContext.isSome =
      (e.forFrame inFrame o).scaleContext := by
    unfold Encoder.forFrame
    split
    · simp only [createVideoScaleContext, onResolutionChange, alloc]
      cases o.getContext <;> rfl
    · exact hnull
  unfold encodePointers
  rw [hp.codec]
  dsimp only
  split <;> exact hresize

/-! ## What is left behind -/

def leaked (i : InitOutcome) (outcomes : List EncodeOutcome) : Finset Block :=
  (outcomes.zipIdx 1).foldl (fun left x => left ∪ lost x.2 x.1) (alloc ⟨.input, 0⟩ i.pictureAlloc).1.toFinset

def lostCount (o : EncodeOutcome) : Nat :=
  if o.frameAlloc = false then 0 else if o.imageAlloc < 0 then 1 else if o.swsScale ≤ 0 then 2 else 0

theorem leaked_concat (i : InitOutcome) (outcomes : List EncodeOutcome) (o : EncodeOutcome) :
    leaked i (outcomes ++ [o]) = leaked i outcomes ∪ lost (outcomes.length + 1) o := by
  rw [leaked, List.zipIdx_append, List.foldl_append, leaked, Nat.add_comm]
  rfl

theorem mem_lost {call : Nat} {o : EncodeOutcome} {b : Block} (h : b ∈ lost call o) :
    (b.kind = .frame ∨ b.kind = .picture) ∧ b.call = call := by
  unfold lost at h
  split_ifs at h
  · cases Finset.notMem_empty b h
  · rw [Finset.mem_singleton.mp h]
    exact ⟨.inl rfl, rfl⟩
  · rcases Finset.mem_insert.mp h with rfl | h
    · exact ⟨.inl rfl, rfl⟩
    · rw [Finset.mem_singleton.mp h]
      exact ⟨.inr rfl, rfl⟩
  · cases Finset.notMem_empty b h

theorem mem_leaked {i : InitOutcome} {outcomes : List EncodeOutcome} {b : Block} (h : b ∈ leaked i outcomes) :
    (b.kind = .input ∨ b.kind = .frame ∨ b.kind = .picture) ∧ b.call ≤ outcomes.length := by
  induction outcomes using List.reverseRecOn with
  | nil =>
    rw [leaked, List.zipIdx_nil, List.foldl_nil, Option.mem_toFinset, alloc] at h
    split at h
    · cases h
      exact ⟨.inl rfl, le_rfl⟩
    · cases h
  | append_singleton outcomes o ih =>
    rw [leaked_concat, Finset.mem_union] at h
    rw [List.length_append, List.length_singleton]
    rcases h with h | h
    · exact (ih h).imp_right Nat.le_succ_of_le
    · obtain ⟨hkind, hcall⟩ := mem_lost h
      exact ⟨.inr hkind, hcall.le⟩

theorem lost_card (call : Nat) (o : EncodeOutcome) : (lost call o).card = lostCount o := by
  unfold lost lostCount
  split_ifs
  · rfl
  · rfl
  · exact Finset.card_pair (by simp)
  · rfl

theorem leaked_card (i : InitOutcome) (outcomes : List EncodeOutcome) :
    (leaked i outcomes).card = (if i.pictureAlloc then 1 else 0) + (outcomes.map lostCount).sum := by
  induction outcomes using List.reverseRecOn with
  | nil => cases h : i.pictureAlloc <;> simp [leaked, alloc, h]
  | append_singleton outcomes o ih =>
    have hd : Disjoint (leaked i outcomes) (lost (outcomes.length + 1) o) := by
      refine Finset.disjoint_left.mpr fun b hb hb' => ?_
      have := (mem_leaked hb).2
      have := (mem_lost hb').2
      omega
    rw [leaked_concat, Finset.card_union_of_disjoint hd, ih, lost_card, List.map_append, List.sum_append,
      List.map_singleton, List.sum_singleton, Nat.add_assoc]

/-! ## Every run -/

/-- The pointers of an encoder, the outcomes of its calls of `encode`, and what it did with blocks. -/
structure Life where
  pointers : Pointers
  outcomes : List EncodeOutcome
  trail : Trail

def Life.start (i : InitOutcome) : Life := ⟨(initPointers i).2.1, [], (initPointers i).2.2⟩

def watchLife (fl : Floats F) (dfps : Nat) (s : Low F) (l : LowLabel F) (g : Life) : Life :=
  match l with
  | .work w =>
    if wanted fl dfps s w.work.isKeyFrame then
      let (p, t) := encodePointers (g.outcomes.length + 1) g.pointers s.encoder (frameOf s w) w.encode
      ⟨p, g.outcomes ++ [w.encode], g.trail ++ t⟩
    else g
  | _ => g

/-- Every order of calls, with what became of the blocks. -/
def Lived (fl : Floats F) (dfps : Nat) (i : InitOutcome) (s₀ s : Low F) (g : Life) : Prop :=
  ((lowSystem fl dfps).watched (watchLife fl dfps) (Life.start i)).Run (fun _ _ => True) (s₀, Life.start i) (s, g)

structure Owned (i : InitOutcome) (s : Low F) (g : Life) : Prop where
  codec : s.encoder.codec = true
  ready : g.pointers.Ready (g.outcomes.length + 1)
  null : g.pointers.scaleContext.isSome = s.encoder.scaleContext
  images : g.outcomes.length = s.sent.length
  held : audit ∅ g.trail = some (g.pointers.live ∪ leaked i g.outcomes)

theorem Pointers.Ready.disjoint {p : Pointers} {call : Nat} (hp : p.Ready call) (i : InitOutcome)
    (outcomes : List EncodeOutcome) : Disjoint p.live (leaked i outcomes) := by
  refine Finset.disjoint_left.mpr fun b hb hb' => ?_
  obtain ⟨hkind, -⟩ := mem_leaked hb'
  rw [hp.live, Finset.mem_insert, Option.mem_toFinset] at hb
  rcases hb with rfl | hb
  · simp at hkind
  · rw [(hp.context b hb).1] at hkind
    simp at hkind

theorem init_audit {i : InitOutcome} (hi : i.encoderOpen = true) :
    audit ∅ (Life.start i).trail = some ((Life.start i).pointers.live ∪ leaked i []) ∧
      (Life.start i).pointers.Ready 1 ∧ (Life.start i).pointers.scaleContext.isSome = i.getContext := by
  have hcodec : audit ∅ [.take (⟨.codec, 0⟩ : Block)] = some {⟨.codec, 0⟩} := audit_take (Finset.notMem_empty _)
  have hplane : audit ({⟨.codec, 0⟩} : Finset Block) (alloc ⟨.input, 0⟩ i.pictureAlloc).2 =
      some ({⟨.codec, 0⟩} ∪ (alloc ⟨.input, 0⟩ i.pictureAlloc).1.toFinset) := audit_alloc (by simp) i.pictureAlloc
  have hcontext : audit ({⟨.codec, 0⟩} ∪ (alloc (⟨.input, 0⟩ : Block) i.pictureAlloc).1.toFinset)
      (alloc ⟨.scaleContext, 0⟩ i.getContext).2 =
      some ({⟨.codec, 0⟩} ∪ (alloc ⟨.input, 0⟩ i.pictureAlloc).1.toFinset ∪
        (alloc ⟨.scaleContext, 0⟩ i.getContext).1.toFinset) :=
    audit_alloc (by cases i.pictureAlloc <;> simp [alloc]) i.getContext
  have hlife : Life.start i = ⟨⟨some ⟨.codec, 0⟩, (alloc ⟨.input, 0⟩ i.pictureAlloc).1,
      (alloc ⟨.scaleContext, 0⟩ i.getContext).1⟩, [], [.take ⟨.codec, 0⟩] ++ (alloc ⟨.input, 0⟩ i.pictureAlloc).2 ++
        (alloc ⟨.scaleContext, 0⟩ i.getContext).2⟩ := by
    simp only [Life.start, initPointers, hi, alloc, if_true]
    rfl
  rw [hlife]
  refine ⟨?_, ⟨rfl, ?_⟩, ?_⟩
  · rw [audit_trans (audit_trans hcodec hplane) hcontext, Pointers.live, leaked, Option.toFinset_some,
      Finset.union_right_comm]
    rfl
  · cases i.getContext <;> simp [alloc]
  · cases i.getContext <;> rfl

theorem owned_start (predictedFps : F) (avOutFrame : Frame) {e : Encoder} {i : InitOutcome}
    (hi : i.encoderOpen = true) (hcodec : e.codec = true) (hcontext : e.scaleContext = i.getContext) :
    Owned i (lowStart predictedFps avOutFrame e) (Life.start i) := by
  obtain ⟨haudit, hready, hnull⟩ := init_audit hi
  exact ⟨hcodec, hready, hnull.trans hcontext.symm, rfl, haudit⟩

/-- A `Work` that is encoded. -/
theorem doSendLowVideo_wanted {fl : Floats F} {dfps : Nat} {s t : Low F} {w : LowInput}
    (h : doSendLowVideo fl dfps s w = some t) (hwant : wanted fl dfps s w.work.isKeyFrame = true)
    (hcodec : s.encoder.codec = true) :
    t.encoder = s.encoder.forFrame (frameOf s w) w.encode ∧ t.sent.length = s.sent.length + 1 := by
  have hw : wanted fl dfps { s with avOutFrame := (decode s.avOutFrame w.decode).2 } w.work.isKeyFrame = true := hwant
  unfold doSendLowVideo at h
  dsimp only at h
  rw [if_pos hw] at h
  obtain ⟨⟨encoded, e, out, size⟩, henc, rfl⟩ := Option.map_eq_some_iff.mp h
  exact ⟨encode_encoder henc hcodec, List.length_append⟩

theorem owned_step {fl : Floats F} {dfps : Nat} {i : InitOutcome} {s t : Low F} {g : Life} {l : LowLabel F}
    (hg : Owned i s g) (h : (lowSystem fl dfps).step s l = some t) : Owned i t (watchLife fl dfps s l g) := by
  cases l with
  | others predictedFps count =>
    cases h
    exact ⟨hg.codec, hg.ready, hg.null, hg.images, hg.held⟩
  | reset predictedFps =>
    cases h
    exact ⟨hg.codec, hg.ready, hg.null, hg.images, hg.held⟩
  | work w =>
    by_cases hwant : wanted fl dfps s w.work.isKeyFrame = true
    · rw [watchLife, if_pos hwant]
      obtain ⟨henc, hsent⟩ := doSendLowVideo_wanted h hwant hg.codec
      obtain ⟨haudit, hready⟩ := encodePointers_audit hg.ready s.encoder (frameOf s w) w.encode
      refine ⟨?_, ?_, ?_, ?_, ?_⟩
      · rw [henc, forFrame_codec]
        exact hg.codec
      · rw [List.length_append]
        exact hready
      · rw [henc]
        exact encodePointers_null hg.ready hg.null (frameOf s w) w.encode
      · rw [List.length_append, hg.images, hsent]
        rfl
      · -- what is left behind is held beside the call and not touched by it
        have hframed := audit_frame haudit (hg.ready.disjoint i g.outcomes) fun b hb hleft => by
          have := encodePointers_fresh _ _ _ _ _ b hb
          have := (mem_leaked hleft).2
          omega
        dsimp only
        rw [leaked_concat, audit_trans hg.held hframed]
        congr 1
        rw [Finset.union_assoc, Finset.union_comm (lost _ _)]
    · obtain ⟨-, rfl⟩ | ⟨hyes, -⟩ := doSendLowVideo_cases h
      · rw [watchLife, if_neg hwant]
        exact ⟨hg.codec, hg.ready, hg.null, hg.images, hg.held⟩
      · exact absurd hyes hwant

/-- The destructor frees what `encode` has kept. -/
theorem destroy_audit {p : Pointers} {call : Nat} (hp : p.Ready call) : audit p.live (destroy p) = some ∅ := by
  have hcodec : (⟨.codec, 0⟩ : Block) ∉ p.scaleContext.toFinset := fun hb => by
    cases (hp.context _ (Option.mem_toFinset.mp hb)).1
  have hdestroy : destroy p = [.give ⟨.codec, 0⟩] ++ free p.scaleContext := by
    simp only [destroy, hp.codec]
    rfl
  rw [hdestroy, hp.live]
  refine audit_trans (audit_give (Finset.mem_insert_self _ _)) ?_
  rw [Finset.erase_insert hcodec, audit_free fun b hb => Option.mem_toFinset.mpr hb, Finset.sdiff_self]

theorem destroy_take (p : Pointers) (b : Block) : .take b ∉ destroy p := by
  unfold destroy
  split <;> simp [free]

/-- No block is used or freed that is not held, and behind the destructor exactly the known leaks
are left. -/
theorem encoder_leaks (fl : Floats F) (dfps : Nat) (predictedFps : F) (avOutFrame : Frame) (e : Encoder)
    (i : InitOutcome) (hi : i.encoderOpen = true) (hcodec : e.codec = true) (hcontext : e.scaleContext = i.getContext)
    (s : Low F) (g : Life) (hr : Lived fl dfps i (lowStart predictedFps avOutFrame e) s g) :
    (g.pointers.avCodec.isSome = s.encoder.codec ∧ g.pointers.scaleContext.isSome = s.encoder.scaleContext ∧
        g.outcomes.length = s.sent.length) ∧
      audit ∅ g.trail = some (g.pointers.live ∪ leaked i g.outcomes) ∧
      audit ∅ (g.trail ++ destroy g.pointers) = some (leaked i g.outcomes) ∧
      (∀ b, (g.trail ++ destroy g.pointers).count (.give b) + (if b ∈ leaked i g.outcomes then 1 else 0) =
        (g.trail ++ destroy g.pointers).count (.take b)) ∧
      (leaked i g.outcomes).card = (if i.pictureAlloc then 1 else 0) + (g.outcomes.map lostCount).sum := by
  have hg : Owned i s g := by
    refine hr.invariant (I := fun p => Owned i p.1 p.2) (fun p l q _ hp hstep => ?_)
      (owned_start predictedFps avOutFrame hi hcodec hcontext)
    obtain ⟨t, ht, rfl⟩ := Option.map_eq_some_iff.mp hstep
    exact owned_step hp ht
  have hdestroyed : audit ∅ (g.trail ++ destroy g.pointers) = some (leaked i g.outcomes) := by
    have hframed := audit_frame (destroy_audit hg.ready) (hg.ready.disjoint i g.outcomes) fun b hb =>
      absurd hb (destroy_take g.pointers b)
    rw [Finset.empty_union] at hframed
    exact audit_trans hg.held hframed
  refine ⟨⟨?_, hg.null, hg.images⟩, hg.held, hdestroyed, fun b => ?_, leaked_card i g.outcomes⟩
  · rw [hg.ready.codec, hg.codec]
    rfl
  · simpa using audit_count hdestroyed b

theorem undecodable_step :
    ∃ t, doSendLowVideo rationals 15 (lowStart 30 ⟨0, 0⟩ openEncoder) undecodable = some t := by
  have hkey : undecodable.work.isKeyFrame = true := rfl
  have hdec : undecodable.decode = .receiveFails := rfl
  have henc : encode openEncoder ⟨0, 0⟩ undecodable.outBuffer 0 undecodable.encode =
      some (false, ⟨true, 0, 0, false⟩, undecodable.outBuffer, 0) := rfl
  simp only [doSendLowVideo, wanted, lowStart, hkey, hdec, decode, henc, Bool.or_true, if_true, Option.map_some]
  exact ⟨_, rfl⟩

/-- A key frame without a picture costs a frame and its picture. -/
theorem encoder_leaks_undecodable : ∃ (s : Low Rat) (g : Life), g.outcomes = [undecodable.encode] ∧
    (leaked ⟨true, true, true⟩ g.outcomes).card = 3 ∧
    (g.pointers.avCodec.isSome = s.encoder.codec ∧ g.pointers.scaleContext.isSome = s.encoder.scaleContext ∧
        g.outcomes.length = s.sent.length) ∧
      audit ∅ g.trail = some (g.pointers.live ∪ leaked ⟨true, true, true⟩ g.outcomes) ∧
      audit ∅ (g.trail ++ destroy g.pointers) = some (leaked ⟨true, true, true⟩ g.outcomes) ∧
      (∀ b, (g.trail ++ destroy g.pointers).count (.give b) +
          (if b ∈ leaked ⟨true, true, true⟩ g.outcomes then 1 else 0) =
        (g.trail ++ destroy g.pointers).count (.take b)) ∧
      (leaked ⟨true, true, true⟩ g.outcomes).card = (if true then 1 else 0) + (g.outcomes.map lostCount).sum := by
  obtain ⟨t, ht⟩ := undecodable_step
  have hwant : wanted rationals 15 (lowStart 30 ⟨0, 0⟩ openEncoder) undecodable.work.isKeyFrame = true :=
    Bool.or_true _
  have hlived : Lived rationals 15 ⟨true, true, true⟩ (lowStart 30 ⟨0, 0⟩ openEncoder) t
      (watchLife rationals 15 (lowStart 30 ⟨0, 0⟩ openEncoder) (.work undecodable)
        (Life.start ⟨true, true, true⟩)) := by
    refine .tail (.work undecodable) .refl trivial ?_
    simp only [LTS.watched, lowSystem, ht, Option.map_some]
  refine ⟨t, _, ?_, ?_, encoder_leaks rationals 15 30 ⟨0, 0⟩ openEncoder ⟨true, true, true⟩ rfl rfl rfl t _ hlived⟩
  · rw [watchLife, if_pos hwant]
    rfl
  · rw [watchLife, if_pos hwant]
    rfl

end Rtmpg.LowVideo
