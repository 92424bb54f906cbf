import Rtmpg.L2Video.Units

/-!
# The conversion loop against the reference translation

`InSync s e`: the flags and the buffer of the loop say what has been emitted.
While the reference output fits the buffer a turn on a kept unit appends what
`translateFrom` emits for it (`unitTurn_kept`) and keeps `InSync`; the only
other outcomes are to give up because not one byte would stay free, and the
error at the exact end of the chain.

* `unitLoop_translate`: a loop that ends with the buffer filled has written
  the translation.
* `unitLoop_append`: with a byte to spare the units in front of others are
  all converted.
* `unitLoop_ends`: with a byte to spare the loop ends with the buffer filled
  exactly when the last unit does not consist of a single byte.
-/
namespace Rtmpg.Video

open Rtmpg.Bytes Rtmpg.Chain Rtmpg.AnnexB

structure InSync (s : Conv) (e : Emitted) : Prop where
  aud : s.audSent = e.aud
  params : s.spsPpsSent = e.params
  any : s.out.data = [] ↔ e.any = false

/-- What the reference emits for the kept unit `u`. -/
def emittedFor (c : AvcConfig) (e : Emitted) (u : Bytes) : List Nalu :=
  inserted c e u ++ [⟨!e.any && (inserted c e u).isEmpty, u⟩]

theorem translateFrom_kept (c : AvcConfig) (e : Emitted) {u : Bytes} (us : List Bytes) (hu : ¬ Dropped u) :
    translateFrom c e (u :: us) = emittedFor c e u ++ translateFrom c (e.after u) us := by
  rw [translateFrom, if_neg hu, emittedFor]; simp

theorem translateFrom_dropped (c : AvcConfig) (e : Emitted) {u : Bytes} (us : List Bytes) (hu : Dropped u) :
    translateFrom c e (u :: us) = translateFrom c e us := by
  rw [translateFrom, if_pos hu]

theorem kept_ne_nil {u : Bytes} (hu : ¬ Dropped u) : u ≠ [] := fun h => hu (.inl h)

theorem kept_type {u : Bytes} (hu : ¬ Dropped u) : ¬ (7 ≤ nalTypeOf u ∧ nalTypeOf u ≤ 9) :=
  fun h => hu (.inr h)

/-! ## The two switches -/

theorem audSwitch_sync (e : Emitted) {u : Bytes} (hu : ¬ Dropped u) (s : Conv) (hs : s.audSent = e.aud)
    (hfit : s.out.data.length +
      (serialize (if e.aud = false ∧ WantsAud u then [audUnit] else [])).length ≤ s.out.cap) :
    audSwitch (nalTypeOf u) s =
      { s with out := s.out.push (serialize (if e.aud = false ∧ WantsAud u then [audUnit] else [])),
               audSent := (e.after u).aud } := by
  have h9 : nalTypeOf u ≠ 9 := by
    intro h
    exact kept_type hu (by rw [h]; decide)
  unfold audSwitch
  simp only [Emitted.after, ← hs] at hfit ⊢
  cases ha : s.audSent with
  | true =>
    simp only [if_true, Bool.true_eq_false, false_and, if_false, serialize_nil, push_nil, Bool.true_or]
    rw [← ha]
  | false =>
    by_cases hw : WantsAud u
    · have ht : nalTypeOf u = 1 ∨ nalTypeOf u = 5 ∨ nalTypeOf u = 6 := hw
      have haud : serialize [audUnit] = audNal := rfl
      simp only [ha, hw, and_self, if_true, haud] at hfit
      simp only [ht, hw, appendAud, lacks_eq_false.mpr hfit, haud, if_true, Bool.false_eq_true, if_false,
        and_self, decide_true, Bool.or_true]
    · have ht : ¬ (nalTypeOf u = 1 ∨ nalTypeOf u = 5 ∨ nalTypeOf u = 6) := hw
      simp only [ht, hw, h9, if_false, Bool.false_eq_true, and_false, serialize_nil, push_nil,
        decide_false, Bool.or_false]
      rw [← ha]

theorem spsPpsSwitch_sync (R : NginxRtmp) {codec : CodecCtx} {c : AvcConfig} (hc : HoldsConfig codec c)
    (e : Emitted) (u : Bytes) (s : Conv) (hs : s.spsPpsSent = e.params)
    (hfit : s.out.data.length +
      (serialize (if nalTypeOf u = 5 ∧ e.params = false then paramUnits c else [])).length ≤ s.out.cap) :
    spsPpsSwitch R codec (nalTypeOf u) s =
      { s with out := s.out.push (serialize (if nalTypeOf u = 5 ∧ e.params = false then paramUnits c else [])),
               spsPpsSent := (e.after u).params } := by
  unfold spsPpsSwitch
  simp only [Emitted.after, ← hs] at hfit ⊢
  by_cases h1 : nalTypeOf u = 1
  · have h5 : ¬ nalTypeOf u = 5 := by rw [h1]; decide
    rw [if_pos h1, if_pos h1, if_neg fun h => h5 h.1, serialize_nil, push_nil]
  · rw [if_neg h1, if_neg h1]
    by_cases h5 : nalTypeOf u = 5
    · cases hp : s.spsPpsSent with
      | true =>
        simp only [h5, if_true, if_false, Bool.true_eq_false, and_false, serialize_nil, push_nil]
        rw [← hp]
      | false =>
        simp only [h5, hp, and_self, if_true] at hfit
        simp only [h5, appendSpsPps_config R hc s.out hfit, if_true, and_self, Bool.false_eq_true,
          if_false]
    · simp only [h5, if_false, false_and, serialize_nil, push_nil]

/-! ## A kept unit -/

theorem serialize_eq_nil (us : List Nalu) : serialize us = [] ↔ us = [] := by
  cases us with
  | nil => simp [serialize_nil]
  | cons u us => simp [serialize_cons, startCode]

/-- Start code and unit as the code stores them, in two steps. -/
theorem prefix_tail (o : Out) (long : Bool) {u : Bytes} (hu : u ≠ []) (hl : o.data = [] ↔ long = true) :
    prefixBytes o (u.headD 0) ++ u.tail = startCode long ++ u := by
  cases u with
  | nil => exact absurd rfl hu
  | cons t body =>
    cases long
    · have : o.data ≠ [] := by simpa using hl
      simp [prefixBytes, this, startCode, pad]
    · have : o.data = [] := by simpa using hl
      simp [prefixBytes, this, startCode, pad]

theorem prefixBytes_length (o : Out) (long : Bool) (t : UInt8) (hl : o.data = [] ↔ long = true) :
    (prefixBytes o t).length = (startCode long).length + 1 := by
  cases long
  · have : o.data ≠ [] := by simpa using hl
    simp [prefixBytes, this, startCode, pad]
  · have : o.data = [] := by simpa using hl
    simp [prefixBytes, this, startCode, pad]

/-- The two tests for room fail only where the unit fills the buffer to its end, and the
second one does fail there. -/
theorem lacks_full {o : Out} {long : Bool} {u : Bytes} (hne : u ≠ []) (hl : o.data = [] ↔ long = true)
    (hfit : o.data.length + ((startCode long).length + u.length) ≤ o.cap) :
    (o.lacks 5 = true → o.data.length + ((startCode long).length + u.length) = o.cap) ∧
      ((o.push (prefixBytes o (u.headD 0))).lacks u.length = true ↔
        o.data.length + ((startCode long).length + u.length) = o.cap) := by
  have hpos : 0 < u.length := List.length_pos_iff.mpr hne
  have hlen := prefixBytes_length o long (u.headD 0) hl
  simp only [Out.lacks, push_data, push_cap, List.length_append, decide_eq_true_eq, hlen]
  refine ⟨fun h5 => ?_, by omega⟩
  cases long with
  | false =>
    have hthree : (startCode false).length = 3 := rfl
    omega
  | true =>
    -- nothing has been written yet
    have hempty : o.data.length = 0 := congrArg List.length (hl.mpr rfl)
    have hfour : (startCode true).length = 4 := rfl
    omega

/-- The state after a turn that emitted all of `emittedFor c e u`. -/
def Conv.emit (s : Conv) (c : AvcConfig) (e : Emitted) (u rest : Bytes) : Conv where
  rest := one rest
  out := s.out.push (serialize (emittedFor c e u))
  audSent := (e.after u).aud
  spsPpsSent := (e.after u).params

theorem emit_inSync (s : Conv) (c : AvcConfig) (e : Emitted) (u rest : Bytes) :
    InSync (s.emit c e u rest) (e.after u) := by
  refine ⟨rfl, rfl, ?_⟩
  have : serialize (emittedFor c e u) ≠ [] := by rw [ne_eq, serialize_eq_nil]; simp [emittedFor]
  simp [Conv.emit, Emitted.after, this]

theorem unitTurn_kept (R : NginxRtmp) {codec : CodecCtx} {c : AvcConfig} (hc : HoldsConfig codec c)
    {e : Emitted} {u : Bytes} (hu : ¬ Dropped u) (rest : Bytes) {s : Conv} (hs : InSync s e)
    (hfit : s.out.data.length + (serialize (emittedFor c e u)).length ≤ s.out.cap) :
    unitTurn R codec u rest s =
      if s.out.data.length + (serialize (emittedFor c e u)).length = s.out.cap then .ret .ok
      else if u.length = 1 ∧ rest = [] then .ret .error
      else .next (s.emit c e u rest) := by
  have hne := kept_ne_nil hu
  generalize hlong : (!e.any && (inserted c e u).isEmpty) = long
  have hem : serialize (emittedFor c e u) = serialize (inserted c e u) ++ (startCode long ++ u) := by
    rw [emittedFor, hlong, serialize_append, serialize_cons, serialize_nil, List.append_nil]
  have hins : serialize (inserted c e u) =
      serialize (if e.aud = false ∧ WantsAud u then [audUnit] else []) ++
      serialize (if nalTypeOf u = 5 ∧ e.params = false then paramUnits c else []) := by
    rw [inserted, serialize_append]
  rw [hem, List.length_append, List.length_append] at hfit ⊢
  have hi := congrArg List.length hins
  rw [List.length_append] at hi
  -- both switches do their part, and the buffer then holds the inserted units
  have ha := audSwitch_sync e hu s hs.aud (by omega)
  have hp := spsPpsSwitch_sync R hc e u (audSwitch (nalTypeOf u) s) (by rw [ha]; exact hs.params)
    (by rw [ha]; simp only [push_data, push_cap, List.length_append]; omega)
  rw [ha] at hp
  simp only [push_push, ← hins] at hp
  generalize hs2 : (⟨s.rest, s.out.push (serialize (inserted c e u)), (e.after u).aud,
    (e.after u).params⟩ : Conv) = s2 at hp
  have hd2 : s2.out = s.out.push (serialize (inserted c e u)) := by rw [← hs2]
  have hl : s2.out.data = [] ↔ long = true := by
    rw [hd2, push_data, List.append_eq_nil_iff, hs.any, serialize_eq_nil, ← hlong]
    simp
  have hpt := prefix_tail s2.out long hne hl
  obtain ⟨h5, hlen⟩ := lacks_full (o := s2.out) hne hl (by rw [hd2, push_data, push_cap, List.length_append]; omega)
  rw [hd2, push_data, push_cap, List.length_append, Nat.add_assoc, ← hd2] at h5 hlen
  simp only [unitTurn, if_neg hne, if_neg (kept_type hu), ha, hp]
  by_cases hfull : s.out.data.length +
      ((serialize (inserted c e u)).length + ((startCode long).length + u.length)) = s.out.cap
  · rw [if_pos hfull, if_pos (hlen.mpr hfull)]
    split <;> rfl
  · rw [if_neg hfull, if_neg fun h => hfull (h5 h), if_neg fun h => hfull (hlen.mp h)]
    split
    · rfl
    · rw [push_push, hpt, hd2, push_push, Conv.emit, hem, ← hs2]

theorem unitTurn_dropped (R : NginxRtmp) (codec : CodecCtx) {u : Bytes} (hu : Dropped u) (rest : Bytes)
    (s : Conv) : unitTurn R codec u rest s =
      if u.length = 1 ∧ rest = [] then .ret .error else .next { s with rest := one rest } := by
  rw [unitTurn]
  by_cases hne : u = []
  · simp [hne]
  · rw [if_neg hne, if_pos (hu.resolve_left hne)]

/-! ## The whole loop -/

theorem unitLoop_translate (R : NginxRtmp) {codec : CodecCtx} {c : AvcConfig} (hc : HoldsConfig codec c)
    (o : Out) : ∀ (us : List Bytes) (s : Conv) (e : Emitted), InSync s e →
      s.out.data.length + (serialize (translateFrom c e us)).length ≤ s.out.cap →
      unitLoop R codec us s = .filled o → o.data = s.out.data ++ serialize (translateFrom c e us) := by
  intro us
  induction us with
  | nil =>
    intro s e _ _ h
    simp only [unitLoop, Done.filled.injEq] at h
    simp [← h, translateFrom, serialize_nil]
  | cons u us ih =>
    intro s e hs hfit h
    rw [unitLoop] at h
    by_cases hu : Dropped u
    · rw [translateFrom_dropped c e us hu] at hfit ⊢
      rw [unitTurn_dropped R codec hu] at h
      split at h
      · cases h
      · next hn =>
        split at hn
        · cases hn
        · cases hn
          exact ih { s with rest := one _ } e ⟨hs.aud, hs.params, hs.any⟩ hfit h
    · rw [translateFrom_kept c e us hu, serialize_append, List.length_append] at hfit
      rw [unitTurn_kept R hc hu _ hs (by omega)] at h
      split at h
      · cases h
      · next s' hn =>
        split at hn
        · cases hn
        · split at hn
          · cases hn
          · cases hn
            have := ih _ _ (emit_inSync s c e u _)
              (by simp only [Conv.emit, push_data, push_cap, List.length_append]; omega) h
            rw [this, translateFrom_kept c e us hu, serialize_append]
            simp [Conv.emit]

/-- What has been emitted after the units `us`. -/
def Emitted.afterAll (e : Emitted) : List Bytes → Emitted
  | [] => e
  | u :: us => if Dropped u then e.afterAll us else (e.after u).afterAll us

theorem translateFrom_append (c : AvcConfig) (vs : List Bytes) : ∀ (us : List Bytes) (e : Emitted),
    translateFrom c e (us ++ vs) = translateFrom c e us ++ translateFrom c (e.afterAll us) vs
  | [], _ => rfl
  | u :: us, e => by
    rw [List.cons_append]
    by_cases hu : Dropped u
    · rw [translateFrom_dropped c e _ hu, translateFrom_dropped c e _ hu, translateFrom_append c vs us,
        Emitted.afterAll, if_pos hu]
    · rw [translateFrom_kept c e _ hu, translateFrom_kept c e _ hu, translateFrom_append c vs us,
        Emitted.afterAll, if_neg hu, List.append_assoc]

/-- The turn on a unit whose output leaves a byte free: only the exact end of the
chain stops it. -/
theorem unitTurn_fits (R : NginxRtmp) {codec : CodecCtx} {c : AvcConfig} (hc : HoldsConfig codec c)
    (u rest : Bytes) {s : Conv} {e : Emitted} (hs : InSync s e)
    (hfit : s.out.data.length + (serialize (translateFrom c e [u])).length < s.out.cap) :
    ∃ s', unitTurn R codec u rest s = (if u.length = 1 ∧ rest = [] then .ret .error else .next s') ∧
      InSync s' (e.afterAll [u]) ∧ s'.out.cap = s.out.cap ∧
      s'.out.data = s.out.data ++ serialize (translateFrom c e [u]) := by
  by_cases hu : Dropped u
  · refine ⟨{ s with rest := one rest }, unitTurn_dropped R codec hu rest s, ?_, rfl, ?_⟩
    · rw [Emitted.afterAll, if_pos hu]
      exact ⟨hs.aud, hs.params, hs.any⟩
    · rw [translateFrom_dropped c e [] hu]
      simp [translateFrom, serialize_nil]
  · rw [translateFrom_kept c e [] hu, translateFrom, List.append_nil] at hfit ⊢
    refine ⟨s.emit c e u rest, ?_, ?_, rfl, rfl⟩
    · rw [unitTurn_kept R hc hu rest hs (by omega), if_neg (by omega)]
    · rw [Emitted.afterAll, if_neg hu]
      exact emit_inSync s c e u rest

/-- The units `us` in front of others, while a byte stays free. -/
theorem unitLoop_append (R : NginxRtmp) {codec : CodecCtx} (hnb : 0 < codec.avcNalBytes) {c : AvcConfig}
    (hc : HoldsConfig codec c) (vs : List Bytes) (hvs : vs ≠ []) :
    ∀ (us : List Bytes) (s : Conv) (e : Emitted), InSync s e →
      s.out.data.length + (serialize (translateFrom c e us)).length < s.out.cap →
      ∃ s', unitLoop R codec (us ++ vs) s = unitLoop R codec vs s' ∧ InSync s' (e.afterAll us) ∧
        s'.out.cap = s.out.cap ∧ s'.out.data = s.out.data ++ serialize (translateFrom c e us) := by
  intro us
  induction us with
  | nil => intro s e hs _; exact ⟨s, rfl, hs, rfl, by simp [translateFrom, serialize_nil]⟩
  | cons u us ih =>
    intro s e hs hfit
    have hsplit := translateFrom_append c us [u] e
    rw [List.singleton_append] at hsplit
    rw [hsplit, serialize_append, List.length_append] at hfit
    obtain ⟨s₁, ht, hs₁, hcap₁, hd₁⟩ :=
      unitTurn_fits R hc u (frames codec.avcNalBytes (us ++ vs)) hs (by omega)
    have hrest : frames codec.avcNalBytes (us ++ vs) ≠ [] := by
      rw [ne_eq, frames_eq_nil _ hnb]; simp [hvs]
    obtain ⟨s₂, hl, hs₂, hcap₂, hd₂⟩ := ih s₁ _ hs₁ (by rw [hd₁, hcap₁, List.length_append]; omega)
    refine ⟨s₂, ?_, ?_, hcap₂.trans hcap₁, ?_⟩
    · rw [List.cons_append, unitLoop, ht, if_neg fun h => hrest h.2, ← hl]
    · by_cases hu : Dropped u <;> simpa [Emitted.afterAll, hu] using hs₂
    · rw [hd₂, hd₁, hsplit, serialize_append, List.append_assoc]

/-- Only the last unit can be read past the end of the chain. -/
theorem unitLoop_ends (R : NginxRtmp) {codec : CodecCtx} (hnb : 0 < codec.avcNalBytes) {c : AvcConfig}
    (hc : HoldsConfig codec c) (us : List Bytes) (u : Bytes) {s : Conv} {e : Emitted} (hs : InSync s e)
    (hfit : s.out.data.length + (serialize (translateFrom c e (us ++ [u]))).length < s.out.cap) :
    (u.length = 1 → unitLoop R codec (us ++ [u]) s = .ret .error) ∧
      (u.length ≠ 1 → ∃ o, unitLoop R codec (us ++ [u]) s = .filled o) := by
  rw [translateFrom_append, serialize_append, List.length_append] at hfit
  obtain ⟨s₁, hl, hs₁, hcap₁, hd₁⟩ := unitLoop_append R hnb hc [u] (by simp) us s e hs (by omega)
  obtain ⟨s₂, ht, -⟩ := unitTurn_fits R hc u [] hs₁ (by rw [hd₁, hcap₁, List.length_append]; omega)
  have hnil : frames codec.avcNalBytes [] = [] := rfl
  rw [hl, unitLoop, hnil, ht]
  refine ⟨fun h => ?_, fun h => ⟨s₂.out, ?_⟩⟩
  · rw [if_pos ⟨h, rfl⟩]
  · rw [if_neg fun k => h k.1]; rfl

end Rtmpg.Video
