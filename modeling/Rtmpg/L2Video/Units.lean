import Rtmpg.L2Video.Chunking
import Rtmpg.L2Video.Reference

/-!
# The conversion, unit by unit

On the canonical chain of a message whose payload is `frames nalBytes us` a
turn of the `while` loop consumes one unit. `unitTurn` is that turn with the
parsing done, `unitLoop` the loop over the list of units:

* `nalTurn_unit`, `convLoop_units`: the code's turn and loop are these;
* `nalTurn_next`: a turn that goes on has consumed exactly one unit, so a
  loop that ends by using the chain up has read a sequence of units
  (`convLoop_filled`);
* `appendSpsPps_config`: on a well-formed `avc_header` and with enough room,
  `append_sps_pps` emits all SPS and then all PPS.

The exact end of the chain is where the two differ in one respect: a read of
zero bytes fails once the cursor is `NULL`, so a one-byte unit that ends the
message makes the turn return `NGX_ERROR`.
-/
namespace Rtmpg.Video

open Rtmpg.Bytes Rtmpg.Chain Rtmpg.AnnexB

/-! ## Parameter sets -/

/-- A parameter set behind its start code. -/
def longUnit (u : Bytes) : Bytes := [0, 0, 0, 1] ++ u

theorem serialize_long (us : List Bytes) : serialize (us.map (Nalu.mk true)) = us.flatMap longUnit := by
  induction us with
  | nil => rfl
  | cons u us ih => rw [List.map_cons, serialize_cons, ih]; rfl

/-- Sets whose lengths fit their fields. A read of no bytes fails at the end of the
chain, so an empty set must have something behind it. -/
def Readable (us : List Bytes) (rest : Bytes) : Prop :=
  (∀ u ∈ us, u.length < 65536) ∧ (us.getLast? = some [] → rest ≠ [])

theorem readable_cons {u : Bytes} {us : List Bytes} {rest : Bytes} :
    Readable (u :: us) rest ↔ u.length < 65536 ∧ u ++ (frames 2 us ++ rest) ≠ [] ∧ Readable us rest := by
  unfold Readable
  cases us with
  | nil => cases u <;> simp
  | cons v us =>
    have hne : frames 2 (v :: us) ≠ [] := by
      rw [ne_eq, frames_eq_nil 2 (by omega)]
      exact List.cons_ne_nil _ _
    simp only [List.mem_cons, forall_eq_or_imp, List.getLast?_cons_cons, ne_eq, List.append_eq_nil_iff, hne,
      false_and, and_false, not_false_eq_true, true_and, and_assoc]

theorem readable_paramSets {us : List Bytes} (h : ∀ u ∈ us, ParamSet u) (rest : Bytes) : Readable us rest :=
  ⟨fun u hu => (h u hu).2, fun hlast => absurd rfl (h [] (List.mem_of_getLast? hlast)).1⟩

theorem appendHeaderNal_unit (R : NginxRtmp) (u rest : Bytes) (o : Out) (hlt : u.length < 65536)
    (hne : u ++ rest ≠ []) (hfit : o.data.length + (longUnit u).length ≤ o.cap) :
    appendHeaderNal R (one (frame 2 u ++ rest)) o = (.ok, one rest, o.push (longUnit u)) := by
  have h1 := ngxCustomCopy_one (beBytes 2 u.length) (u ++ rest) (List.append_ne_nil_of_right_ne_nil _ hne)
  have h2 := ngxCustomCopy_one u rest hne
  have hlen : beNat (beBytes 2 u.length) = u.length := beNat_beBytes 2 _ (by omega)
  rw [beBytes_length] at h1
  simp only [longUnit, List.length_append, List.length_cons, List.length_nil] at hfit
  have hl4 : o.lacks 4 = false := by simp only [Out.lacks, decide_eq_false_iff_not]; omega
  have hlu : (o.push [0, 0, 0, 1]).lacks u.length = false := by
    simp only [Out.lacks, push_cap, push_data, List.length_append, List.length_cons, List.length_nil,
      decide_eq_false_iff_not]
    omega
  simp only [appendHeaderNal, frame, List.append_assoc, h1, R.readInt_eq, hlen, hl4, hlu, h2,
    push_push, reduceCtorEq, if_false, Bool.false_eq_true, longUnit]

/-- `--nnals` counts down through the whole byte, also from a negative value. -/
theorem int8_pred (n : Int8) (h : n ≠ 0) : (n - 1).toUInt8.toNat + 1 = n.toUInt8.toNat := by
  have e : (n - 1).toUInt8 = n.toUInt8 - 1 := rfl
  have h0 : n.toUInt8.toNat ≠ 0 := by
    intro hz
    obtain ⟨u⟩ := n
    exact h (by rw [show u = 0 from UInt8.toNat_inj.mp hz]; rfl)
  have := n.toUInt8.toNat_lt
  rw [e, UInt8.toNat_sub, UInt8.toNat_one]
  omega

/-- The sets fit the free space, each behind its start code. -/
def Fit (o : Out) (us : List Bytes) : Prop := (us.flatMap longUnit).length ≤ o.cap - o.data.length

theorem fit_cons {o : Out} {u : Bytes} {us : List Bytes} :
    Fit o (u :: us) ↔ o.data.length + (longUnit u).length ≤ o.cap ∧ Fit (o.push (longUnit u)) us := by
  unfold Fit
  rw [List.flatMap_cons, List.length_append, push_data, push_cap, List.length_append]
  simp only [longUnit, List.length_append, List.length_cons, List.length_nil]
  omega

/-- As many turns as the byte behind `nnals` says, on a list of as many units. -/
theorem headerLoop_units (R : NginxRtmp) (rest : Bytes) :
    ∀ (us : List Bytes) (turns : Nat) (nnals : Int8) (o : Out), us.length < turns →
      nnals.toUInt8.toNat = us.length → Readable us rest → Fit o us →
      headerLoop R turns nnals (one (frames 2 us ++ rest)) o =
        (.ok, one rest, o.push (us.flatMap longUnit)) := by
  intro us
  induction us with
  | nil =>
    intro turns nnals o ht hn _ _
    obtain ⟨turns, rfl⟩ : ∃ t, turns = t + 1 := ⟨turns - 1, by simp at ht; omega⟩
    have h0 : nnals = 0 := by
      obtain ⟨u⟩ := nnals
      rw [show u = 0 from UInt8.toNat_inj.mp hn]; rfl
    simp [headerLoop, h0, push_nil]
  | cons u us ih =>
    intro turns nnals o ht hn hok hfit
    obtain ⟨turns, rfl⟩ : ∃ t, turns = t + 1 := ⟨turns - 1, by simp at ht; omega⟩
    simp only [List.length_cons] at ht hn
    obtain ⟨hroom, hfit⟩ := fit_cons.mp hfit
    have h0 : nnals ≠ 0 := by
      intro e
      rw [e] at hn
      exact absurd hn (Nat.succ_ne_zero _).symm
    have hp := int8_pred nnals h0
    obtain ⟨hlt, hne, hok⟩ := readable_cons.mp hok
    have hu := appendHeaderNal_unit R u (frames 2 us ++ rest) o hlt hne hroom
    have hr := ih turns (nnals - 1) (o.push (longUnit u)) (by omega) (by omega) hok hfit
    have hf : frames 2 (u :: us) ++ rest = frame 2 u ++ (frames 2 us ++ rest) := by
      rw [frames_cons]; simp [frame]
    rw [headerLoop, if_neg h0, hf, hu]
    simp only [hr, push_push, List.flatMap_cons]

/-- `avc_header` holds the configuration message `c`. -/
def HoldsConfig (codec : CodecCtx) (c : AvcConfig) : Prop :=
  codec.avcHeader ≠ [] ∧ flat codec.avcHeader = c.encode

theorem encode_ne_nil (c : AvcConfig) : c.encode ≠ [] := by
  have := c.skipped_length
  intro h
  rw [AvcConfig.encode] at h
  simp at h

/-- The codec context with `avc_header` in one buffer. -/
def CodecCtx.joined (codec : CodecCtx) : CodecCtx :=
  { codec with avcHeader := one (flat codec.avcHeader) }

theorem sameCodec_joined {codec : CodecCtx} (h : flat codec.avcHeader ≠ []) :
    SameCodec codec (CodecCtx.joined codec) := by
  have hne : codec.avcHeader ≠ [] := fun e => h (by rw [e]; rfl)
  exact ⟨rfl, rfl, rfl, sameBytes_of_ne hne (by rwa [CodecCtx.joined, ne_eq, one_eq_nil]) (flat_one _).symm,
    sameBytes_refl _⟩

theorem appendSpsPps_config (R : NginxRtmp) {codec : CodecCtx} {c : AvcConfig}
    (h : HoldsConfig codec c) (o : Out)
    (hfit : o.data.length + (serialize (paramUnits c)).length ≤ o.cap) :
    appendSpsPps R codec o = (.ok, o.push (serialize (paramUnits c))) := by
  have hser : serialize (paramUnits c) = c.sps.flatMap longUnit ++ c.pps.flatMap longUnit := by
    rw [paramUnits, serialize_long, List.flatMap_append]
  rw [hser, List.length_append] at hfit
  rw [appendSpsPps_congr R (sameCodec_joined (by rw [h.2]; exact encode_ne_nil c)), hser]
  have hs1 : ∀ rest, ngxCustomCopy 10 (one (c.skipped ++ (c.spsCount :: rest))) =
      ⟨.ok, c.skipped, one (c.spsCount :: rest)⟩ := by
    intro rest
    have := ngxCustomCopy_one c.skipped (c.spsCount :: rest) (by simp)
    rwa [c.skipped_length] at this
  have hb : ∀ (b : UInt8) rest, ngxCustomCopy 1 (one (b :: rest)) = ⟨.ok, [b], one rest⟩ :=
    fun b rest => ngxCustomCopy_one [b] rest (by simp)
  have hsps := headerLoop_units R (UInt8.ofNat c.pps.length :: (frames 2 c.pps ++ c.trailing)) c.sps
    nnalsTurns (c.spsCount.toInt8 &&& 0x1f) o
    (by
      have := c.spsCount_eq
      have h31 : (c.spsCount &&& 0x1f).toNat ≤ 31 := by rw [UInt8.toNat_and]; exact Nat.and_le_right
      rw [nnalsTurns]; omega)
    c.spsCount_eq (readable_paramSets c.sps_ok _) (by unfold Fit; omega)
  have hpps := headerLoop_units R c.trailing c.pps nnalsTurns (UInt8.ofNat c.pps.length).toInt8
    (o.push (c.sps.flatMap longUnit)) c.pps_length
    (by
      have := c.pps_length
      show (UInt8.ofNat c.pps.length).toNat = _
      rw [UInt8.toNat_ofNat']; omega)
    (readable_paramSets c.pps_ok _) (by simp only [Fit, push_data, List.length_append, push_cap]; omega)
  have henc : c.encode = c.skipped ++ (c.spsCount ::
      (frames 2 c.sps ++ (UInt8.ofNat c.pps.length :: (frames 2 c.pps ++ c.trailing)))) := by
    simp [AvcConfig.encode]
  simp only [appendSpsPps, CodecCtx.joined, h.2, henc, hs1, hb, List.headD_cons, hsps, hpps, push_push,
    reduceCtorEq, if_false]

/-! ## One turn -/

/-- A turn of the loop on the unit `u` with the bytes `rest` behind it. -/
def unitTurn (R : NginxRtmp) (codec : CodecCtx) (u rest : Bytes) (s : Conv) : Turn :=
  if u = [] then .next { s with rest := one rest }
  else if 7 ≤ nalTypeOf u ∧ nalTypeOf u ≤ 9 then
    if u.length = 1 ∧ rest = [] then .ret .error else .next { s with rest := one rest }
  else
    let s := spsPpsSwitch R codec (nalTypeOf u) (audSwitch (nalTypeOf u) s)
    if s.out.lacks 5 then .ret .ok
    else
      let o := s.out.push (prefixBytes s.out (u.headD 0))
      if o.lacks u.length then .ret .ok
      else if u.length = 1 ∧ rest = [] then .ret .error
      else .next { s with rest := one rest, out := o.push u.tail }

theorem nalTurn_unit (R : NginxRtmp) (codec : CodecCtx) (hnb : 0 < codec.avcNalBytes) (u rest : Bytes)
    (hu : u.length < 256 ^ codec.avcNalBytes) (s : Conv)
    (hs : s.rest = one (frame codec.avcNalBytes u ++ rest)) :
    nalTurn R codec s = unitTurn R codec u rest s := by
  have hne : beBytes codec.avcNalBytes u.length ++ (u ++ rest) ≠ [] := by
    intro e
    have := congrArg List.length e
    simp at this
    omega
  have h1 := ngxCustomCopy_one _ _ hne
  have hlen := beNat_beBytes codec.avcNalBytes u.length hu
  rw [beBytes_length] at h1
  rw [nalTurn, turnWith, unitTurn, hs, frame, List.append_assoc, h1, R.readInt_eq]
  simp only [hlen, reduceCtorEq, if_false]
  cases u with
  | nil => simp
  | cons t body =>
    have h2 := ngxCustomCopy_one [t] (body ++ rest) (by simp)
    simp only [List.length_cons, Nat.add_eq_zero_iff, one_ne_zero, and_false, if_false,
      List.cons_append, reduceCtorEq, List.headD_cons, Nat.add_sub_cancel, List.tail_cons]
    simp only [List.length_singleton, List.singleton_append] at h2
    simp only [h2, List.headD_cons, nalTypeOf, reduceCtorEq, if_false]
    by_cases hb : body = [] ∧ rest = []
    · obtain ⟨rfl, rfl⟩ := hb
      have hk : ngxCustomCopy 0 (one ([] ++ [])) = ⟨.error, [], []⟩ := rfl
      simp only [List.length_nil, hk, if_true, and_self]
    · have hk := ngxCustomCopy_one body rest (by simpa using hb)
      have hend : ¬ (body.length + 1 = 1 ∧ rest = []) := by simpa using hb
      simp only [hk, if_neg hend, reduceCtorEq, if_false]

/-- A length field other than 0, a type byte and as many bytes behind it as the field says. -/
theorem unit_read {k : Nat} {fld tl : Bytes} {t : UInt8} (hfld : fld.length = k) (h0 : beNat fld ≠ 0)
    (hread : (ngxCustomCopy (beNat fld - 1) (one tl)).rc ≠ .error) :
    ∃ u rest, u.length < 256 ^ k ∧ fld ++ t :: tl = frame k u ++ rest ∧
      (ngxCustomCopy (beNat fld - 1) (one tl)).rest = one rest := by
  have hlt := beNat_lt fld
  have hfb := beBytes_beNat fld
  rw [hfld] at hlt hfb
  have hok : (ngxCustomCopy (beNat fld - 1) (one tl)).rc = .ok := by
    cases hrc : (ngxCustomCopy (beNat fld - 1) (one tl)).rc with
    | ok => rfl
    | error => exact absurd hrc hread
  obtain ⟨hne, hlen⟩ := (ngxCustomCopy_rc _ _).mp hok
  rw [flat_one] at hlen
  have htl : tl ≠ [] := mt (one_eq_nil tl).mpr hne
  refine ⟨t :: tl.take (beNat fld - 1), tl.drop (beNat fld - 1), ?_, ?_, ?_⟩
  · simp only [List.length_cons, List.length_take]
    omega
  · have hunit : (t :: tl.take (beNat fld - 1)).length = beNat fld := by
      simp only [List.length_cons, List.length_take]
      omega
    rw [frame, hunit, hfb]
    simp
  · rw [one, if_neg htl, ngxCustomCopy_single tl _ hlen]

/-- A turn that goes on has consumed a unit. -/
theorem nalTurn_next (R : NginxRtmp) (codec : CodecCtx) (bs : Bytes) (s s' : Conv) (hs : s.rest = one bs)
    (h : nalTurn R codec s = .next s') :
    ∃ u rest, u.length < 256 ^ codec.avcNalBytes ∧ bs = frame codec.avcNalBytes u ++ rest ∧
      s'.rest = one rest := by
  by_cases hbs : bs = []
  · rw [nalTurn, turnWith, hs, hbs] at h
    cases h
  have hone : one bs = [bs] := if_neg hbs
  by_cases hl : codec.avcNalBytes ≤ bs.length
  swap
  · have := ngxCustomCopy_error [bs] codec.avcNalBytes (.inr (by simpa [flat] using hl))
    rw [nalTurn, turnWith, hs, hone, this] at h
    cases h
  have h1 := ngxCustomCopy_single bs codec.avcNalBytes hl
  -- the length field and what follows it
  obtain ⟨fld, tl, hcat, hfld⟩ : ∃ fld tl, bs = fld ++ tl ∧ fld.length = codec.avcNalBytes :=
    ⟨bs.take _, bs.drop _, (List.take_append_drop _ _).symm, List.length_take_of_le hl⟩
  have hfb := beBytes_beNat fld
  rw [hfld] at hfb
  rw [hcat, List.take_left' hfld, List.drop_left' hfld, ← hcat] at h1
  rw [nalTurn, turnWith, hs, hone, h1, R.readInt_eq] at h
  simp only [reduceCtorEq, if_false] at h
  split at h
  · next h0 =>
    refine ⟨[], tl, by simp, ?_, by cases h; rfl⟩
    rw [hcat, frame, List.length_nil, List.append_nil, ← h0, hfb]
  next h0 =>
  split at h
  · cases h
  next ht =>
  -- both remaining ways to go on read the type byte and `len - 1` bytes behind it
  obtain ⟨t, tl', rfl⟩ : ∃ t tl', tl = t :: tl' := by
    cases tl with
    | nil => exact absurd rfl ht
    | cons t tl' => exact ⟨t, tl', rfl⟩
  have h2 := ngxCustomCopy_one [t] tl' (by simp)
  simp only [List.length_singleton, List.singleton_append] at h2
  simp only [h2, List.headD_cons] at h
  rw [hcat]
  split at h
  · split at h
    · cases h
    · next hread =>
      cases h
      exact unit_read hfld h0 hread
  · split at h
    · cases h
    · split at h
      · cases h
      · split at h
        · cases h
        · next hread =>
          cases h
          exact unit_read hfld h0 hread

/-! ## The loop -/

def unitLoop (R : NginxRtmp) (codec : CodecCtx) : List Bytes → Conv → Done
  | [], s => .filled s.out
  | u :: us, s =>
    match unitTurn R codec u (frames codec.avcNalBytes us) s with
    | .ret rc => .ret rc
    | .next s => unitLoop R codec us s

theorem unitTurn_rest (R : NginxRtmp) (codec : CodecCtx) (u rest : Bytes) (s s' : Conv)
    (h : unitTurn R codec u rest s = .next s') : s'.rest = one rest := by
  simp only [unitTurn] at h
  split at h
  · cases h; rfl
  · split at h
    · split at h <;> cases h; rfl
    · split at h
      · cases h
      · split at h
        · cases h
        · split at h <;> cases h; rfl

/-- The lengths an `avc_nal_bytes`-long field can announce, between 1 and 4 bytes. -/
structure NalBytesOk (codec : CodecCtx) : Prop where
  pos : 0 < codec.avcNalBytes
  le : codec.avcNalBytes ≤ 4

theorem convLoop_units (R : NginxRtmp) (codec : CodecCtx) (hnb : NalBytesOk codec) :
    ∀ (us : List Bytes) (fuel : Nat) (s : Conv), us.length ≤ fuel →
      (∀ u ∈ us, u.length < 256 ^ codec.avcNalBytes) →
      s.rest = one (frames codec.avcNalBytes us) →
      convLoop R codec fuel s = some (unitLoop R codec us s) := by
  intro us
  induction us with
  | nil =>
    intro fuel s _ _ hs
    have : s.rest = [] := by rw [hs]; rfl
    unfold convLoop
    rw [if_pos this]; rfl
  | cons u us ih =>
    intro fuel s hf hu hs
    obtain ⟨fuel, rfl⟩ : ∃ f, fuel = f + 1 := ⟨fuel - 1, by simp at hf; omega⟩
    have hne : s.rest ≠ [] := by
      rw [hs, ne_eq, one_eq_nil, frames_eq_nil _ hnb.pos]
      exact List.cons_ne_nil _ _
    have hfr : frames codec.avcNalBytes (u :: us) =
        frame codec.avcNalBytes u ++ frames codec.avcNalBytes us := rfl
    have ht := nalTurn_unit R codec hnb.pos u _ (hu u (by simp)) s (by rw [hs, hfr])
    have := hnb.le
    rw [convLoop, if_neg hne, if_neg (by omega), unitLoop, ht]
    cases hn : unitTurn R codec u (frames codec.avcNalBytes us) s with
    | ret rc => rfl
    | next s' =>
      exact ih fuel s' (by simpa using hf) (fun v hv => hu v (by simp [hv]))
        (unitTurn_rest R codec u _ s s' hn)

/-- A loop that uses the chain up has read a sequence of units. -/
theorem convLoop_filled (R : NginxRtmp) (codec : CodecCtx) (o : Out) :
    ∀ (fuel : Nat) (bs : Bytes) (s : Conv), s.rest = one bs →
      convLoop R codec fuel s = some (.filled o) →
      ∃ us, bs = frames codec.avcNalBytes us ∧ ∀ u ∈ us, u.length < 256 ^ codec.avcNalBytes := by
  intro fuel
  induction fuel with
  | zero =>
    intro bs s hs h
    unfold convLoop at h
    split at h
    · next h0 => rw [hs, one_eq_nil] at h0; exact ⟨[], by simp [h0], by simp⟩
    · split at h <;> cases h
  | succ fuel ih =>
    intro bs s hs h
    unfold convLoop at h
    split at h
    · next h0 => rw [hs, one_eq_nil] at h0; exact ⟨[], by simp [h0], by simp⟩
    · split at h
      · cases h
      · cases ht : nalTurn R codec s with
        | ret rc => simp [ht] at h
        | next s' =>
          simp only [ht] at h
          obtain ⟨u, rest, hu, hcat, hr⟩ := nalTurn_next R codec bs s s' hs ht
          obtain ⟨us, hus, hall⟩ := ih rest s' hr h
          refine ⟨u :: us, by rw [hcat, hus]; rfl, ?_⟩
          intro v hv
          rcases List.mem_cons.mp hv with rfl | hv
          · exact hu
          · exact hall v hv

end Rtmpg.Video
