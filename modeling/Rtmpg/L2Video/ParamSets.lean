import Rtmpg.L2Video.Empty

/-!
# All the parameter sets, or nothing (`append_sps_pps`)

`ngx_agora_helper.c:122-226`, for any bytes in `avc_header` and any free
space. `Complete` says that a header holds every set it announces, to its
last byte; `Opens` that it holds the length field of a first set. An error
behind the first start code leaves what has been stored in the buffer, and
`avcc_to_annexb` goes on with it.

* `appendSpsPps_exact`: a failing call leaves `out.last` where it was exactly
  when the sets are complete and fit, or no start code can be stored.
* `delivered_whole`: a frame whose calls all meet this condition is a
  sequence of delimiters, complete lists of parameter sets, and complete
  units of the message.
* `appendSpsPps_partial`: a header cut off behind its first set.
-/
namespace Rtmpg.Video

open Rtmpg.Bytes Rtmpg.Chain Rtmpg.AnnexB

/-- Every set the header announces is there. -/
def Complete (header : Bytes) (sps pps : List Bytes) : Prop :=
  ∃ skipped spsCount ppsCount trailing, skipped.length = 10 ∧ (spsCount &&& 0x1f).toNat = sps.length ∧
    ppsCount.toNat = pps.length ∧ (∀ u ∈ sps, u.length < 65536) ∧ Readable pps trailing ∧
    header = skipped ++ spsCount :: (frames 2 sps ++ ppsCount :: (frames 2 pps ++ trailing))

/-- The header announces a set, and the length of the first one is there. -/
def Opens (header : Bytes) : Prop :=
  ∃ skipped spsCount tail, skipped.length = 10 ∧ header = skipped ++ spsCount :: tail ∧
    ((spsCount &&& 0x1f).toNat ≠ 0 ∧ 2 ≤ tail.length ∨
      (spsCount &&& 0x1f).toNat = 0 ∧ ∃ ppsCount tail', tail = ppsCount :: tail' ∧ ppsCount.toNat ≠ 0 ∧
        2 ≤ tail'.length)

/-- The sets are complete and fit, or not even the first start code is stored. -/
def AllOrNothing (header : Bytes) (o : Out) : Prop :=
  (∃ sps pps, Complete header sps pps ∧ Fit o (sps ++ pps)) ∨ ¬ (Opens header ∧ 4 ≤ o.cap - o.data.length)

/-! ## One set -/

/-- A set that is appended is there to its last byte, and fits. -/
theorem appendHeaderNal_ok {R : NginxRtmp} {bs : Bytes} {o : Out}
    (h : (appendHeaderNal R (one bs) o).1 = .ok) :
    ∃ u rest, bs = frame 2 u ++ rest ∧ u.length < 65536 ∧ u ++ rest ≠ [] ∧
      o.data.length + (longUnit u).length ≤ o.cap := by
  obtain ⟨-, h2⟩ | ⟨⟨-, hlen⟩, h2⟩ := ngxCustomCopy_one_cases bs 2
  · simp only [appendHeaderNal, h2, if_true] at h
    cases h
  simp only [appendHeaderNal, h2, R.readInt_eq, reduceCtorEq, if_false] at h
  split at h
  · cases h
  split at h
  · cases h
  next hroom =>
  -- the body is read to its end
  obtain ⟨-, hk⟩ | ⟨⟨hne, hle⟩, -⟩ := ngxCustomCopy_one_cases (bs.drop 2) (beNat (bs.take 2))
  · rw [hk] at h
    cases h
  have hfield : (bs.take 2).length = 2 := List.length_take_of_le hlen
  have hbody : ((bs.drop 2).take (beNat (bs.take 2))).length = beNat (bs.take 2) := List.length_take_of_le hle
  have hlt := beNat_lt (bs.take 2)
  have hcode := beBytes_beNat (bs.take 2)
  rw [hfield] at hlt hcode
  have hroom := not_lacks hroom
  refine ⟨(bs.drop 2).take (beNat (bs.take 2)), (bs.drop 2).drop (beNat (bs.take 2)), ?_, ?_, ?_, ?_⟩
  · rw [frame, hbody, hcode, List.append_assoc, List.take_append_drop, List.take_append_drop]
  · omega
  · rwa [List.take_append_drop]
  · simp only [push_data, push_cap, List.length_append, List.length_cons, List.length_nil] at hroom
    simp only [longUnit, List.length_append, List.length_cons, List.length_nil]
    omega

/-- Behind the length field the start code is stored, whatever follows. -/
theorem appendHeaderNal_opens (R : NginxRtmp) {bs : Bytes} {o : Out} (hlen : 2 ≤ bs.length)
    (hroom : o.data.length + 4 ≤ o.cap) :
    o.data ++ [0, 0, 0, 1] <+: (appendHeaderNal R (one bs) o).2.2.data := by
  obtain ⟨hno | hno, -⟩ | ⟨-, h2⟩ := ngxCustomCopy_one_cases bs 2
  · rw [hno] at hlen
    exact absurd hlen (by simp)
  · omega
  simp only [appendHeaderNal, h2, lacks_eq_false.mpr hroom, reduceCtorEq, Bool.false_eq_true, if_false]
  split
  · exact List.prefix_rfl
  · split
    · exact List.prefix_rfl
    · exact List.prefix_append ..

theorem appendHeaderNal_nothing (R : NginxRtmp) {bs : Bytes} {o : Out}
    (h : ¬ (2 ≤ bs.length ∧ o.data.length + 4 ≤ o.cap)) : appendHeaderNal R (one bs) o =
      (.error, (ngxCustomCopy 2 (one bs)).rest, o) := by
  obtain ⟨-, h2⟩ | ⟨⟨-, hlen⟩, h2⟩ := ngxCustomCopy_one_cases bs 2
  · simp only [appendHeaderNal, h2, if_true]
  · have hroom : o.lacks 4 = true := by
      simp only [Out.lacks, decide_eq_true_eq]
      omega
    simp only [appendHeaderNal, h2, hroom, if_true, reduceCtorEq, if_false]

/-! ## The sets of one kind -/

/-- Sets that are appended are there and fit. -/
theorem headerLoop_ok {R : NginxRtmp} : ∀ (turns : Nat) (nnals : Int8) (bs : Bytes) (o : Out),
    nnals.toUInt8.toNat < turns → (headerLoop R turns nnals (one bs) o).1 = .ok →
      ∃ us rest, us.length = nnals.toUInt8.toNat ∧ bs = frames 2 us ++ rest ∧ Readable us rest ∧ Fit o us
  | 0, _, _, _, ht, _ => absurd ht (Nat.not_lt_zero _)
  | turns + 1, nnals, bs, o, ht, h => by
    rw [headerLoop] at h
    by_cases h0 : nnals = 0
    · subst h0
      exact ⟨[], bs, rfl, rfl, ⟨by simp, by simp⟩, Nat.zero_le _⟩
    · rw [if_neg h0] at h
      have hp := int8_pred nnals h0
      cases hrc : (appendHeaderNal R (one bs) o).1 with
      | error =>
        split at h
        · cases h
        · next heq => rw [heq] at hrc; cases hrc
      | ok =>
        obtain ⟨u, rest, rfl, hlt, hne, hroom⟩ := appendHeaderNal_ok hrc
        rw [appendHeaderNal_unit R u rest o hlt hne hroom] at h
        obtain ⟨us, rest', hlen, rfl, hread, hfit⟩ :=
          headerLoop_ok turns (nnals - 1) rest (o.push (longUnit u)) (by omega) h
        refine ⟨u :: us, rest', by rw [List.length_cons]; omega, ?_, readable_cons.mpr ⟨hlt, hne, hread⟩,
          fit_cons.mpr ⟨hroom, hfit⟩⟩
        rw [frames_cons, frame]
        simp only [List.append_assoc]

/-- What is in the buffer stays there. -/
theorem prefix_storable (bs : Bytes) : Storable fun o => bs <+: o.data where
  startCode _ _ h _ _ := h.trans (List.prefix_append ..)
  behind _ _ h _ _ := h.trans (List.prefix_append ..)
  store _ _ h _ := h

/-- With sets announced, the length of the first one there and four bytes free, a start
code is stored. -/
theorem headerLoop_opens (R : NginxRtmp) {turns : Nat} {nnals : Int8} {bs : Bytes} {o : Out}
    (hturns : 0 < turns) (h0 : nnals ≠ 0) (hlen : 2 ≤ bs.length) (hroom : 4 ≤ o.cap - o.data.length) :
    o.data ++ [0, 0, 0, 1] <+: (headerLoop R turns nnals (one bs) o).2.2.data := by
  have hopen := appendHeaderNal_opens R hlen (o := o) (by omega)
  obtain ⟨turns, rfl⟩ : ∃ t, turns = t + 1 := ⟨turns - 1, by omega⟩
  rw [headerLoop, if_neg h0]
  split
  · next heq => rw [heq] at hopen; exact hopen
  · next heq =>
    rw [heq] at hopen
    exact headerLoop_keeps (prefix_storable _) R turns _ _ _ hopen

/-- Otherwise the loop fails before it stores anything. -/
theorem headerLoop_stuck (R : NginxRtmp) {turns : Nat} {nnals : Int8} {bs : Bytes} {o : Out}
    (hturns : 0 < turns) (h0 : nnals ≠ 0) (h : ¬ (2 ≤ bs.length ∧ 4 ≤ o.cap - o.data.length)) :
    headerLoop R turns nnals (one bs) o = (.error, (ngxCustomCopy 2 (one bs)).rest, o) := by
  obtain ⟨turns, rfl⟩ : ∃ t, turns = t + 1 := ⟨turns - 1, by omega⟩
  rw [headerLoop, if_neg h0, appendHeaderNal_nothing R (fun hn => h ⟨hn.1, by omega⟩)]

theorem headerLoop_zero (R : NginxRtmp) (turns : Nat) (p : Chain) (o : Out) :
    headerLoop R turns 0 p o = (.ok, p, o) := by
  cases turns with
  | zero => rfl
  | succ turns => rw [headerLoop, if_pos rfl]

/-! ## The whole header -/

/-- From the PPS count on.
mirrors ngx_agora_helper.c:216-225 -/
def appendPps (R : NginxRtmp) (p : Chain) (o : Out) : Rc × Out :=
  let c := ngxCustomCopy 1 p
  if c.rc = .error then (.error, o)
  else
    match headerLoop R nnalsTurns (c.dst.headD 0).toInt8 c.rest o with
    | (.error, _, o) => (.error, o)
    | (.ok, _, o) => (.ok, o)

theorem appendPps_nil (R : NginxRtmp) (o : Out) : appendPps R (one []) o = (.error, o) := rfl

theorem appendPps_cons (R : NginxRtmp) (count : UInt8) (tail : Bytes) (o : Out) :
    appendPps R (one (count :: tail)) o =
      ((headerLoop R nnalsTurns count.toInt8 (one tail) o).1,
        (headerLoop R nnalsTurns count.toInt8 (one tail) o).2.2) := by
  have hread : ngxCustomCopy 1 (one (count :: tail)) = ⟨.ok, [count], one tail⟩ :=
    ngxCustomCopy_one [count] tail (by simp)
  simp only [appendPps, hread, reduceCtorEq, if_false, List.headD_cons]
  rcases headerLoop R nnalsTurns count.toInt8 (one tail) o with ⟨rc, p, o'⟩
  cases rc <;> rfl

theorem appendPps_keeps {I : Out → Prop} (hI : Storable I) (R : NginxRtmp) (p : Chain) {o : Out} (h : I o) :
    I (appendPps R p o).2 := by
  simp only [appendPps]
  split
  · exact h
  · have hp := headerLoop_keeps hI R nnalsTurns ((ngxCustomCopy 1 p).dst.headD 0).toInt8 (ngxCustomCopy 1 p).rest o h
    split
    · next heq => rw [heq] at hp; exact hp
    · next heq => rw [heq] at hp; exact hp

theorem appendSpsPps_short (R : NginxRtmp) {codec : CodecCtx} (o : Out) (h : (flat codec.avcHeader).length < 11) :
    appendSpsPps R codec o = (.error, o) := by
  simp only [appendSpsPps]
  split
  · rfl
  · next hskip =>
    have hrc : (ngxCustomCopy 10 codec.avcHeader).rc = .ok := by
      cases hrc : (ngxCustomCopy 10 codec.avcHeader).rc with
      | ok => rfl
      | error => exact absurd hrc hskip
    obtain ⟨hne, hle⟩ := (ngxCustomCopy_rc _ _).mp hrc
    have hrest := (ngxCustomCopy_ok _ 10 hne hle).2.2.1
    have herr := ngxCustomCopy_error (ngxCustomCopy 10 codec.avcHeader).rest 1
      (.inr (by rw [hrest, List.length_drop]; omega))
    rw [herr, if_pos rfl]

/-- Behind the bytes that are skipped and the SPS count. -/
theorem appendSpsPps_read (R : NginxRtmp) {codec : CodecCtx} (o : Out) {skipped tail : Bytes} {spsCount : UInt8}
    (hs : skipped.length = 10) (h : flat codec.avcHeader = skipped ++ spsCount :: tail) :
    appendSpsPps R codec o =
      match headerLoop R nnalsTurns (spsCount.toInt8 &&& 0x1f) (one tail) o with
      | (.error, _, o) => (.error, o)
      | (.ok, p, o) => appendPps R p o := by
  have hne : flat codec.avcHeader ≠ [] := by rw [h]; simp
  have hskip := ngxCustomCopy_one skipped (spsCount :: tail) (by simp)
  rw [hs] at hskip
  have hcount : ngxCustomCopy 1 (one (spsCount :: tail)) = ⟨.ok, [spsCount], one tail⟩ :=
    ngxCustomCopy_one [spsCount] tail (by simp)
  rw [appendSpsPps_congr R (sameCodec_joined hne)]
  simp only [appendSpsPps, CodecCtx.joined, h, hskip, hcount, List.headD_cons, reduceCtorEq, if_false]
  rfl

/-- The masked count, as the loop counts it down. -/
theorem spsCount_toNat (spsCount : UInt8) :
    (spsCount.toInt8 &&& 0x1f).toUInt8.toNat = (spsCount &&& 0x1f).toNat := rfl

theorem int8_ne_zero (n : Int8) : n ≠ 0 ↔ n.toUInt8.toNat ≠ 0 := by
  constructor
  · intro h
    have := int8_pred n h
    omega
  · rintro h rfl
    exact h rfl

/-- Lists that follow each other fit when each fits what the one before leaves. -/
theorem fit_append {o : Out} {us vs : List Bytes} :
    Fit o (us ++ vs) ↔ Fit o us ∧ Fit (o.push (us.flatMap longUnit)) vs := by
  induction us generalizing o with
  | nil =>
    rw [List.nil_append, List.flatMap_nil, push_nil]
    exact ⟨fun h => ⟨Nat.zero_le _, h⟩, fun h => h.2⟩
  | cons u us ih => rw [List.cons_append, fit_cons, fit_cons, ih, List.flatMap_cons, ← push_push, and_assoc]

theorem spsCount_turns (spsCount : UInt8) : (spsCount.toInt8 &&& 0x1f).toUInt8.toNat < nnalsTurns :=
  (spsCount.toInt8 &&& 0x1f).toUInt8.toNat_lt

theorem header_split {header : Bytes} (h : 11 ≤ header.length) :
    ∃ skipped spsCount tail, skipped.length = 10 ∧ header = skipped ++ spsCount :: tail := by
  cases hd : header.drop 10 with
  | nil =>
    have hlen := congrArg List.length hd
    rw [List.length_drop, List.length_nil] at hlen
    omega
  | cons spsCount tail =>
    exact ⟨header.take 10, spsCount, tail, List.length_take_of_le (by omega), by rw [← hd, List.take_append_drop]⟩

/-- Complete sets that fit are all appended. -/
theorem appendSpsPps_complete (R : NginxRtmp) {codec : CodecCtx} {o : Out} {sps pps : List Bytes}
    (hc : Complete (flat codec.avcHeader) sps pps) (hfit : Fit o (sps ++ pps)) :
    appendSpsPps R codec o = (.ok, o.push ((sps ++ pps).flatMap longUnit)) := by
  obtain ⟨skipped, spsCount, ppsCount, trailing, hs, hsps, hpps, hlt, hread, hflat⟩ := hc
  obtain ⟨hfs, hfp⟩ := fit_append.mp hfit
  have hturns := spsCount_turns spsCount
  have hfirst := headerLoop_units R (ppsCount :: (frames 2 pps ++ trailing)) sps nnalsTurns
    (spsCount.toInt8 &&& 0x1f) o (by rwa [← hsps]) hsps ⟨hlt, fun _ => List.cons_ne_nil _ _⟩ hfs
  have hsecond := headerLoop_units R trailing pps nnalsTurns ppsCount.toInt8 (o.push (sps.flatMap longUnit))
    (by rw [← hpps]; exact ppsCount.toNat_lt) hpps hread hfp
  rw [appendSpsPps_read R o hs hflat, hfirst]
  dsimp only
  rw [appendPps_cons, hsecond, push_push, List.flatMap_append]

/-- Only complete sets that fit are reported as appended. -/
theorem appendSpsPps_ok {R : NginxRtmp} {codec : CodecCtx} {o : Out} (h : (appendSpsPps R codec o).1 = .ok) :
    ∃ sps pps, Complete (flat codec.avcHeader) sps pps ∧ Fit o (sps ++ pps) := by
  by_cases hlen : 11 ≤ (flat codec.avcHeader).length
  swap
  · rw [appendSpsPps_short R o (by omega)] at h
    cases h
  obtain ⟨skipped, spsCount, tail, hs, hflat⟩ := header_split hlen
  rw [appendSpsPps_read R o hs hflat] at h
  have hturns := spsCount_turns spsCount
  cases hrc : (headerLoop R nnalsTurns (spsCount.toInt8 &&& 0x1f) (one tail) o).1 with
  | error =>
    split at h
    · cases h
    · next heq => rw [heq] at hrc; cases hrc
  | ok =>
    obtain ⟨sps, rest, hsps, rfl, hread, hfs⟩ := headerLoop_ok nnalsTurns _ tail o hturns hrc
    rw [headerLoop_units R rest sps nnalsTurns _ o (by rwa [hsps]) hsps.symm hread hfs] at h
    dsimp only at h
    cases rest with
    | nil =>
      rw [appendPps_nil] at h
      cases h
    | cons ppsCount rest =>
      rw [appendPps_cons] at h
      obtain ⟨pps, trailing, hpps, rfl, hread', hfp⟩ := headerLoop_ok nnalsTurns _ rest _ ppsCount.toNat_lt h
      exact ⟨sps, pps, ⟨skipped, spsCount, ppsCount, trailing, hs, hsps.symm, hpps.symm, hread.1, hread', hflat⟩,
        fit_append.mpr ⟨hfs, hfp⟩⟩

/-- Nothing is stored in front of the first start code. -/
theorem appendSpsPps_nothing (R : NginxRtmp) {codec : CodecCtx} {o : Out}
    (h : ¬ (Opens (flat codec.avcHeader) ∧ 4 ≤ o.cap - o.data.length)) : (appendSpsPps R codec o).2 = o := by
  by_cases hlen : 11 ≤ (flat codec.avcHeader).length
  swap
  · rw [appendSpsPps_short R o (by omega)]
  obtain ⟨skipped, spsCount, tail, hs, hflat⟩ := header_split hlen
  rw [appendSpsPps_read R o hs hflat]
  by_cases h0 : spsCount.toInt8 &&& 0x1f = 0
  · -- no SPS: the PPS count is next
    have hzero : (spsCount &&& 0x1f).toNat = 0 := by
      rw [← spsCount_toNat, h0]
      rfl
    rw [h0, headerLoop_zero]
    dsimp only
    cases tail with
    | nil => rw [appendPps_nil]
    | cons ppsCount rest =>
      rw [appendPps_cons]
      by_cases hp : ppsCount.toInt8 = 0
      · rw [hp, headerLoop_zero]
      · rw [headerLoop_stuck R (by decide) hp fun ⟨hrest, hroom⟩ => h ⟨⟨skipped, spsCount, _, hs, hflat,
          .inr ⟨hzero, ppsCount, rest, rfl, (int8_ne_zero _).mp hp, hrest⟩⟩, hroom⟩]
  · rw [headerLoop_stuck R (by decide) h0 fun ⟨htail, hroom⟩ => h ⟨⟨skipped, spsCount, tail, hs, hflat,
      .inl ⟨(int8_ne_zero _).mp h0, htail⟩⟩, hroom⟩]

/-- And with it something is. -/
theorem appendSpsPps_opens (R : NginxRtmp) {codec : CodecCtx} {o : Out} (h : Opens (flat codec.avcHeader))
    (hroom : 4 ≤ o.cap - o.data.length) : o.data ++ [0, 0, 0, 1] <+: (appendSpsPps R codec o).2.data := by
  obtain ⟨skipped, spsCount, tail, hs, hflat, ⟨h0, htail⟩ | ⟨hzero, ppsCount, rest, rfl, hp, hrest⟩⟩ := h
  · have hne : spsCount.toInt8 &&& 0x1f ≠ 0 := (int8_ne_zero _).mpr h0
    have hstored := headerLoop_opens R (by decide : 0 < nnalsTurns) hne htail hroom
    rw [appendSpsPps_read R o hs hflat]
    split
    · next heq => rw [heq] at hstored; exact hstored
    · next p o' heq =>
      rw [heq] at hstored
      exact appendPps_keeps (prefix_storable _) R p hstored
  · have h0 : spsCount.toInt8 &&& 0x1f = 0 := by
      by_contra hne
      exact (int8_ne_zero _).mp hne hzero
    rw [appendSpsPps_read R o hs hflat, h0, headerLoop_zero]
    dsimp only
    rw [appendPps_cons]
    exact headerLoop_opens R (by decide) ((int8_ne_zero _).mpr hp) hrest hroom

theorem appendSpsPps_exact (R : NginxRtmp) (codec : CodecCtx) (o : Out) :
    ((appendSpsPps R codec o).1 = .error → (appendSpsPps R codec o).2.data = o.data) ↔
      AllOrNothing (flat codec.avcHeader) o := by
  constructor
  · intro hkeeps
    cases hrc : (appendSpsPps R codec o).1 with
    | ok => exact .inl (appendSpsPps_ok hrc)
    | error =>
      refine .inr fun ⟨hopens, hroom⟩ => ?_
      have hle := (appendSpsPps_opens R hopens hroom).length_le
      rw [hkeeps hrc] at hle
      simp at hle
  · rintro (⟨sps, pps, hc, hfit⟩ | hno) herr
    · rw [appendSpsPps_complete R hc hfit] at herr
      cases herr
    · rw [appendSpsPps_nothing R hno]

/-! ## The frames made with it -/

/-- Delimiters, complete lists of parameter sets, and complete units of the message. -/
inductive Assembled (header : Bytes) (us : List Bytes) : List Nalu → Prop
  | nil : Assembled header us []
  | aud {l : List Nalu} : Assembled header us l → Assembled header us (l ++ [audUnit])
  | sets {l : List Nalu} {sps pps : List Bytes} : Assembled header us l → Complete header sps pps →
      Assembled header us (l ++ (sps ++ pps).map (Nalu.mk true))
  | unit {l : List Nalu} {u : Bytes} (long : Bool) : Assembled header us l → u ∈ us → u ≠ [] →
      Assembled header us (l ++ [⟨long, u⟩])

def Whole (header : Bytes) (us : List Bytes) (bs : Bytes) : Prop :=
  ∃ l, bs = serialize l ∧ Assembled header us l

/-- The turn on `u` calls `append_sps_pps`. -/
def Calls (u : Bytes) (s : Conv) : Prop := nalTypeOf u = 5 ∧ s.spsPpsSent = false

/-- Every call meets the condition, in the buffer it finds. -/
def Meets (R : NginxRtmp) (codec : CodecCtx) : List Bytes → Conv → Prop
  | [], _ => True
  | u :: us, s =>
    (Calls u s → AllOrNothing (flat codec.avcHeader) (audSwitch (nalTypeOf u) s).out) ∧
      ∀ s', unitTurn R codec u (frames codec.avcNalBytes us) s = .next s' → Meets R codec us s'

section
variable {R : NginxRtmp} {codec : CodecCtx} {all : List Bytes} {s : Conv}

theorem audSwitch_whole {header : Bytes} (t : UInt8) (h : Whole header all s.out.data) :
    Whole header all (audSwitch t s).out.data := by
  unfold audSwitch
  split
  · exact h
  · split
    · dsimp only
      unfold appendAud
      split
      · exact h
      · obtain ⟨l, hl, hasm⟩ := h
        exact ⟨l ++ [audUnit], by rw [push_data, hl, serialize_append]; rfl, .aud hasm⟩
    · split <;> exact h

theorem audSwitch_params (t : UInt8) : (audSwitch t s).spsPpsSent = s.spsPpsSent := by
  unfold audSwitch
  split
  · rfl
  · split
    · rfl
    · split <;> rfl

theorem appendSpsPps_whole {o : Out} (hok : AllOrNothing (flat codec.avcHeader) o)
    (h : Whole (flat codec.avcHeader) all o.data) :
    Whole (flat codec.avcHeader) all (appendSpsPps R codec o).2.data := by
  rcases hok with ⟨sps, pps, hc, hfit⟩ | hno
  · obtain ⟨l, hl, hasm⟩ := h
    rw [appendSpsPps_complete R hc hfit]
    exact ⟨_, by rw [push_data, hl, ← serialize_long, serialize_append], .sets hasm hc⟩
  · rw [appendSpsPps_nothing R hno]
    exact h

theorem unitTurn_whole {u rest : Bytes} {s' : Conv} (hu : u ∈ all)
    (hok : Calls u s → AllOrNothing (flat codec.avcHeader) (audSwitch (nalTypeOf u) s).out)
    (h : Whole (flat codec.avcHeader) all s.out.data) (hturn : unitTurn R codec u rest s = .next s') :
    Whole (flat codec.avcHeader) all s'.out.data := by
  simp only [unitTurn] at hturn
  split at hturn
  · cases hturn
    exact h
  next hne =>
  split at hturn
  · split at hturn <;> cases hturn
    exact h
  have haud := audSwitch_whole (nalTypeOf u) h
  have hsets : Whole (flat codec.avcHeader) all
      (spsPpsSwitch R codec (nalTypeOf u) (audSwitch (nalTypeOf u) s)).out.data := by
    unfold spsPpsSwitch
    split
    · exact haud
    · split
      · next h5 =>
        split
        · exact haud
        · next hsent =>
          rw [audSwitch_params, Bool.not_eq_true] at hsent
          exact appendSpsPps_whole (hok ⟨h5, hsent⟩) haud
      · exact haud
  generalize spsPpsSwitch R codec (nalTypeOf u) (audSwitch (nalTypeOf u) s) = t at hturn hsets
  split at hturn
  · cases hturn
  split at hturn
  · cases hturn
  split at hturn <;> cases hturn
  obtain ⟨l, hl, hasm⟩ := hsets
  have hcode := prefix_tail t.out (decide (t.out.data = [])) hne (by simp)
  refine ⟨l ++ [⟨decide (t.out.data = []), u⟩], ?_, .unit _ hasm hu hne⟩
  rw [push_push, hcode, push_data, hl, serialize_append, serialize_cons, serialize_nil, List.append_nil]

theorem unitLoop_whole {o : Out} : ∀ (us : List Bytes) (s : Conv), (∀ u ∈ us, u ∈ all) → Meets R codec us s →
    Whole (flat codec.avcHeader) all s.out.data → unitLoop R codec us s = .filled o →
    Whole (flat codec.avcHeader) all o.data := by
  intro us
  induction us with
  | nil =>
    intro s _ _ h hloop
    cases hloop
    exact h
  | cons u us ih =>
    intro s hall hmeets h hloop
    rw [unitLoop] at hloop
    cases hturn : unitTurn R codec u (frames codec.avcNalBytes us) s with
    | ret rc =>
      rw [hturn] at hloop
      cases hloop
    | next s' =>
      rw [hturn] at hloop
      have hs' := unitTurn_whole (hall u (by simp)) hmeets.1 h hturn
      exact ih s' (fun v hv => hall v (by simp [hv])) (hmeets.2 s' hturn) hs' hloop

end

theorem delivered_whole (R : NginxRtmp) {codec : CodecCtx} {h : RtmpHeader} {msg : Chain} {r : Annexb} {buf : Bytes}
    (hr : avccToAnnexb R (some codec) h msg = some r) (hb : r.outBuffer = some buf) :
    ∃ fmt cts us, cts.length = 3 ∧ flat msg = encodeMessage codec.avcNalBytes fmt cts us ∧
      (∀ u ∈ us, u.length < 256 ^ codec.avcNalBytes) ∧
      (Meets R codec us (Conv.start (frames codec.avcNalBytes us)) → Whole (flat codec.avcHeader) us buf) := by
  obtain ⟨hhdr, hlen, hid, hne, fmt, cts, payload, hcts, hmsg⟩ := avccToAnnexb_delivers R hr hb
  rw [avccToAnnexb_message R hhdr hlen hid hne hcts hmsg] at hr
  obtain ⟨o, hloop, rfl, -⟩ := finish_delivers R hr hb
  obtain ⟨us, rfl, hus, hnb⟩ := convLoop_reads R hloop
  have hmsg' : flat msg = encodeMessage codec.avcNalBytes fmt cts us := hmsg
  refine ⟨fmt, cts, us, hcts, hmsg', hus, fun hmeets => ?_⟩
  rw [convLoop_start R (fuel_enough hmsg' hnb) hnb hus, Option.some.injEq] at hloop
  exact unitLoop_whole us _ (fun _ hu => hu) hmeets ⟨[], rfl, .nil⟩ hloop

/-- The parameter sets are appended completely or not at all, exactly when the header holds what
it announces and there is room, or nothing at all can be appended. -/
theorem paramSets_all_or_nothing (R : NginxRtmp) (codec : CodecCtx) :
    (∀ o, ((appendSpsPps R codec o).1 = .error → (appendSpsPps R codec o).2.data = o.data) ↔
        AllOrNothing (flat codec.avcHeader) o) ∧
      ∀ h msg r buf, avccToAnnexb R (some codec) h msg = some r → r.outBuffer = some buf →
        ∃ fmt cts us, cts.length = 3 ∧ flat msg = encodeMessage codec.avcNalBytes fmt cts us ∧
          (∀ u ∈ us, u.length < 256 ^ codec.avcNalBytes) ∧
          (Meets R codec us (Conv.start (frames codec.avcNalBytes us)) → Whole (flat codec.avcHeader) us buf) :=
  ⟨appendSpsPps_exact R codec, fun _ _ _ _ hr hb => delivered_whole R hr hb⟩

/-- The header ends behind the SPS. -/
def cutCodec : CodecCtx := { sampleCodec with avcHeader := [sampleConfig.encode.take 15] }

/-- One IDR slice. -/
def sliceMessage : Chain := [[0x17, 1, 0, 0, 0], [0, 0, 0, 2, 0x65, 0x88]]

theorem sliceMessage_lt : (flat sliceMessage).length < 2 ^ 24 := by decide

def sliceHeader : RtmpHeader := ⟨(flat sliceMessage).length, 0, sliceMessage_lt⟩

theorem appendSpsPps_partial :
    appendSpsPps .released cutCodec (Out.empty bufSize) = (.error, ⟨bufSize, [0, 0, 0, 1, 0x67, 0x42], 6⟩) ∧
      avccToAnnexb .released (some cutCodec) sliceHeader sliceMessage =
        some ⟨17, some [0, 0, 0, 1, 0x09, 0xf0, 0, 0, 0, 1, 0x67, 0x42, 0, 0, 1, 0x65, 0x88]⟩ := by
  decide +kernel

end Rtmpg.Video
