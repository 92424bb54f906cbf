import Rtmpg.L2Video.Message

/-!
# Frames of no bytes

A message without a kept unit goes the way of every other one: `avcc_to_annexb`
allocates zero bytes, and where `malloc(0)` is not `NULL` the empty frame is
handed to `agora_send_video` (`ngx_agora_helper.c:394-425`).

* `unitLoop_dropped`, `unitLoop_kept`: the loop on units that are all dropped,
  and on others.
* `sendVideo_frame`: what a handed-on frame looks like.
* `sendVideo_empty`: the messages that make an empty one.
-/
namespace Rtmpg.Video

open Rtmpg.Bytes Rtmpg.Chain

/-! ## The loop -/

theorem unitLoop_dropped (R : NginxRtmp) {codec : CodecCtx} (hnb : 0 < codec.avcNalBytes) :
    ∀ (us : List Bytes) (s : Conv), (∀ u ∈ us, Dropped u) →
      unitLoop R codec us s = if (us.getLastD []).length = 1 then .ret .error else .filled s.out
  | [], _, _ => rfl
  | [u], s, h => by
    rw [unitLoop, unitTurn_dropped R codec (h u (by simp))]
    by_cases h1 : u.length = 1
    · rw [if_pos ⟨h1, rfl⟩]
      exact (if_pos h1).symm
    · rw [if_neg fun h => h1 h.1]
      exact (if_neg h1).symm
  | u :: v :: us, s, h => by
    have hrest : frames codec.avcNalBytes (v :: us) ≠ [] := by
      rw [ne_eq, frames_eq_nil _ hnb]
      exact List.cons_ne_nil _ _
    rw [unitLoop, unitTurn_dropped R codec (h u (by simp)), if_neg fun h => hrest h.2]
    exact unitLoop_dropped R hnb (v :: us) _ fun w hw => h w (List.mem_cons_of_mem _ hw)

/-- A kept unit leaves at least its type byte. -/
theorem unitTurn_stores (R : NginxRtmp) (codec : CodecCtx) {u rest : Bytes} {s s' : Conv} (hu : ¬ Dropped u)
    (h : unitTurn R codec u rest s = .next s') : s'.out.data ≠ [] := by
  have hne : u ≠ [] := fun he => hu (.inl he)
  simp only [unitTurn, if_neg hne, if_neg fun ht => hu (.inr ht)] at h
  split at h
  · cases h
  · split at h
    · cases h
    · split at h <;> cases h
      simp [prefixBytes]

theorem unitTurn_nonempty (R : NginxRtmp) {codec : CodecCtx} (hnb : 0 < codec.avcNalBytes) {u rest : Bytes}
    {s s' : Conv} (hu : u.length < 256 ^ codec.avcNalBytes)
    (hs : s.rest = one (frame codec.avcNalBytes u ++ rest)) (hne : s.out.data ≠ [])
    (h : unitTurn R codec u rest s = .next s') : s'.out.data ≠ [] := by
  rw [← nalTurn_unit R codec hnb u rest hu s hs] at h
  exact nalTurn_keeps nonempty_storable R codec hne h

theorem unitLoop_kept (R : NginxRtmp) {codec : CodecCtx} (hnb : 0 < codec.avcNalBytes) {o : Out} :
    ∀ (us : List Bytes) (s : Conv), (∀ u ∈ us, u.length < 256 ^ codec.avcNalBytes) →
      s.rest = one (frames codec.avcNalBytes us) → (s.out.data ≠ [] ∨ ∃ u ∈ us, ¬ Dropped u) →
      unitLoop R codec us s = .filled o → o.data ≠ [] := by
  intro us
  induction us with
  | nil =>
    intro s _ _ hor h
    cases h
    rcases hor with hne | ⟨u, hu, -⟩
    · exact hne
    · cases hu
  | cons u us ih =>
    intro s hlen hs hor h
    have hs' : s.rest = one (frame codec.avcNalBytes u ++ frames codec.avcNalBytes us) := hs
    rw [unitLoop] at h
    cases hturn : unitTurn R codec u (frames codec.avcNalBytes us) s with
    | ret rc =>
      rw [hturn] at h
      cases h
    | next s' =>
      rw [hturn] at h
      refine ih s' (fun v hv => hlen v (by simp [hv])) (unitTurn_rest R codec u _ s s' hturn) ?_ h
      by_cases hu : Dropped u
      · rcases hor with hne | ⟨v, hv, hk⟩
        · exact .inl (unitTurn_nonempty R hnb (hlen u (by simp)) hs' hne hturn)
        · rcases List.mem_cons.mp hv with rfl | hv
          · exact absurd hu hk
          · exact .inr ⟨v, hv, hk⟩
      · exact .inl (unitTurn_stores R codec hu hturn)

/-! ## The message -/

/-- An H.264 message of dropped units only, or of none, whose last unit is not one byte
long, on a system whose `malloc(0)` is not `NULL`. -/
structure EmptyFrame (R : NginxRtmp) (codec : CodecCtx) (h : RtmpHeader) (msg : Chain) (fmt : UInt8) (cts : Bytes)
    (us : List Bytes) : Prop where
  malloc : R.mallocZero = true
  header : codec.avcHeader ≠ []
  long : 1 ≤ h.mlen
  h264 : codec.videoCodecId = R.videoH264
  cts_length : cts.length = 3
  message : flat msg = encodeMessage codec.avcNalBytes fmt cts us
  nalBytes : us = [] ∨ NalBytesOk codec
  units : ∀ u ∈ us, u.length < 256 ^ codec.avcNalBytes
  dropped : ∀ u ∈ us, Dropped u
  last : (us.getLastD []).length ≠ 1

/-- A loop that ends by using the chain up, of units it can read. -/
theorem convLoop_reads (R : NginxRtmp) {codec : CodecCtx} {payload : Bytes} {fuel : Nat} {o : Out}
    (h : convLoop R codec fuel (Conv.start payload) = some (.filled o)) :
    ∃ us, payload = frames codec.avcNalBytes us ∧ (∀ u ∈ us, u.length < 256 ^ codec.avcNalBytes) ∧
      (us = [] ∨ NalBytesOk codec) := by
  obtain ⟨us, hp, hus⟩ := convLoop_filled R codec o fuel payload _ rfl h
  by_cases hnil : payload = []
  · exact ⟨[], hnil, by simp, .inl rfl⟩
  refine ⟨us, hp, hus, .inr ⟨Nat.pos_of_ne_zero fun h0 => ?_, ?_⟩⟩
  · -- with lengths of no bytes there is nothing to read
    refine hnil (hp.trans ?_)
    rw [frames, List.flatMap_eq_nil_iff]
    intro u hu
    have hlt := hus u hu
    rw [h0, Nat.pow_zero, Nat.lt_one_iff, List.length_eq_zero_iff] at hlt
    rw [hlt, h0]
    rfl
  · by_contra hgt
    have hrest : (Conv.start payload).rest ≠ [] := by rwa [Conv.start, ne_eq, one_eq_nil]
    unfold convLoop at h
    rw [if_neg hrest, if_pos (by omega)] at h
    cases h

theorem convLoop_start (R : NginxRtmp) {codec : CodecCtx} {us : List Bytes} {fuel : Nat} (hfuel : us.length ≤ fuel)
    (hnb : us = [] ∨ NalBytesOk codec) (hus : ∀ u ∈ us, u.length < 256 ^ codec.avcNalBytes) :
    convLoop R codec fuel (Conv.start (frames codec.avcNalBytes us)) =
      some (unitLoop R codec us (Conv.start (frames codec.avcNalBytes us))) := by
  rcases hnb with rfl | hnb
  · unfold convLoop
    exact if_pos rfl
  · exact convLoop_units R codec hnb us fuel _ hfuel hus rfl

theorem fuel_enough {codec : CodecCtx} {msg : Chain} {fmt : UInt8} {cts : Bytes} {us : List Bytes}
    (hmsg : flat msg = encodeMessage codec.avcNalBytes fmt cts us) (hnb : us = [] ∨ NalBytesOk codec) :
    us.length ≤ (flat msg).length := by
  rcases hnb with rfl | hnb
  · exact Nat.zero_le _
  · have := length_le_frames codec.avcNalBytes hnb.pos us
    rw [hmsg, encodeMessage, List.length_append]
    omega

/-- What reaches `agora_send_video`. -/
theorem sendVideo_frame {R : NginxRtmp} {connected : Bool} {codec : Option CodecCtx} {h : RtmpHeader}
    {msg : Chain} {ret : Int} {v : SendVideo}
    (hv : ngxAgoraSendVideo R connected codec h msg = some (ret, some v)) :
    v.len = v.buffer.length ∧ v.buffer.length ≤ bufSize ∧ (v.buffer = [] ∨ [0, 0, 0, 1] <+: v.buffer) ∧
      (v.buffer = [] → ∃ c fmt cts us, codec = some c ∧ EmptyFrame R c h msg fmt cts us) := by
  unfold ngxAgoraSendVideo at hv
  split at hv
  · cases hv
  split at hv
  · cases hv
  · cases hv
  next len buffer ha =>
  cases hv
  cases codec with
  | none => cases ha
  | some c =>
    obtain ⟨hhdr, hlen, hid, hne, fmt, cts, payload, hcts, hmsg⟩ := avccToAnnexb_delivers R ha rfl
    rw [avccToAnnexb_message R hhdr hlen hid hne hcts hmsg] at ha
    obtain ⟨o, hloop, hdata, hret⟩ := finish_delivers R ha rfl
    have hw := convLoop_within R c o _ (Conv.start _) empty_within hloop
    have hstart := convLoop_started R c o _ (Conv.start _) (.inl rfl) hloop
    refine ⟨hret, hdata ▸ hw.cap ▸ hw.last, hdata ▸ hstart, fun hempty => ?_⟩
    obtain ⟨us, rfl, hus, hnb⟩ := convLoop_reads R hloop
    have hmsg' : flat msg = encodeMessage c.avcNalBytes fmt cts us := hmsg
    rw [convLoop_start R (fuel_enough hmsg' hnb) hnb hus] at hloop ha
    have hnil : o.data = [] := hdata.trans hempty
    have hmalloc : R.mallocZero = true := by
      rw [Option.some.injEq] at hloop
      rw [hloop] at ha
      by_contra hno
      rw [Bool.not_eq_true] at hno
      simp only [finish, deliver, hnil, hno, and_self, if_true] at ha
      cases ha
    rw [Option.some.injEq] at hloop
    have hdropped : ∀ u ∈ us, Dropped u := by
      intro u hu
      by_contra hk
      have hpos : 0 < c.avcNalBytes := (hnb.resolve_left (List.ne_nil_of_mem hu)).pos
      exact unitLoop_kept R hpos us _ hus rfl (.inr ⟨u, hu, hk⟩) hloop hnil
    refine ⟨c, fmt, cts, us, rfl, hmalloc, hhdr, hlen, hid, hcts, hmsg', hnb, hus, hdropped, fun h1 => ?_⟩
    rcases hnb with rfl | hnb
    · cases h1
    · rw [unitLoop_dropped R hnb.pos us _ hdropped, if_pos h1] at hloop
      cases hloop

theorem sendVideo_empty {R : NginxRtmp} {codec : CodecCtx} {h : RtmpHeader} {msg : Chain} {fmt : UInt8} {cts : Bytes}
    {us : List Bytes} (hm : EmptyFrame R codec h msg fmt cts us) :
    ngxAgoraSendVideo R true (some codec) h msg = some (0, some ⟨[], 0, R.isKeyFrame msg, h.timestamp⟩) := by
  have hne : msg ≠ [] := by
    rintro rfl
    cases hm.message
  have hloop : unitLoop R codec us (Conv.start (frames codec.avcNalBytes us)) = .filled (Out.empty bufSize) := by
    rcases hm.nalBytes with rfl | hnb
    · rfl
    · rw [unitLoop_dropped R hnb.pos us _ hm.dropped, if_neg hm.last]
      rfl
  have ha : avccToAnnexb R (some codec) h msg = some ⟨0, some []⟩ := by
    rw [avccToAnnexb_message R hm.header hm.long hm.h264 hne hm.cts_length hm.message,
      convLoop_start R (fuel_enough hm.message hm.nalBytes) hm.nalBytes hm.units, hloop]
    simp only [finish, deliver, Out.empty, hm.malloc, Bool.true_eq_false, and_false, if_false, List.length_nil]
    rfl
  simp only [ngxAgoraSendVideo, ha, Bool.true_eq_false, if_false]

end Rtmpg.Video
