import Rtmpg.L2Video.Convert

/-!
# What every store into the conversion buffer keeps

All bytes of `out` are stored in one of three ways: a start code and what
follows it, more bytes behind what is there, or bytes behind `out.last` that
are given up again. A property these keep as long as they stay inside the
buffer (`Storable`) is kept by the whole conversion, whatever the chain and
the `avc_header` say about lengths and counts, and on the error paths too.

* `nalTurn_keeps`, `convLoop_keeps`: one turn of the `while` loop, and the loop.
* `convLoop_within`: the buffer is never overrun.
* `convLoop_started`: what it holds starts with `00 00 00 01`.
-/
namespace Rtmpg.Video

open Rtmpg.Chain

structure Storable (I : Out → Prop) : Prop where
  startCode : ∀ o bs, I o → [0, 0, 0, 1] <+: bs → o.data.length + bs.length ≤ o.cap → I (o.push bs)
  behind : ∀ o bs, I o → o.data ≠ [] → o.data.length + bs.length ≤ o.cap → I (o.push bs)
  store : ∀ o bs, I o → o.data.length + bs.length ≤ o.cap → I (o.store bs)

theorem not_lacks {o : Out} {n : Nat} (h : ¬ o.lacks n = true) : o.data.length + n ≤ o.cap :=
  lacks_eq_false.mp (by simpa using h)

theorem prefixBytes_le (o : Out) (t : UInt8) : (prefixBytes o t).length ≤ 5 := by
  unfold prefixBytes
  split <;> simp

/-- Long at the start of the buffer. -/
theorem prefixBytes_start {o : Out} (t : UInt8) (h : o.data = []) : [0, 0, 0, 1] <+: prefixBytes o t := by
  rw [prefixBytes, if_pos h]
  exact ⟨[t], rfl⟩

/-! ## The buffer a turn leaves -/

theorem turnOut_next {R : NginxRtmp} {codec : CodecCtx} {s s' : Conv} (h : nalTurn R codec s = .next s') :
    s'.out = turnOut R codec s := by
  simp only [nalTurn, turnWith] at h
  simp only [turnOut, turnWith]
  split at h
  · cases h
  · next hl =>
    rw [if_neg hl]
    split at h
    · next h0 => cases h; rw [if_pos h0]
    · next h0 =>
      rw [if_neg h0]
      split at h
      · cases h
      · next ht =>
        rw [if_neg ht]
        split at h
        · next hty =>
          rw [if_pos hty]
          split at h <;> cases h
          next hk => rw [if_neg hk]
        · next hty =>
          rw [if_neg hty]
          split at h
          · cases h
          · next h5 =>
            rw [if_neg h5]
            split at h
            · cases h
            · next hfit =>
              rw [if_neg hfit]
              split at h
              · cases h
              · next hk =>
                rw [if_neg hk]
                cases h
                rfl

/-! ## The functions that store -/

section
variable {I : Out → Prop} (hI : Storable I)
include hI

theorem appendAud_keeps {o : Out} (h : I o) : I (appendAud o).2 := by
  unfold appendAud
  split
  · exact h
  · next hl => exact hI.startCode o audNal h ⟨[0x09, 0xf0], rfl⟩ (not_lacks hl)

/-- A failing read has stored less than it was asked for. -/
theorem appendHeaderNal_keeps (R : NginxRtmp) (p : Chain) {o : Out} (h : I o) :
    I (appendHeaderNal R p o).2.2 := by
  simp only [appendHeaderNal]
  split
  · exact h
  · split
    · exact h
    · next h4 =>
      have hp : I (o.push [0, 0, 0, 1]) := hI.startCode o _ h List.prefix_rfl (not_lacks h4)
      have hne : (o.push [0, 0, 0, 1]).data ≠ [] := List.append_ne_nil_of_right_ne_nil _ (List.cons_ne_nil _ _)
      split
      · exact hp
      · next hlen =>
        have hle := not_lacks hlen
        have hdst := ngxCustomCopy_dst_length (ngxCustomCopy 2 p).rest (R.readInt (ngxCustomCopy 2 p).dst)
        split
        · exact hI.store _ _ hp (by omega)
        · exact hI.behind _ _ hp hne (by omega)

theorem headerLoop_keeps (R : NginxRtmp) : ∀ (turns : Nat) (nnals : Int8) (p : Chain) (o : Out),
    I o → I (headerLoop R turns nnals p o).2.2
  | 0, _, _, _, h => h
  | turns + 1, nnals, p, o, h => by
    rw [headerLoop]
    split
    · exact h
    · have hn := appendHeaderNal_keeps hI R p h
      split
      · next heq => rw [heq] at hn; exact hn
      · next heq => rw [heq] at hn; exact headerLoop_keeps R turns _ _ _ hn

theorem appendSpsPps_keeps (R : NginxRtmp) (codec : CodecCtx) {o : Out} (h : I o) :
    I (appendSpsPps R codec o).2 := by
  simp only [appendSpsPps]
  split
  · exact h
  · split
    · exact h
    · have hs := headerLoop_keeps hI R nnalsTurns
        (((ngxCustomCopy 1 (ngxCustomCopy 10 codec.avcHeader).rest).dst.headD 0).toInt8 &&& 0x1f)
        (ngxCustomCopy 1 (ngxCustomCopy 10 codec.avcHeader).rest).rest o h
      split
      · next heq => rw [heq] at hs; exact hs
      · next p o₁ heq =>
        rw [heq] at hs
        have h₁ : I o₁ := hs
        split
        · exact h₁
        · have hp := headerLoop_keeps hI R nnalsTurns ((ngxCustomCopy 1 p).dst.headD 0).toInt8
            (ngxCustomCopy 1 p).rest o₁ h₁
          split
          · next heq => rw [heq] at hp; exact hp
          · next heq => rw [heq] at hp; exact hp

theorem audSwitch_keeps (t : UInt8) {s : Conv} (h : I s.out) :
    I (audSwitch t s).out := by
  unfold audSwitch
  split
  · exact h
  · split
    · exact appendAud_keeps hI h
    · split <;> exact h

theorem spsPpsSwitch_keeps (R : NginxRtmp) (codec : CodecCtx) (t : UInt8) {s : Conv}
    (h : I s.out) :
    I (spsPpsSwitch R codec t s).out := by
  unfold spsPpsSwitch
  split
  · exact h
  · split
    · split
      · exact h
      · exact appendSpsPps_keeps hI R codec h
    · exact h

/-- However the turn ends. -/
theorem turnOut_keeps (R : NginxRtmp) (codec : CodecCtx) {s : Conv} (hw : I s.out) :
    I (turnOut R codec s) := by
  simp only [turnOut, turnWith]
  split
  · exact hw
  · split
    · exact hw
    · split
      · exact hw
      · split
        · split <;> exact hw
        · generalize hs : spsPpsSwitch R codec _ (audSwitch _ s) = t
          have ht : I t.out := by
            rw [← hs]; exact spsPpsSwitch_keeps hI R codec _ (audSwitch_keeps hI _ hw)
          split
          · exact ht
          · next h5 =>
            generalize (ngxCustomCopy 1 _).dst.headD 0 = type
            have hroom := Nat.le_trans (Nat.add_le_add_left (prefixBytes_le t.out type) _) (not_lacks h5)
            have hp : I (t.out.push (prefixBytes t.out type)) := by
              by_cases he : t.out.data = []
              · exact hI.startCode _ _ ht (prefixBytes_start type he) hroom
              · exact hI.behind _ _ ht he hroom
            have hne : (t.out.push (prefixBytes t.out type)).data ≠ [] :=
              List.append_ne_nil_of_right_ne_nil _ (by simp [prefixBytes])
            split
            · exact hp
            · next hl =>
              have hl := not_lacks hl
              have hk := ngxCustomCopy_dst_length
                (ngxCustomCopy 1 (ngxCustomCopy codec.avcNalBytes s.rest).rest).rest
                (R.readInt (ngxCustomCopy codec.avcNalBytes s.rest).dst - 1)
              split
              · exact hI.store _ _ hp (by omega)
              · exact hI.behind _ _ hp hne (by omega)

theorem nalTurn_keeps (R : NginxRtmp) (codec : CodecCtx) {s s' : Conv} (hw : I s.out)
    (h : nalTurn R codec s = .next s') : I s'.out :=
  turnOut_next h ▸ turnOut_keeps hI R codec hw

theorem convLoop_keeps (R : NginxRtmp) (codec : CodecCtx) (o : Out) :
    ∀ (fuel : Nat) (s : Conv), I s.out →
      convLoop R codec fuel s = some (.filled o) → I o := by
  intro fuel
  induction fuel with
  | zero =>
    intro s hw h
    unfold convLoop at h
    split at h
    · cases h; exact hw
    · split at h <;> cases h
  | succ fuel ih =>
    intro s hw h
    unfold convLoop at h
    split at h
    · cases h; exact hw
    · split at h
      · cases h
      · cases ht : nalTurn R codec s with
        | ret rc => simp [ht] at h
        | next s' =>
          simp only [ht] at h
          exact ih s' (nalTurn_keeps hI R codec hw ht) h

end

/-! ## No overrun -/

structure Within (size : Nat) (o : Out) : Prop where
  cap : o.cap = size
  last : o.data.length ≤ o.cap
  hi : o.hi ≤ o.cap

variable {size : Nat}

theorem empty_within : Within size (Out.empty size) := ⟨rfl, Nat.zero_le _, Nat.zero_le _⟩

theorem reach_le {o : Out} (h : Within size o) {bs : Bytes} (hb : o.data.length + bs.length ≤ o.cap) :
    o.reach bs ≤ o.cap := by
  have := h.hi
  unfold Out.reach
  split <;> omega

theorem push_within {o : Out} (h : Within size o) {bs : Bytes} (hb : o.data.length + bs.length ≤ o.cap) :
    Within size (o.push bs) :=
  ⟨h.cap, by rw [push_data, push_cap, List.length_append]; exact hb, reach_le h hb⟩

theorem within_storable : Storable (Within size) where
  startCode _ _ h _ hb := push_within h hb
  behind _ _ h _ hb := push_within h hb
  store _ _ h hb := ⟨h.cap, h.last, reach_le h hb⟩

theorem convLoop_within (R : NginxRtmp) (codec : CodecCtx) (o : Out) (fuel : Nat) (s : Conv)
    (h : Within size s.out) (hloop : convLoop R codec fuel s = some (.filled o)) : Within size o :=
  convLoop_keeps within_storable R codec o fuel s h hloop

/-! ## The first start code -/

def Started (o : Out) : Prop := o.data = [] ∨ [0, 0, 0, 1] <+: o.data

theorem started_storable : Storable Started where
  startCode o bs h hbs _ := by
    rcases h with h | h
    · exact .inr (by rwa [push_data, h, List.nil_append])
    · exact .inr (h.trans (List.prefix_append _ _))
  behind o bs h hne _ := .inr ((h.resolve_left hne).trans (List.prefix_append _ _))
  store _ _ h _ := h

theorem convLoop_started (R : NginxRtmp) (codec : CodecCtx) (o : Out) (fuel : Nat) (s : Conv)
    (h : Started s.out) (hloop : convLoop R codec fuel s = some (.filled o)) : Started o :=
  convLoop_keeps started_storable R codec o fuel s h hloop

/-- Nothing is taken out again. -/
theorem nonempty_storable : Storable fun o => o.data ≠ [] where
  startCode _ _ h _ _ := List.append_ne_nil_of_left_ne_nil h _
  behind _ _ h _ _ := List.append_ne_nil_of_left_ne_nil h _
  store _ _ h _ := h

end Rtmpg.Video
