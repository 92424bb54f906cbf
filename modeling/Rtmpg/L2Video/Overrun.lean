import Rtmpg.Core.LTS
import Rtmpg.L2Video.Message

/-!
# The conversion stays in its buffer, and ends

For every message chain and every `avc_header`, also one that lies about
counts and lengths. `Stores o o'`: from `o` to `o'` by stores that lie inside
the buffer, each of them with or without an advance of `out.last`. `Within`
(`Rtmpg.L2Video.Bounds`) says the same of a buffer alone: `out.last` and the
end of the furthest byte ever stored are at most `out.end`.

The `while` loop is the system `conversion`; its states are the variables at
the head of the loop, for any cursor the message header leaves. A turn that
returns from inside has no next state, but leaves its buffer (`turnOut`).

* `conversion_stores`: every state of every conversion.
* `convLoop_ends`: each turn takes at least the length field off the chain.
* `headerLoop_turns`: the parameter set loops end before `nnalsTurns` does.
* `conversion_in_bounds`: all of it, for `avc_nal_bytes` from 1 to 4.
-/
namespace Rtmpg.Video

open Rtmpg.Chain

/-! ## Stores inside the buffer -/

inductive Stores (o : Out) : Out → Prop
  | refl : Stores o o
  | push {o' : Out} (bs : Bytes) : Stores o o' → o'.data.length + bs.length ≤ o'.cap → Stores o (o'.push bs)
  | store {o' : Out} (bs : Bytes) : Stores o o' → o'.data.length + bs.length ≤ o'.cap → Stores o (o'.store bs)

theorem stores_storable (o : Out) : Storable (Stores o) where
  startCode _ bs h _ hb := .push bs h hb
  behind _ bs h _ hb := .push bs h hb
  store _ bs h hb := .store bs h hb

theorem Stores.trans {o o' o'' : Out} (h : Stores o o') (h' : Stores o' o'') : Stores o o'' := by
  induction h' with
  | refl => exact h
  | push bs _ hb ih => exact .push bs ih hb
  | store bs _ hb ih => exact .store bs ih hb

theorem Stores.within {size : Nat} {o o' : Out} (h : Stores o o') (hw : Within size o) : Within size o' := by
  induction h with
  | refl => exact hw
  | push bs _ hb ih => exact push_within ih hb
  | store bs _ hb ih => exact within_storable.store _ bs ih hb

/-! ## The loop as a system -/

def conversion (R : NginxRtmp) (codec : CodecCtx) : LTS Conv Unit where
  init s := ∃ rest, s = ⟨rest, Out.empty bufSize, false, false⟩
  step s _ :=
    if s.rest = [] then none
    else
      match nalTurn R codec s with
      | .next s => some s
      | .ret _ => none

theorem conversion_turn {R : NginxRtmp} {codec : CodecCtx} {s s' : Conv} {l : Unit}
    (h : (conversion R codec).step s l = some s') : nalTurn R codec s = .next s' := by
  simp only [conversion] at h
  split at h
  · cases h
  · split at h
    · next hn => cases h; exact hn
    · cases h

theorem conversion_stores (R : NginxRtmp) (codec : CodecCtx) {s : Conv} (h : (conversion R codec).Reachable s) :
    Stores (Out.empty bufSize) s.out := by
  refine LTS.Reachable.invariant (M := conversion R codec) (I := fun s => Stores (Out.empty bufSize) s.out)
    (fun s hinit => ?_) (fun s l t hs hstep => ?_) h
  · obtain ⟨rest, rfl⟩ := hinit
    exact .refl
  · exact nalTurn_keeps (stores_storable _) R codec hs (conversion_turn hstep)

/-! ## Progress -/

theorem ngxCustomCopy_takes {c : Chain} {n : Nat} (h : ¬ (ngxCustomCopy n c).rc = .error) :
    (flat (ngxCustomCopy n c).rest).length + n = (flat c).length := by
  have hok : (ngxCustomCopy n c).rc = .ok := by
    cases hrc : (ngxCustomCopy n c).rc with
    | ok => rfl
    | error => exact absurd hrc h
  obtain ⟨hne, hle⟩ := (ngxCustomCopy_rc c n).mp hok
  rw [(ngxCustomCopy_ok c n hne hle).2.2.1, List.length_drop]
  omega

theorem nalTurn_progress {R : NginxRtmp} {codec : CodecCtx} {s s' : Conv} (h : nalTurn R codec s = .next s') :
    (flat s'.rest).length + codec.avcNalBytes ≤ (flat s.rest).length := by
  simp only [nalTurn, turnWith] at h
  split at h
  · cases h
  · next hl =>
    have h1 := ngxCustomCopy_takes hl
    split at h
    · cases h
      exact Nat.le_of_eq h1
    · split at h
      · cases h
      · next ht =>
        have h2 := ngxCustomCopy_takes ht
        split at h
        · split at h
          · cases h
          · next hk =>
            cases h
            have h3 := ngxCustomCopy_takes hk
            dsimp only
            omega
        · split at h
          · cases h
          · split at h
            · cases h
            · split at h
              · cases h
              · next hk =>
                cases h
                have h3 := ngxCustomCopy_takes hk
                dsimp only
                omega

/-- One turn for every byte of the chain is enough. -/
theorem convLoop_ends (R : NginxRtmp) {codec : CodecCtx} (hnb : NalBytesOk codec) :
    ∀ (fuel : Nat) (s : Conv), (flat s.rest).length < fuel → ∃ d, convLoop R codec fuel s = some d := by
  intro fuel
  induction fuel with
  | zero => intro s h; omega
  | succ fuel ih =>
    intro s h
    have hle := hnb.le
    unfold convLoop
    split
    · exact ⟨_, rfl⟩
    · rw [if_neg (by omega)]
      cases ht : nalTurn R codec s with
      | ret rc => exact ⟨_, rfl⟩
      | next s' =>
        have hpos := hnb.pos
        have hp := nalTurn_progress ht
        exact ih s' (by omega)

/-- The count fits a byte, so `nnalsTurns` turns are never used up. -/
theorem headerLoop_turns (R : NginxRtmp) : ∀ (turns turns' : Nat) (nnals : Int8) (p : Chain) (o : Out),
    nnals.toUInt8.toNat < turns → nnals.toUInt8.toNat < turns' →
      headerLoop R turns nnals p o = headerLoop R turns' nnals p o
  | 0, _, _, _, _, h, _ => absurd h (Nat.not_lt_zero _)
  | _ + 1, 0, _, _, _, _, h => absurd h (Nat.not_lt_zero _)
  | turns + 1, turns' + 1, nnals, p, o, h, h' => by
    rw [headerLoop, headerLoop]
    by_cases h0 : nnals = 0
    · rw [if_pos h0, if_pos h0]
    · rw [if_neg h0, if_neg h0]
      have hp := int8_pred nnals h0
      cases appendHeaderNal R p o with
      | mk rc r =>
        cases rc with
        | error => rfl
        | ok => exact headerLoop_turns R turns turns' (nnals - 1) r.1 r.2 (by omega) (by omega)

theorem avccToAnnexb_ends (R : NginxRtmp) {codec : CodecCtx} (hnb : NalBytesOk codec) (h : RtmpHeader)
    {msg : Chain} (hne : msg ≠ []) : ∃ r, avccToAnnexb R (some codec) h msg = some r := by
  simp only [avccToAnnexb, if_neg hne]
  split
  · exact ⟨_, rfl⟩
  · split
    · exact ⟨_, rfl⟩
    · split
      · exact ⟨_, rfl⟩
      · next hfmt =>
        split
        · exact ⟨_, rfl⟩
        · next hhtype =>
          split
          · exact ⟨_, rfl⟩
          · split
            · exact ⟨_, rfl⟩
            · next hcts =>
              -- the message header is five bytes
              have h1 := ngxCustomCopy_takes hfmt
              have h2 := ngxCustomCopy_takes hhtype
              have h3 := ngxCustomCopy_takes hcts
              obtain ⟨d, hd⟩ := convLoop_ends R hnb (flat msg).length
                ⟨(ngxCustomCopy 3 (ngxCustomCopy 1 (ngxCustomCopy 1 msg).rest).rest).rest, Out.empty bufSize,
                  false, false⟩ (by dsimp only; omega)
              rw [hd]
              cases d <;> exact ⟨_, rfl⟩

/-! ## All of it -/

theorem conversion_in_bounds (R : NginxRtmp) (codec : CodecCtx) (hnb : NalBytesOk codec) :
    (∀ h msg, msg ≠ [] → ∃ r, avccToAnnexb R (some codec) h msg = some r) ∧
      (∀ turns nnals p o, nnalsTurns ≤ turns → headerLoop R turns nnals p o = headerLoop R nnalsTurns nnals p o) ∧
      (∀ o, Stores o (appendAud o).2 ∧ Stores o (appendSpsPps R codec o).2) ∧
      ∀ s, (conversion R codec).Reachable s →
        Within bufSize s.out ∧ Within bufSize (turnOut R codec s) ∧ Stores s.out (turnOut R codec s) := by
  refine ⟨fun h msg hne => avccToAnnexb_ends R hnb h hne, fun turns nnals p o hle => ?_, fun o => ?_, fun s hs => ?_⟩
  · have hlt : nnals.toUInt8.toNat < nnalsTurns := nnals.toUInt8.toNat_lt
    exact headerLoop_turns R turns nnalsTurns nnals p o (by omega) hlt
  · exact ⟨appendAud_keeps (stores_storable o) .refl, appendSpsPps_keeps (stores_storable o) R codec .refl⟩
  · have hw := (conversion_stores R codec hs).within empty_within
    have hturn := turnOut_keeps (stores_storable s.out) R codec .refl
    exact ⟨hw, hturn.within hw, hturn⟩

theorem conversion_in_bounds_sample :
    (∀ h msg, msg ≠ [] → ∃ r, avccToAnnexb .released (some sampleCodec) h msg = some r) ∧
      (∀ turns nnals p o, nnalsTurns ≤ turns →
        headerLoop .released turns nnals p o = headerLoop .released nnalsTurns nnals p o) ∧
      (∀ o, Stores o (appendAud o).2 ∧ Stores o (appendSpsPps .released sampleCodec o).2) ∧
      ∀ s, (conversion .released sampleCodec).Reachable s →
        Within bufSize s.out ∧ Within bufSize (turnOut .released sampleCodec s) ∧
          Stores s.out (turnOut .released sampleCodec s) :=
  conversion_in_bounds .released sampleCodec sampleCodec_nalBytes

end Rtmpg.Video
