import Rtmpg.L2Video.Convert

/-!
# The video conversion sees flat bytes only

Two chains with the same bytes (`SameBytes`) and two codec contexts whose
headers have the same bytes (`SameCodec`) give the same conversion: one
lemma for each function that carries a cursor, from the parameter set reader
up to `ngx_agora_send_video`. Each is the lemma of `ngx_custom_copy` pushed
through the branches, so nothing here depends on what the bytes mean.
-/
namespace Rtmpg.Video

open Rtmpg.Bytes Rtmpg.Chain

/-- Codec contexts that differ in the cutting of their headers only. -/
structure SameCodec (c d : CodecCtx) : Prop where
  video : c.videoCodecId = d.videoCodecId
  audio : c.audioCodecId = d.audioCodecId
  nalBytes : c.avcNalBytes = d.avcNalBytes
  avc : SameBytes c.avcHeader d.avcHeader
  aac : SameBytes c.aacHeader d.aacHeader

/-- The same result, cursors with the same bytes, the same buffer. -/
def SameRead (x y : Rc × Chain × Out) : Prop := x.1 = y.1 ∧ SameBytes x.2.1 y.2.1 ∧ x.2.2 = y.2.2

theorem appendHeaderNal_congr (R : NginxRtmp) {p q : Chain} (h : SameBytes p q) (o : Out) :
    SameRead (appendHeaderNal R p o) (appendHeaderNal R q o) := by
  obtain ⟨r1, r2, r3⟩ := ngxCustomCopy_congr h 2
  simp only [appendHeaderNal, r1, r2]
  split
  · exact ⟨rfl, r3, rfl⟩
  · split
    · exact ⟨rfl, r3, rfl⟩
    · split
      · exact ⟨rfl, r3, rfl⟩
      · obtain ⟨k1, k2, k3⟩ := ngxCustomCopy_congr r3 (R.readInt (ngxCustomCopy 2 q).dst)
        rw [k1, k2]
        split
        · exact ⟨rfl, k3, rfl⟩
        · exact ⟨rfl, k3, rfl⟩

theorem headerLoop_congr (R : NginxRtmp) : ∀ (turns : Nat) (nnals : Int8) (p q : Chain) (o : Out),
    SameBytes p q → SameRead (headerLoop R turns nnals p o) (headerLoop R turns nnals q o)
  | 0, _, _, _, _, h => ⟨rfl, h, rfl⟩
  | turns + 1, nnals, p, q, o, h => by
    simp only [headerLoop]
    split
    · exact ⟨rfl, h, rfl⟩
    · have hn := appendHeaderNal_congr R h o
      revert hn
      rcases appendHeaderNal R p o with ⟨rc, p', o'⟩
      rcases appendHeaderNal R q o with ⟨rc', q', o''⟩
      rintro ⟨h1, h2, h3⟩
      simp only at h1 h2 h3
      subst h1; subst h3
      cases rc with
      | error => exact ⟨rfl, h2, rfl⟩
      | ok => exact headerLoop_congr R turns _ p' q' o' h2

theorem appendSpsPps_congr (R : NginxRtmp) {c d : CodecCtx} (h : SameCodec c d) (o : Out) :
    appendSpsPps R c o = appendSpsPps R d o := by
  obtain ⟨s1, -, s3⟩ := ngxCustomCopy_congr h.avc 10
  obtain ⟨c1, c2, c3⟩ := ngxCustomCopy_congr s3 1
  simp only [appendSpsPps, s1, c1, c2]
  split
  · rfl
  · split
    · rfl
    · have hs := headerLoop_congr R nnalsTurns
        (((ngxCustomCopy 1 (ngxCustomCopy 10 d.avcHeader).rest).dst.headD 0).toInt8 &&& 0x1f) _ _ o c3
      revert hs
      generalize headerLoop R nnalsTurns _ _ o = x
      generalize headerLoop R nnalsTurns _ _ o = y
      obtain ⟨rc, p, o₁⟩ := x
      obtain ⟨rc', q, o₂⟩ := y
      rintro ⟨h1, h2, h3⟩
      simp only at h1 h2 h3
      subst h1; subst h3
      cases rc with
      | error => rfl
      | ok =>
        obtain ⟨d1, d2, d3⟩ := ngxCustomCopy_congr h2 1
        simp only [d1, d2]
        split
        · rfl
        · have hp := headerLoop_congr R nnalsTurns ((ngxCustomCopy 1 q).dst.headD 0).toInt8 _ _ o₁ d3
          revert hp
          generalize headerLoop R nnalsTurns _ _ o₁ = x
          generalize headerLoop R nnalsTurns _ _ o₁ = y
          obtain ⟨rc, p', o₃⟩ := x
          obtain ⟨rc', q', o₄⟩ := y
          rintro ⟨h1, -, h3⟩
          simp only at h1 h3
          subst h1; subst h3
          cases rc with
          | error => rfl
          | ok => rfl

/-! ## The conversion loop -/

structure SameConv (s t : Conv) : Prop where
  rest : SameBytes s.rest t.rest
  out : s.out = t.out
  aud : s.audSent = t.audSent
  params : s.spsPpsSent = t.spsPpsSent

def SameTurn : Turn → Turn → Prop
  | .next s, .next t => SameConv s t
  | .ret a, .ret b => a = b
  | _, _ => False

theorem audSwitch_congr (t : UInt8) {s s' : Conv} (h : SameConv s s') :
    SameConv (audSwitch t s) (audSwitch t s') := by
  obtain ⟨h1, h2, h3, h4⟩ := h
  simp only [audSwitch, h2, h3]
  split
  · exact ⟨h1, h2, h3, h4⟩
  · split
    · exact { rest := h1, out := rfl, aud := rfl, params := h4 }
    · split
      · exact { rest := h1, out := rfl, aud := rfl, params := h4 }
      · exact ⟨h1, h2, h3, h4⟩

theorem spsPpsSwitch_congr (R : NginxRtmp) {c d : CodecCtx} (hc : SameCodec c d) (t : UInt8)
    {s s' : Conv} (h : SameConv s s') :
    SameConv (spsPpsSwitch R c t s) (spsPpsSwitch R d t s') := by
  obtain ⟨h1, h2, h3, h4⟩ := h
  simp only [spsPpsSwitch, h2, h4, appendSpsPps_congr R hc]
  split
  · exact { rest := h1, out := rfl, aud := h3, params := rfl }
  · split
    · split
      · exact ⟨h1, h2, h3, h4⟩
      · exact { rest := h1, out := rfl, aud := h3, params := rfl }
    · exact ⟨h1, h2, h3, h4⟩

theorem nalTurn_congr (R : NginxRtmp) {c d : CodecCtx} (hc : SameCodec c d) {s s' : Conv}
    (h : SameConv s s') : SameTurn (nalTurn R c s) (nalTurn R d s') := by
  obtain ⟨l1, l2, l3⟩ := ngxCustomCopy_congr h.rest d.avcNalBytes
  simp only [nalTurn, turnWith, hc.nalBytes, l1, l2]
  split
  · rfl
  · split
    · exact ⟨l3, h.out, h.aud, h.params⟩
    · obtain ⟨t1, t2, t3⟩ := ngxCustomCopy_congr l3 1
      simp only [t1, t2]
      split
      · rfl
      · obtain ⟨k1, k2, k3⟩ :=
          ngxCustomCopy_congr t3 (R.readInt (ngxCustomCopy d.avcNalBytes s'.rest).dst - 1)
        split
        · rw [k1]
          split
          · rfl
          · exact ⟨k3, h.out, h.aud, h.params⟩
        · generalize (ngxCustomCopy 1 (ngxCustomCopy d.avcNalBytes s'.rest).rest).dst.headD 0 &&& 0x1f = ty
          have hs := spsPpsSwitch_congr R hc ty (audSwitch_congr ty h)
          rw [hs.out, k1, k2]
          split
          · rfl
          · split
            · rfl
            · split
              · rfl
              · exact ⟨k3, rfl, hs.aud, hs.params⟩

theorem convLoop_congr (R : NginxRtmp) {c d : CodecCtx} (hc : SameCodec c d) :
    ∀ (fuel : Nat) (s s' : Conv), SameConv s s' → convLoop R c fuel s = convLoop R d fuel s' := by
  intro fuel
  induction fuel with
  | zero => intro s s' h; simp only [convLoop, h.rest.1, h.out, hc.nalBytes]
  | succ fuel ih =>
    intro s s' h
    simp only [convLoop, h.rest.1, h.out, hc.nalBytes]
    have ht := nalTurn_congr R hc h
    revert ht
    cases nalTurn R c s with
    | ret a =>
      cases nalTurn R d s' with
      | ret b => intro ht; rw [show a = b from ht]
      | next t' => exact False.elim
    | next t =>
      cases nalTurn R d s' with
      | ret b => exact False.elim
      | next t' => intro ht; simp only [ih t t' ht]

/-! ## A whole message -/

/-- Codec contexts of two runs: both missing, or the same up to cutting. -/
def SameCodec? : Option CodecCtx → Option CodecCtx → Prop
  | none, none => True
  | some c, some d => SameCodec c d
  | _, _ => False

theorem avccToAnnexb_congr (R : NginxRtmp) {c d : Option CodecCtx} (hc : SameCodec? c d)
    (h : RtmpHeader) {msg msg' : Chain} (hm : SameBytes msg msg') :
    avccToAnnexb R c h msg = avccToAnnexb R d h msg' := by
  match c, d, hc with
  | none, none, _ => rfl
  | some c, some d, hc =>
    have hc : SameCodec c d := hc
    obtain ⟨f1, -, f3⟩ := ngxCustomCopy_congr hm 1
    obtain ⟨t1, t2, t3⟩ := ngxCustomCopy_congr f3 1
    obtain ⟨s1, -, s3⟩ := ngxCustomCopy_congr t3 3
    have hl := fun o => convLoop_congr R hc (flat msg').length _ _
      (⟨s3, rfl, rfl, rfl⟩ : SameConv ⟨_, o, false, false⟩ ⟨_, o, false, false⟩)
    simp only [avccToAnnexb, hc.avc.1, hc.video, hm.1, f1, t1, t2, s1, hm.2, hl]

end Rtmpg.Video
