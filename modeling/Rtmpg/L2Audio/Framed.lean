import Rtmpg.L2Audio.Frames

/-!
# What stands in the audio buffer between two calls

`ngx_agora_helper.c:814-860` moves `b->last` behind the payload before
`ngx_parse_aac_header` is asked. While every header it is asked about is
good, `[b->pos, b->last)` is empty or one complete ADTS frame after every
call. A header that is not leaves five bytes of whatever was there before and
the whole payload in the range, and the next message that is appended hands
them to `decode_acc_audio`.

`Whole m` is what nginx-rtmp guarantees of a message: its chain holds `mlen`
bytes. A buffer the allocator left without memory (`NoMemory`) never takes
anything.

* `sendAudio_sound`: one message.
* `sendAudio_partial`: one message with a rejected header.
* `runAudio_framed`: any number of messages.
-/
namespace Rtmpg.Adts

open Rtmpg.Bytes Rtmpg.Chain Rtmpg.AdtsFormat

/-- One ADTS frame and nothing else. -/
def CompleteFrame (content : Bytes) : Prop :=
  ∃ hdr, AdtsHeader.parse content = some hdr ∧ hdr.syncword = 0xfff ∧ hdr.frameLength = content.length

instance (content : Bytes) : Decidable (CompleteFrame content) :=
  decidable_of_iff ((AdtsHeader.parse content).any
    fun hdr => decide (hdr.syncword = 0xfff ∧ hdr.frameLength = content.length)) (by
      simp [CompleteFrame, Option.any_eq_true])

def Framed (content : Bytes) : Prop := content = [] ∨ CompleteFrame content

instance (content : Bytes) : Decidable (Framed content) := inferInstanceAs (Decidable (_ ∨ _))

def Whole (m : AudioMessage) : Prop := (flat m.chain).length = m.h.mlen

def NoMemory (a : AudioCtx) : Prop := a.b = some ⟨[], 0, 0⟩

theorem isAdtsFrame_complete {m : AudioMessage} {frame : Bytes} (h : IsAdtsFrame m frame) :
    CompleteFrame frame := by
  obtain ⟨-, asc, -, -, -, -, -, hlen, hparse⟩ := h
  exact ⟨frameHeader asc m.h.mlen, hparse, rfl, hlen.symm⟩

/-! ## One message -/

/-- Between two calls. -/
def Sound (a : AudioCtx) : Prop := (∃ content, Holds a content ∧ Framed content) ∨ NoMemory a

theorem sound_fresh : Sound ⟨none⟩ := .inl ⟨[], holds_fresh, .inl rfl⟩

theorem sound_framed {a : AudioCtx} (h : Sound a) : Framed a.content := by
  rcases h with ⟨content, hh, hf⟩ | hn
  · rw [holds_content hh]
    exact hf
  · refine .inl ?_
    rw [NoMemory] at hn
    simp only [AudioCtx.content, hn]
    rfl

/-- Without memory the size test rejects everything. -/
theorem sendAudio_noMemory {R : NginxRtmp} {a : AudioCtx} {m : AudioMessage}
    (hb : ∀ b, a.b.or (allocateBuffer m.alloc) = some b → b = ⟨[], 0, 0⟩) {ctx : Option AudioCtx}
    {calls : List DecodeCall}
    (h : ngxAgoraSendAudio R m.alloc m.codec m.h m.chain (some a) = some (ctx, calls)) :
    calls = [] ∧ ∃ a', ctx = some a' ∧ (a' = a ∨ NoMemory a') := by
  cases hc : m.codec with
  | none =>
    rw [hc, ngxAgoraSendAudio] at h
    cases h
    exact ⟨rfl, a, rfl, .inl rfl⟩
  | some c =>
    rw [hc, ngxAgoraSendAudio] at h
    by_cases hlong : m.h.mlen < 2
    · rw [if_pos hlong] at h
      cases h
      exact ⟨rfl, a, rfl, .inl rfl⟩
    rw [if_neg hlong] at h
    by_cases hkind : c.audioCodecId ≠ R.audioAac ∨ c.aacHeader = [] ∨ R.isCodecHeader m.chain = true
    · rw [if_pos hkind] at h
      cases h
      exact ⟨rfl, a, rfl, .inl rfl⟩
    rw [if_neg hkind] at h
    cases hor : a.b.or (allocateBuffer m.alloc) with
    | none =>
      rw [hor] at h
      cases h
    | some b =>
      have he := hb b hor
      rw [hor, he] at h
      simp only [List.length_nil] at h
      rw [if_pos (by omega)] at h
      cases h
      exact ⟨rfl, _, rfl, .inr rfl⟩

/-- A rejected header: the payload stays, behind five bytes of older content. -/
theorem appendFrame_partial {codec : CodecCtx} (size : Nat) (hp : ngxParseAacHeader codec = none)
    {msg : Chain} {mem : Bytes} (hfit : (flat msg).length + 5 ≤ mem.length) :
    ∃ mem', appendFrame codec size msg ⟨mem, 0, 0⟩ = ⟨mem', 0, (flat msg).length + 5⟩ ∧
      mem'.length = mem.length ∧ mem'.take ((flat msg).length + 5) = mem.take 5 ++ flat msg := by
  have hcopy := copyPayload_eq msg ⟨mem, 0, 5⟩ (show 5 ≤ mem.length by omega)
  have htake : (flat msg).take (mem.length - 5) = flat msg := List.take_of_length_le (by omega)
  simp only [htake, NgxBuf.append, Nat.add_comm 5] at hcopy
  refine ⟨Mem.store mem 5 (flat msg), ?_, Mem.store_length (by omega), ?_⟩
  · simp only [appendFrame, Nat.zero_add, hcopy, hp]
  · rw [Mem.store, ← List.append_assoc]
    refine List.take_left' ?_
    rw [List.length_append, List.length_take_of_le (by omega)]
    omega

theorem sendAudio_partial {R : NginxRtmp} {a : AudioCtx} {content : Bytes} {m : AudioMessage} {c : CodecCtx}
    (h : Holds a content) (hw : Whole m) (hm : Appends R m c) (hp : ngxParseAacHeader c = none)
    (halloc : a.b = none → ∃ stale size, m.alloc = .ok stale size) :
    ∃ a' five, ngxAgoraSendAudio R m.alloc m.codec m.h m.chain (some a) =
        some (some a', if content = [] then [] else [⟨content, m.h.timestamp⟩]) ∧
      Holds a' (five ++ flat m.chain) ∧ five.length = 5 := by
  obtain ⟨mem, hsize, hsend⟩ := sendAudio_appends h hm halloc
  have hfits := hm.fits
  have hbytes : (flat m.chain).length = m.h.mlen := hw
  obtain ⟨mem', happ, hmem', htake⟩ := appendFrame_partial (m.h.mlen + 5) hp
    (show (flat m.chain).length + 5 ≤ mem.length by omega)
  refine ⟨⟨some ⟨mem', 0, (flat m.chain).length + 5⟩⟩, mem.take 5, by rw [hsend, happ], ?_, ?_⟩
  · exact ⟨hmem'.trans hsize, rfl, by show (flat m.chain).length + 5 ≤ mem'.length; omega, htake⟩
  · exact List.length_take_of_le (by omega)

/-- Whether the allocator, if it is asked, gives the buffer its memory. -/
theorem alloc_cases (a : AudioCtx) (m : AudioMessage) :
    (a.b = none → ∃ stale size, m.alloc = .ok stale size) ∨
      (a.b = none ∧ ∀ b, a.b.or (allocateBuffer m.alloc) = some b → b = ⟨[], 0, 0⟩) := by
  cases hb : a.b with
  | some b => exact .inl fun h => by cases h
  | none =>
    cases ha : m.alloc with
    | ok stale size => exact .inl fun _ => ⟨stale, size, rfl⟩
    | noBuf => exact .inr ⟨rfl, fun b h => by cases h⟩
    | noStart => exact .inr ⟨rfl, fun b h => by cases h; rfl⟩

theorem sendAudio_sound {R : NginxRtmp} {a : AudioCtx} {m : AudioMessage} {ctx : Option AudioCtx}
    {calls : List DecodeCall} (h : Sound a) (hw : Whole m)
    (hok : ∀ c, Appends R m c → (ngxParseAacHeader c).isSome)
    (hsend : ngxAgoraSendAudio R m.alloc m.codec m.h m.chain (some a) = some (ctx, calls)) :
    ∃ a', ctx = some a' ∧ Sound a' ∧ ∀ call ∈ calls, CompleteFrame call.data := by
  rcases h with ⟨content, hh, hf⟩ | hn
  · rcases alloc_cases a m with halloc | ⟨hnone, hb⟩
    · by_cases happ : ∃ c, Appends R m c
      · obtain ⟨c, hc⟩ := happ
        obtain ⟨a₁, frame, hs, h₁, -, hframe⟩ := sendAudio_frame hh hw hc (hok c hc) halloc
        rw [hs] at hsend
        cases hsend
        refine ⟨a₁, rfl, .inl ⟨frame, h₁, .inr (isAdtsFrame_complete hframe)⟩, ?_⟩
        rcases hf with hnil | hcomplete
        · rw [if_pos hnil]
          exact fun _ hc => absurd hc List.not_mem_nil
        · split
          · exact fun _ hc => absurd hc List.not_mem_nil
          · intro call hcall
            rw [List.mem_singleton.mp hcall]
            exact hcomplete
      · obtain ⟨a₁, hs, h₁⟩ := sendAudio_skips hh (fun c hc => happ ⟨c, hc⟩) halloc
        rw [hs] at hsend
        cases hsend
        exact ⟨a₁, rfl, .inl ⟨content, h₁, hf⟩, fun _ hc => absurd hc List.not_mem_nil⟩
    · obtain ⟨rfl, a₁, rfl, hcase⟩ := sendAudio_noMemory hb hsend
      refine ⟨a₁, rfl, ?_, fun _ hc => absurd hc List.not_mem_nil⟩
      rcases hcase with rfl | hn
      · exact .inl ⟨content, hh, hf⟩
      · exact .inr hn
  · obtain ⟨rfl, a₁, rfl, hcase⟩ := sendAudio_noMemory (fun b hb => by rw [hn] at hb; cases hb; rfl) hsend
    refine ⟨a₁, rfl, ?_, fun _ hc => absurd hc List.not_mem_nil⟩
    rcases hcase with rfl | hn'
    · exact .inr hn
    · exact .inr hn'

/-! ## Any message at all -/

/-- A buffer with memory, or one without. -/
def Buffered (a : AudioCtx) : Prop := (∃ content, Holds a content) ∨ NoMemory a

theorem buffered_fresh : Buffered ⟨none⟩ := .inl ⟨[], holds_fresh⟩

/-- The chain need not hold as many bytes as the message header says. -/
theorem appendFrame_holds (codec : CodecCtx) (size : Nat) (msg : Chain) {mem : Bytes}
    (hsize : mem.length = maxAudioBufferSize) :
    ∃ content, Holds ⟨some (appendFrame codec size msg ⟨mem, 0, 0⟩)⟩ content := by
  have hfive : 5 ≤ mem.length := by
    rw [hsize]
    decide
  have hcopy := copyPayload_eq msg ⟨mem, 0, 5⟩ hfive
  generalize hp : (flat msg).take (mem.length - 5) = payload at hcopy
  have hlen : 5 + payload.length ≤ mem.length := by
    rw [← hp, List.length_take]
    omega
  have hmem : (Mem.store mem 5 payload).length = mem.length := Mem.store_length hlen
  simp only [NgxBuf.append] at hcopy
  refine ⟨_, ?_, ?_, ?_, rfl⟩
  · simp only [appendFrame, Nat.zero_add, hcopy]
    split
    · exact hmem.trans hsize
    · rw [Mem.store_length, hmem, hsize]
      rw [hmem, hsize]
      exact show 0 + 7 ≤ maxAudioBufferSize by decide
  · simp only [appendFrame, Nat.zero_add, hcopy]
    split <;> rfl
  · simp only [appendFrame, Nat.zero_add, hcopy]
    split
    · exact hmem.symm ▸ hlen
    · rw [Mem.store_length, hmem]
      · exact hlen
      · rw [hmem, hsize]
        exact show 0 + 7 ≤ maxAudioBufferSize by decide

/-- A message that is appended to a pending frame. -/
def Flushes (R : NginxRtmp) (a : AudioCtx) (m : AudioMessage) : Prop := a.content ≠ [] ∧ ∃ c, Appends R m c

theorem sendAudio_calls {R : NginxRtmp} {a : AudioCtx} {m : AudioMessage} {ctx : Option AudioCtx}
    {calls : List DecodeCall} (h : Buffered a)
    (hsend : ngxAgoraSendAudio R m.alloc m.codec m.h m.chain (some a) = some (ctx, calls)) :
    ∃ a', ctx = some a' ∧ Buffered a' ∧ (Flushes R a m → calls = [⟨a.content, m.h.timestamp⟩]) ∧
      (¬ Flushes R a m → calls = []) := by
  rcases h with ⟨content, hh⟩ | hn
  · have hcont := holds_content hh
    rcases alloc_cases a m with halloc | ⟨hnone, hb⟩
    · by_cases happ : ∃ c, Appends R m c
      · obtain ⟨c, hc⟩ := happ
        obtain ⟨mem, hsize, hs⟩ := sendAudio_appends hh hc halloc
        rw [hs] at hsend
        cases hsend
        refine ⟨_, rfl, .inl (appendFrame_holds c _ _ hsize), fun hf => ?_, fun hf => ?_⟩
        · rw [if_neg (hcont ▸ hf.1), hcont]
        · exact if_pos (hcont ▸ not_not.mp fun hne => hf ⟨hne, c, hc⟩)
      · obtain ⟨a₁, hs, h₁⟩ := sendAudio_skips hh (fun c hc => happ ⟨c, hc⟩) halloc
        rw [hs] at hsend
        cases hsend
        exact ⟨a₁, rfl, .inl ⟨content, h₁⟩, fun hf => absurd hf.2 happ, fun _ => rfl⟩
    · obtain ⟨rfl, a₁, rfl, hcase⟩ := sendAudio_noMemory hb hsend
      have hempty : a.content = [] := by
        unfold AudioCtx.content
        rw [hnone]
      refine ⟨a₁, rfl, ?_, fun hf => absurd hempty hf.1, fun _ => rfl⟩
      rcases hcase with rfl | hn
      · exact .inl ⟨content, hh⟩
      · exact .inr hn
  · obtain ⟨rfl, a₁, rfl, hcase⟩ := sendAudio_noMemory (fun b hb => by rw [hn] at hb; cases hb; rfl) hsend
    have hempty : a.content = [] := by
      unfold AudioCtx.content
      rw [show a.b = some ⟨[], 0, 0⟩ from hn]
      rfl
    refine ⟨a₁, rfl, ?_, fun hf => absurd hempty hf.1, fun _ => rfl⟩
    rcases hcase with rfl | hn'
    · exact .inr hn
    · exact .inr hn'

/-! ## Any number of messages -/

theorem runAudio_sound {R : NginxRtmp} : ∀ (ms : List AudioMessage) {a a' : AudioCtx} {calls : List DecodeCall},
    Sound a → (∀ m ∈ ms, Whole m) → (∀ m ∈ ms, ∀ c, Appends R m c → (ngxParseAacHeader c).isSome) →
    runAudio R (some a) ms = some (some a', calls) →
    Sound a' ∧ ∀ call ∈ calls, CompleteFrame call.data := by
  intro ms
  induction ms with
  | nil =>
    intro a a' calls h _ _ hrun
    cases hrun
    exact ⟨h, fun _ hc => absurd hc List.not_mem_nil⟩
  | cons m ms ih =>
    intro a a' calls h hms hok hrun
    obtain ⟨⟨ctx, first⟩, hsend, hrest⟩ := Option.bind_eq_some_iff.mp hrun
    obtain ⟨⟨ctx', more⟩, hmore, he⟩ := Option.map_eq_some_iff.mp hrest
    cases he
    obtain ⟨a₁, rfl, h₁, hfirst⟩ := sendAudio_sound h (hms m (by simp)) (hok m (by simp)) hsend
    obtain ⟨h₂, hlater⟩ := ih h₁ (fun m hm => hms m (by simp [hm])) (fun m hm => hok m (by simp [hm])) hmore
    refine ⟨h₂, fun call hcall => ?_⟩
    rcases List.mem_append.mp hcall with hcall | hcall
    · exact hfirst call hcall
    · exact hlater call hcall

/-- From now on the decoder is given `content` by the next message that is appended. -/
def HandsOver (R : NginxRtmp) (a : AudioCtx) (content : Bytes) : Prop :=
  ∀ m c, Appends R m c → ∃ ctx, ngxAgoraSendAudio R m.alloc m.codec m.h m.chain (some a) =
    some (ctx, [⟨content, m.h.timestamp⟩])

theorem holds_handsOver {R : NginxRtmp} {a : AudioCtx} {content : Bytes} (h : Holds a content)
    (hne : content ≠ []) : HandsOver R a content := by
  intro m c hm
  have hb : a.b ≠ none := by
    intro e
    rw [Holds, e] at h
    exact hne h
  obtain ⟨mem, -, hsend⟩ := sendAudio_appends h hm fun e => absurd e hb
  rw [if_neg hne] at hsend
  exact ⟨_, hsend⟩

/-- If the header of every message that is appended can be parsed, the decoder gets complete
ADTS frames only; a message whose header cannot be, with memory for it, hands over five bytes
of junk in front of it. -/
theorem runAudio_framed (R : NginxRtmp) (ms : List AudioMessage) (hms : ∀ m ∈ ms, Whole m)
    (hok : ∀ m ∈ ms, ∀ c, Appends R m c → (ngxParseAacHeader c).isSome) (a : AudioCtx) (calls : List DecodeCall)
    (hrun : runAudio R (some ⟨none⟩) ms = some (some a, calls)) :
    Framed a.content ∧ (∀ call ∈ calls, CompleteFrame call.data) ∧
      ∀ m c, Whole m → Appends R m c → ngxParseAacHeader c = none → ¬ NoMemory a →
        (∃ stale size, m.alloc = .ok stale size) →
        ∃ a' five more, ngxAgoraSendAudio R m.alloc m.codec m.h m.chain (some a) = some (some a', more) ∧
          five.length = 5 ∧ a'.content = five ++ flat m.chain ∧ HandsOver R a' (five ++ flat m.chain) := by
  obtain ⟨h, hcalls⟩ := runAudio_sound ms sound_fresh hms hok hrun
  refine ⟨sound_framed h, hcalls, fun m c hw hm hp hmem halloc => ?_⟩
  obtain ⟨content, hh, -⟩ := h.resolve_right hmem
  obtain ⟨a', five, hsend, h', hfive⟩ := sendAudio_partial hh hw hm hp fun _ => halloc
  have hne : five ++ flat m.chain ≠ [] := by
    intro e
    rw [(List.append_eq_nil_iff.mp e).1] at hfive
    cases hfive
  exact ⟨a', five, _, hsend, hfive, holds_content h', holds_handsOver h' hne⟩

theorem runAudio_framed_mono :
    ∃ a calls, runAudio .released (some ⟨none⟩) monoStream = some (some a, calls) ∧
      Framed a.content ∧ (∀ call ∈ calls, CompleteFrame call.data) ∧
      ∀ m c, Whole m → Appends .released m c → ngxParseAacHeader c = none → ¬ NoMemory a →
        (∃ stale size, m.alloc = .ok stale size) →
        ∃ a' five more, ngxAgoraSendAudio .released m.alloc m.codec m.h m.chain (some a) = some (some a', more) ∧
          five.length = 5 ∧ a'.content = five ++ flat m.chain ∧ HandsOver .released a' (five ++ flat m.chain) := by
  obtain ⟨a, calls, -, hrun, -⟩ :=
    runAudio_pending .released monoStream ⟨none⟩ [] holds_fresh monoStream_delivered
  refine ⟨a, calls, hrun, runAudio_framed .released monoStream
    (fun m hm => (monoStream_delivered m hm).length) ?_ a calls hrun⟩
  intro m hm c hc
  obtain ⟨c', hc', -, hsome⟩ := (monoStream_delivered m hm).codec
  rw [hc.codec, Option.some.injEq] at hc'
  rw [hc']
  exact hsome

/-- An AudioSpecificConfig of object type 0. -/
def nullObjectCodec : CodecCtx := { monoCodec with aacHeader := [[0xaf], [0, 0x01, 0x88]] }

/-- A message under that header and one under a good header. -/
def switchedStream : List AudioMessage :=
  [{ monoMessage [0xaf, 1, 0x21, 0x10] frame_lt with codec := some nullObjectCodec },
    monoMessage [0xaf, 1, 0x22] shortFrame_lt]

/-- What the decoder gets of the first one: stale memory and the bytes of the message. -/
def headerless : Bytes := [0xee, 0xee, 0xee, 0xee, 0xee, 0xaf, 1, 0x21, 0x10]

theorem runAudio_headerless :
    (∀ m ∈ switchedStream, Whole m) ∧ ¬ Framed headerless ∧ ¬ CompleteFrame headerless ∧
      (∃ a, runAudio .released (some ⟨none⟩) (switchedStream.take 1) = some (some a, []) ∧
        a.content = headerless) ∧
      ∃ a, runAudio .released (some ⟨none⟩) switchedStream = some (some a, [⟨headerless, 0⟩]) := by
  have h₁ : (runAudio .released (some ⟨none⟩) (switchedStream.take 1)).map
      (fun r => (r.1.map AudioCtx.content, r.2)) = some (some headerless, []) := by decide +kernel
  have h₂ : (runAudio .released (some ⟨none⟩) switchedStream).map (fun r => (r.1.isSome, r.2)) =
      some (true, [⟨headerless, 0⟩]) := by decide +kernel
  obtain ⟨⟨ctx, calls⟩, hr₁, he₁⟩ := Option.map_eq_some_iff.mp h₁
  obtain ⟨⟨ctx', calls'⟩, hr₂, he₂⟩ := Option.map_eq_some_iff.mp h₂
  obtain ⟨hctx₁, rfl⟩ := Prod.mk.inj he₁
  obtain ⟨hctx₂, rfl⟩ := Prod.mk.inj he₂
  obtain ⟨a, rfl, ha⟩ := Option.map_eq_some_iff.mp hctx₁
  obtain ⟨b, rfl⟩ := Option.isSome_iff_exists.mp hctx₂
  refine ⟨?_, by decide, by decide, ⟨a, hr₁, ha⟩, b, hr₂⟩
  intro m hm
  simp only [switchedStream, List.mem_cons, List.not_mem_nil, or_false] at hm
  rcases hm with rfl | rfl <;> rfl

end Rtmpg.Adts
