import Rtmpg.L2Audio.Frames
import Rtmpg.L2Video.Chunking

/-!
# How a message is cut into buffers never matters

Two runs on chains with the same bytes, from the same audio buffer and with
codec contexts that differ in the cutting of their headers only, cannot be
told apart: `avcc_to_annexb` returns the same and delivers the same, and
`ngx_agora_send_audio` makes the same calls of the decoder and leaves the
same buffer. Well-formed or not, on every path.
-/
namespace Rtmpg

open Chain Video Adts

/-- The frame appended to the buffer depends on the flat bytes only. -/
theorem appendFrame_congr {c d : CodecCtx} (hc : SameCodec c d) (size : Nat) {msg msg' : Chain}
    (hm : flat msg = flat msg') (b : NgxBuf) (hroom : b.last + 5 ≤ b.mem.length) :
    appendFrame c size msg b = appendFrame d size msg' b := by
  have hcopy : copyPayload msg { b with last := b.last + 5 } =
      copyPayload msg' { b with last := b.last + 5 } := by
    rw [copyPayload_eq msg _ hroom, copyPayload_eq msg' _ hroom, hm]
  simp only [appendFrame, hcopy, ngxParseAacHeader_congr hc.aac]

theorem ngxAgoraSendAudio_congr (R : NginxRtmp) (alloc : Alloc) {c d : Option CodecCtx} (hc : SameCodec? c d)
    (h : RtmpHeader) {msg msg' : Chain} (hm : flat msg = flat msg')
    (hhdr : R.isCodecHeader msg = R.isCodecHeader msg') (ctx : Option AudioCtx) :
    ngxAgoraSendAudio R alloc c h msg ctx = ngxAgoraSendAudio R alloc d h msg' ctx := by
  match ctx, c, d, hc with
  | none, _, _, _ => rfl
  | some a, none, none, _ => rfl
  | some a, some c, some d, hc =>
    have hc : SameCodec c d := hc
    have key : ∀ (b : NgxBuf) (calls : List DecodeCall),
        (if b.mem.length < b.last + 7 then some (some (⟨some b⟩ : AudioCtx), calls)
          else some (some ⟨some (appendFrame c (h.mlen - 2 + 7) msg b)⟩, calls)) =
        (if b.mem.length < b.last + 7 then some (some (⟨some b⟩ : AudioCtx), calls)
          else some (some ⟨some (appendFrame d (h.mlen - 2 + 7) msg' b)⟩, calls)) := by
      intro b calls
      split
      · rfl
      · rw [appendFrame_congr hc _ hm b (by omega)]
    simp only [ngxAgoraSendAudio, hc.audio, hc.aac.1, hhdr]
    split
    · rfl
    · split
      · rfl
      · split
        · rfl
        · split
          · rfl
          · exact key _ _

/-- How a message and the stored headers are cut into buffers makes no difference, on the error
paths either. -/
theorem chunking_irrelevant (R : NginxRtmp) (alloc : Alloc) (c d : Option CodecCtx) (hc : SameCodec? c d)
    (h : RtmpHeader) (msg msg' : Chain) (hne : msg ≠ []) (hne' : msg' ≠ []) (hm : flat msg = flat msg')
    (hhdr : R.isCodecHeader msg = R.isCodecHeader msg') (ctx : Option AudioCtx) :
    avccToAnnexb R c h msg = avccToAnnexb R d h msg' ∧
      ngxAgoraSendAudio R alloc c h msg ctx = ngxAgoraSendAudio R alloc d h msg' ctx :=
  ⟨avccToAnnexb_congr R hc h (sameBytes_of_ne hne hne' hm),
    ngxAgoraSendAudio_congr R alloc hc h hm hhdr ctx⟩

/-- `monoCodec` with its header cut elsewhere. -/
def monoCodec' : CodecCtx := { monoCodec with aacHeader := [[], [0xaf, 0, 0x11], [0x88]] }

/-- The same codec header and the same frame, whole and in pieces. -/
theorem chunking_irrelevant_pieces :
    avccToAnnexb .released (some monoCodec) ⟨4, 0, by decide⟩ [[0xaf, 1, 0x21, 0x10]] =
        avccToAnnexb .released (some monoCodec') ⟨4, 0, by decide⟩ [[0xaf, 1], [], [0x21, 0x10], []] ∧
      ngxAgoraSendAudio .released freshMemory (some monoCodec) ⟨4, 0, by decide⟩ [[0xaf, 1, 0x21, 0x10]]
          (some ⟨none⟩) =
        ngxAgoraSendAudio .released freshMemory (some monoCodec') ⟨4, 0, by decide⟩
          [[0xaf, 1], [], [0x21, 0x10], []] (some ⟨none⟩) :=
  chunking_irrelevant .released freshMemory (some monoCodec) (some monoCodec')
    ⟨rfl, rfl, rfl, sameBytes_refl _, sameBytes_of_ne (by decide) (by decide) rfl⟩ ⟨4, 0, by decide⟩
    [[0xaf, 1, 0x21, 0x10]] [[0xaf, 1], [], [0x21, 0x10], []] (by decide) (by decide) rfl rfl (some ⟨none⟩)

end Rtmpg
