import Rtmpg.L2Audio.Conversion
import Rtmpg.L6Stream.Audio

/-!
# What Opus hears is what was decoded

The audio path once more, with the floats of the decoder as numbers: the
conversion of `Conversion` inside the runs of `Audio`.

* `opus_hears_floats`: in every run the bytes `opus_encode` was handed, and
  those carried over, are samples that follow the floats of the decoded
  frames: as many, each within 2 of 32768 times its float, and in the same
  order of size. Only not-a-number and the number next to -1 are left out.
-/
namespace Rtmpg.Stream

open Rtmpg.Chain Rtmpg.Opus Rtmpg.Adts Rtmpg.Agorac Rtmpg.Packets Rtmpg.Binary

variable {F : Type} {R : NginxRtmp} {fl : Floats F} {cfg : Config} (undefined : Datum → ℤ)

/-- The floats of the decoded stream. -/
def decodedFloats (R : NginxRtmp) (ch : Nat) (ms : List AudioInput) : List Datum :=
  (consecutive (acceptedOf R ms)).flatMap fun pair => pair.2.env.frame.toList.flatMap (·.floats ch)

theorem decodedFloats_isFloat {ch : Nat} {ms : List AudioInput} {x : Datum} (h : x ∈ decodedFloats R ch ms) :
    IsFloat x := by
  obtain ⟨pair, -, hpair⟩ := List.mem_flatMap.mp h
  obtain ⟨f, -, hf⟩ := List.mem_flatMap.mp hpair
  exact floats_isFloat hf

theorem decodedStream_ieee (ch : Nat) (ms : List AudioInput) : decodedStream R (ieee undefined) ch ms =
    (decodedFloats R ch ms).flatMap fun x => int16Bytes ((ieee undefined).sample x) := by
  rw [decodedStream, decodedFloats, List.flatMap_assoc]
  refine List.flatMap_congr fun pair _ => ?_
  rw [decodedSamples, List.flatMap_assoc, List.flatMap_def]
  congr 1
  exact List.map_congr_left fun f _ => converted_ieee undefined ch f

/-- The samples that Opus has heard, and those kept for it, are the decoded floats quantised. -/
theorem opus_hears_floats (R : NginxRtmp) (undefined : Datum → ℤ) (fl : Floats F) (cfg : Config) (ch : Nat)
    (s₀ s : Session F) (past : History) (hctx : s₀.audio.ctx = some ⟨none⟩) (hcarry : Carry ch 0 s₀.audio.opus)
    (h : Ran R (ieee undefined) fl cfg s₀ s past) (hm : ∀ m ∈ past.audio, Usual R ch m) :
    Quantised (decodedFloats R ch past.audio)
      (int16s ((past.calls.map Prod.fst).flatten ++ s.audio.opus.carried)) := by
  rw [(ran_heard hctx hcarry h hm).samples, decodedStream_ieee]
  exact quantised_samples undefined fun _ hx => decodedFloats_isFloat hx

theorem opus_hears_floats_two : ∃ (s : Session Rat) (past : History), past.audio = [0, 23].map stampedInput ∧
    Quantised (decodedFloats .released 1 past.audio)
      (int16s ((past.calls.map Prod.fst).flatten ++ s.audio.opus.carried)) := by
  obtain ⟨s, past, hpast, hran⟩ := stamped_two (ieee fun _ => 0)
  exact ⟨s, past, hpast.1, opus_hears_floats .released (fun _ => 0) rationals idleConfig 1 idleSession s past rfl
    ⟨.inl rfl, rfl, List.length_replicate, rfl⟩ hran (stamped_usual hpast.1)⟩

end Rtmpg.Stream
