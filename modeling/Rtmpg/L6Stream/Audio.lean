import Rtmpg.L6Stream.Published

/-!
# Audio arrives as it was decoded

The audio path from end to end: `ngx_agora_send_audio`, `ngx_flush_audio` and
`decode_acc_audio` (`ngx_agora_helper.c:511-563,594-861`), the queue and the
audio handler. The AAC decoder and Opus are the data of each message
(`DecodeEnv`); what is assumed of them is `Plain`: decoded frames are 1024
samples a channel long, and `opus_encode` answers with at least one byte.

* `decodeAccAudio_plain`: one decoding.
* `audio_arrives`: in every run the packets sent are, in order, a prefix of the
  answers of `opus_encode`, and what it was handed are the 960-sample windows
  of the decoded stream, with less than a window carried over. The frames of
  that stream are those of the accepted messages, each decoded when the next
  one comes.
-/
namespace Rtmpg.Stream

open Rtmpg.Chain Rtmpg.Opus Rtmpg.Adts Rtmpg.Agorac Rtmpg.Packets

variable {F G : Type} {R : NginxRtmp} {q : FloatFormat G} {fl : Floats F} {cfg : Config}

/-! ## One decoding -/

structure Plain (ch : Nat) (env : DecodeEnv) : Prop where
  frame : ∀ f ∈ env.frame, f.Fits ch ∧ f.nbSamples = inputSampleCount
  opus : 0 < env.opus.ret
  flushOpus : 0 < env.flushOpus.ret

def answer (r : OpusResult) : Bytes := r.out.take r.ret.toNat

/-- The samples of a frame that was decoded, if one was. -/
def decodedSamples (q : FloatFormat G) (ch : Nat) (env : DecodeEnv) : Bytes :=
  (env.frame.toList.map (·.converted q ch)).flatten

/-- A block through Opus: the calls of `opus_encode` are handed what was carried and the
samples of the block, and what is sent are their answers. -/
theorem decodeAccAudio_plain {ch n : Nat} {a : AgoraAudioContext} (h : Carry ch n a) (hn : n < 15) {env : DecodeEnv}
    (hp : Plain ch env) (timestamp : Nat) :
    ∃ (a' : AgoraAudioContext) (calls : List (Bytes × OpusResult)) (m : Nat), decodeAccAudio q a env timestamp =
        some (a', calls.map Prod.fst, calls.map fun c => ⟨c.2.out, c.2.ret, timestamp⟩) ∧
      (calls.map Prod.fst).zip [env.opus, env.flushOpus] = calls ∧ m < 15 ∧ Carry ch m a' ∧
      (∀ c ∈ calls, c.1.length = 1920 * ch) ∧
      (calls.map Prod.fst).flatten ++ a'.carried = a.carried ++ decodedSamples q ch env := by
  cases he : env.frame with
  | none =>
    refine ⟨a, [], n, ?_, rfl, hn, h, fun _ hc => absurd hc List.not_mem_nil, ?_⟩
    · simp only [decodeAccAudio, he, List.map_nil]
    · simp [decodedSamples, he]
  | some f =>
    obtain ⟨hf, hblock⟩ := hp.frame f he
    have harr := array_length q hf env.buffer_length
    have hhanded := handedOn_block q ch hblock env.buffer
    generalize hs : f.converted q ch ++ env.buffer.drop (2 * (f.nbSamples * ch)) = samples at harr
    have hroom : 2048 * ch ≤ samples.length := by
      rw [harr]
      rcases h.mono_stereo with rfl | rfl <;> decide
    obtain ⟨a', packets, m, hd, hm, h', hlen, hcat⟩ := decodeBlock_carry h hn
      ⟨samples, env.temp, env.flushTemp, env.temp_length, env.flushTemp_length⟩ hroom
    have hfront : samples.take (2048 * ch) = decodedSamples q ch env := by
      rw [← hs, decodedSamples, he]
      simpa [DecodedFrame.handedOn] using hhanded
    obtain ⟨⟨a₁, packet⟩, henc, hrest⟩ := Option.bind_eq_some_iff.mp hd
    obtain ⟨⟨a₂, flushed⟩, hflush, hpair⟩ := Option.map_eq_some_iff.mp hrest
    cases hpair
    have hcall : decodeAccAudio q a env timestamp = some (a', packet :: flushed.toList,
        ⟨env.opus.out, env.opus.ret, timestamp⟩ ::
          if 0 < (if flushed.isSome then env.flushOpus.ret else 0) then
            [⟨env.flushOpus.out, if flushed.isSome then env.flushOpus.ret else 0, timestamp⟩] else []) := by
      simp only [decodeAccAudio, he, convert_fits q h.channels hf env, hs, Option.bind_some, henc, hflush,
        Option.map_some]
    rw [hcall]
    cases flushed with
    | none =>
      refine ⟨a', [(packet, env.opus)], m, ?_, rfl, hm, h', fun c hc => ?_, hcat.trans (hfront ▸ rfl)⟩
      · simp
      · rw [List.mem_singleton.mp hc]
        exact hlen packet (by simp)
    | some second =>
      refine ⟨a', [(packet, env.opus), (second, env.flushOpus)], m, ?_, rfl, hm, h', fun c hc => ?_,
        hcat.trans (hfront ▸ rfl)⟩
      · simp [hp.flushOpus]
      · rcases List.mem_cons.mp hc with rfl | hc
        · exact hlen packet (by simp)
        · rw [List.mem_singleton.mp hc]
          exact hlen second (by simp)

/-! ## The messages -/

def acceptedOf (R : NginxRtmp) (ms : List AudioInput) : List AudioInput :=
  ms.filter fun m => decide (Accepted R m.message)

/-- The decoded stream: what was decoded of each accepted message, when the next one came. -/
def decodedStream (R : NginxRtmp) (q : FloatFormat G) (ch : Nat) (ms : List AudioInput) : Bytes :=
  (consecutive (acceptedOf R ms)).flatMap fun pair => decodedSamples q ch pair.2.env

theorem consecutive_concat {α : Type} (x : α) : ∀ l : List α,
    consecutive (l ++ [x]) = consecutive l ++ (l.getLast?.map fun y => (y, x)).toList
  | [] => rfl
  | [_] => rfl
  | y :: z :: l => by
    have ih := consecutive_concat x (z :: l)
    rw [List.cons_append] at ih
    rw [List.cons_append, List.cons_append, consecutive, ih, consecutive, List.getLast?_cons_cons, List.cons_append]

theorem decodedStream_rejected (q : FloatFormat G) (ms : List AudioInput) (ch : Nat) {m : AudioInput}
    (h : ¬ Accepted R m.message) : acceptedOf R (ms ++ [m]) = acceptedOf R ms ∧
      decodedStream R q ch (ms ++ [m]) = decodedStream R q ch ms := by
  have hsame : acceptedOf R (ms ++ [m]) = acceptedOf R ms := by
    rw [acceptedOf, List.filter_append, List.filter_cons_of_neg (by simpa using h), List.filter_nil,
      List.append_nil, acceptedOf]
  exact ⟨hsame, by rw [decodedStream, hsame, decodedStream]⟩

theorem decodedStream_accepted (q : FloatFormat G) (ms : List AudioInput) (ch : Nat) {m : AudioInput}
    (h : Accepted R m.message) : acceptedOf R (ms ++ [m]) = acceptedOf R ms ++ [m] ∧
      decodedStream R q ch (ms ++ [m]) = decodedStream R q ch ms ++
        if acceptedOf R ms = [] then [] else decodedSamples q ch m.env := by
  have hmore : acceptedOf R (ms ++ [m]) = acceptedOf R ms ++ [m] := by
    rw [acceptedOf, List.filter_append, List.filter_cons_of_pos (by simpa using h), List.filter_nil, acceptedOf]
  refine ⟨hmore, ?_⟩
  rw [decodedStream, hmore, consecutive_concat, List.flatMap_append, decodedStream]
  congr 1
  rcases List.eq_nil_or_concat (acceptedOf R ms) with hnil | ⟨init, last, e⟩
  · rw [hnil]
    rfl
  · rw [List.concat_eq_append] at e
    rw [e, List.getLast?_concat, if_neg (by simp)]
    simp

/-! ## Every run -/

/-- The audio of a session is what its messages and Opus make it. -/
structure Heard (R : NginxRtmp) (q : FloatFormat G) (ch : Nat) (s : Session F) (past : History) : Prop where
  pending : ∃ ctx content, s.audio.ctx = some ctx ∧ Holds ctx content ∧ (content = [] ↔ acceptedOf R past.audio = [])
  carry : ∃ n, n < 15 ∧ Carry ch n s.audio.opus
  windows : ∀ c ∈ past.calls, c.1.length = 1920 * ch
  samples : (past.calls.map Prod.fst).flatten ++ s.audio.opus.carried = decodedStream R q ch past.audio
  answers : (past.decodings.flatMap (·.sends)).map (fun v => v.buffer.take v.len.toNat) =
    past.calls.map fun c => answer c.2

/-- What is assumed of a message. -/
def Usual (R : NginxRtmp) (ch : Nat) (m : AudioInput) : Prop := Delivered R m.message ∧ Plain ch m.env

theorem audio_heard {ch : Nat} {s : Session F} {past : History} (hs : Heard R q ch s past) {m : AudioInput}
    (hm : Usual R ch m) {audio : AudioState} {decodings : List Decoding} (outbox : List SendAudio)
    (hd : sendAndDecode R q s.audio m = some (audio, decodings)) :
    Heard R q ch { s with audio := audio, outbox := outbox } (watch R q s (.audio m) past) := by
  obtain ⟨⟨ctx, content, hctx, hholds, hfirst⟩, ⟨n, hn, hcarry⟩, hwindows, hsamples, hanswers⟩ := hs
  have hsend := hd
  rw [watch_audio hd]
  unfold sendAndDecode at hsend
  rw [hctx] at hsend
  by_cases hacc : Accepted R m.message
  · obtain ⟨ctx', frame, hcall, hholds', hne, -⟩ := sendAudio_accepts hholds hm.1 hacc
    obtain ⟨haccepted, hstream⟩ := decodedStream_accepted q past.audio ch hacc
    have hpending : frame = [] ↔ acceptedOf R (past.audio ++ [m]) = [] := by
      rw [haccepted]
      simp [hne]
    rw [hcall, Option.bind_some] at hsend
    by_cases hnil : content = []
    · -- the first message waits for the next one
      rw [if_pos hnil] at hsend
      cases hsend
      rw [if_pos (hfirst.mp hnil), List.append_nil] at hstream
      refine ⟨⟨ctx', frame, rfl, hholds', hpending⟩, ⟨n, hn, hcarry⟩, ?_, ?_, ?_⟩
      · simpa using hwindows
      · simpa [hstream] using hsamples
      · simpa using hanswers
    · rw [if_neg hnil] at hsend
      rw [if_neg fun he => hnil (hfirst.mpr he)] at hstream
      obtain ⟨a', calls, k, hdec, hzip, hk, hcarry', hlen, hcat⟩ :=
        decodeAccAudio_plain (q := q) hcarry hn hm.2 m.message.h.timestamp
      simp only [decodeCalls, hdec, Option.bind_some, Option.map_some] at hsend
      cases hsend
      have hopus : [(⟨content, calls.map Prod.fst,
          calls.map fun c => ⟨c.2.out, c.2.ret, m.message.h.timestamp⟩⟩ : Decoding)].flatMap (opusCalls m.env) =
          calls := by
        rw [List.flatMap_singleton]
        exact hzip
      rw [hopus]
      refine ⟨⟨ctx', frame, rfl, hholds', hpending⟩, ⟨k, hk, hcarry'⟩, fun c hc => ?_, ?_, ?_⟩
      · rcases List.mem_append.mp hc with hc | hc
        · exact hwindows c hc
        · exact hlen c hc
      · dsimp only
        rw [List.map_append, List.flatten_append, List.append_assoc, hcat, ← List.append_assoc, hsamples, hstream]
      · dsimp only
        rw [List.flatMap_append, List.map_append, hanswers, List.map_append, List.flatMap_singleton, List.map_map]
        rfl
  · obtain ⟨ctx', hcall, hholds'⟩ := sendAudio_rejects hholds hm.1 hacc
    obtain ⟨haccepted, hstream⟩ := decodedStream_rejected q past.audio ch hacc
    rw [hcall, Option.bind_some] at hsend
    cases hsend
    refine ⟨⟨ctx', content, rfl, hholds', ?_⟩, ⟨n, hn, hcarry⟩, ?_, ?_, ?_⟩
    · rw [haccepted]
      exact hfirst
    · simpa using hwindows
    · simpa [hstream] using hsamples
    · simpa using hanswers

theorem step_heard {ch : Nat} {s t : Session F} {past : History} {e : Event} (hs : Heard R q ch s past)
    (hm : ∀ m, e = .audio m → Usual R ch m) (h : (sessionSystem R q fl cfg).step s e = some t) :
    Heard R q ch t (watch R q s e past) := by
  cases sessionStepped h with
  | ignored => exact ⟨hs.pending, hs.carry, hs.windows, hs.samples, hs.answers⟩
  | video codec hdr msg ret v _ _ hsend =>
    obtain ⟨buffer, -, -, rfl⟩ := sendVideo_call hsend
    exact ⟨hs.pending, hs.carry, hs.windows, hs.samples, hs.answers⟩
  | audio m audio decodings _ hd => exact audio_heard hs (hm m rfl) _ hd
  | send v rest u _ hsend =>
    obtain ⟨buffer, -, -, rfl⟩ := sendAudio_call hsend
    exact ⟨hs.pending, hs.carry, hs.windows, hs.samples, hs.answers⟩
  | party => exact ⟨hs.pending, hs.carry, hs.windows, hs.samples, hs.answers⟩

theorem watch_audio_subset (R : NginxRtmp) (q : FloatFormat G) (s : Session F) (e : Event) (past : History) :
    past.audio ⊆ (watch R q s e past).audio ∧ ∀ m, e = .audio m → m ∈ (watch R q s e past).audio := by
  cases e with
  | audio m =>
    refine ⟨List.subset_append_left _ _, fun m' he => ?_⟩
    cases he
    exact List.mem_append_right _ List.mem_cons_self
  | _ => exact ⟨List.Subset.refl _, fun _ he => by cases he⟩

theorem ran_heard {ch : Nat} {s₀ s : Session F} {past : History}
    (hctx : s₀.audio.ctx = some ⟨none⟩) (hcarry : Carry ch 0 s₀.audio.opus)
    (h : Ran R q fl cfg s₀ s past) (hm : ∀ m ∈ past.audio, Usual R ch m) : Heard R q ch s past := by
  have hstart : Heard R q ch s₀ .none := by
    refine ⟨⟨⟨none⟩, [], hctx, holds_fresh, iff_of_true rfl rfl⟩, ⟨0, by decide, hcarry⟩,
      fun _ hc => absurd hc List.not_mem_nil, ?_, rfl⟩
    show [] ++ s₀.audio.opus.carried = []
    rw [AgoraAudioContext.carried, hcarry.count, Nat.mul_zero, List.take_zero, List.append_nil]
  refine h.invariant (I := fun p : Session F × History => (∀ m ∈ p.2.audio, Usual R ch m) → Heard R q ch p.1 p.2)
    (fun p e p' _ hp hst hall => ?_) (fun _ => hstart) hm
  obtain ⟨u, hu, rfl⟩ := Option.map_eq_some_iff.mp hst
  obtain ⟨hsub, hlast⟩ := watch_audio_subset R q p.1 e p.2
  exact step_heard (hp fun m hmem => hall m (hsub hmem)) (fun m he => hall m (hlast m he)) hu

/-- The packets sent are the first of Opus's answers, Opus has heard the decoded stream from its
start in windows, and each accepted message was decoded with the next one. -/
theorem audio_arrives (R : NginxRtmp) (q : FloatFormat G) (fl : Floats F) (cfg : Config) (ch : Nat)
    (s₀ s : Session F) (past : History) (h₀ : (sessionSystem R q fl cfg).init s₀)
    (hctx : s₀.audio.ctx = some ⟨none⟩) (hcarry : Carry ch 0 s₀.audio.opus)
    (h : Ran R q fl cfg s₀ s past) (hm : ∀ m ∈ past.audio, Usual R ch m) :
    s.call.sentAudio.map (·.buffer) <+: past.calls.map (fun c => answer c.2) ∧
      (∀ c ∈ past.calls, c.1.length = opusSampleCount * ch * sampleSize) ∧
      (past.calls.map Prod.fst).flatten ++ s.audio.opus.carried = decodedStream R q ch past.audio ∧
      s.audio.opus.carried.length < opusSampleCount * ch * sampleSize ∧
      List.Forall₂ Adts.Decodes (consecutive (acceptedOf R past.audio)) past.decodings := by
  have hheard := ran_heard hctx hcarry h hm
  have haccepts := ran_accepts h₀ h
  obtain ⟨-, -, hsent⟩ := sent_is_published R q fl cfg s₀ s past h₀ h
  have hwindow : opusSampleCount * ch * sampleSize = 1920 * ch := by
    rw [opusSampleCount, sampleSize]
    ring
  rw [hwindow]
  refine ⟨?_, hheard.windows, hheard.samples, ?_, ?_⟩
  · have hmap := hsent.map Sample.buffer
    rw [List.map_map, List.map_map] at hmap
    rw [← hheard.answers]
    exact hmap
  · obtain ⟨n, hn, hc⟩ := hheard.carry
    have hsize := hc.size
    rw [remainingSize, inputSampleCount, sampleSize, maxChannelCount] at hsize
    rw [AgoraAudioContext.carried, List.length_take, hc.count]
    rcases hc.mono_stereo with rfl | rfl <;> omega
  · have hstream := haccepts.stream
    rw [show s₀.audio = ⟨some ⟨none⟩, s₀.audio.opus⟩ from hctx ▸ rfl] at hstream
    exact runStream_decodes R q past.audio ⟨none⟩ s₀.audio.opus [] none s.audio past.decodings holds_fresh rfl
      (fun m hmem => (hm m hmem).1) hstream

/-! ## Two messages -/

theorem stampedInput_usual (timestamp : Nat) : Usual .released 1 (stampedInput timestamp) := by
  refine ⟨stampedInput_delivered timestamp, fun f hf => ?_, Int.one_pos, Int.one_pos⟩
  cases hf
  exact ⟨silentFrame_fits 1024 (by decide) (by decide), rfl⟩

theorem Ran.audio {s₀ s : Session F} {past : History} (h : Ran R q fl cfg s₀ s past) (hr : s.Ready)
    {m : AudioInput} {audio : AudioState} {decodings : List Decoding}
    (hd : sendAndDecode R q s.audio m = some (audio, decodings)) :
    Ran R q fl cfg s₀ { s with audio := audio, outbox := decodings.flatMap (·.sends) }
      { past with
        audio := past.audio ++ [m]
        decodings := past.decodings ++ decodings
        calls := past.calls ++ decodings.flatMap (opusCalls m.env) } := by
  have hstep : (sessionSystem R q fl cfg).step s (.audio m) =
      some { s with audio := audio, outbox := decodings.flatMap (·.sends) } := by
    simp only [sessionSystem]
    rw [if_pos hr, hd, Option.map_some]
  refine .tail (.audio m) h trivial ?_
  simp only [LTS.watched, hstep, Option.map_some, watch_audio hd]

/-- The first message waits for the second, and that one sends the answer of Opus. -/
theorem stamped_sends (q : FloatFormat G) {s₁ s₂ : AudioState} {d₁ d₂ : List Decoding}
    (h₁ : sendAndDecode .released q ⟨some ⟨none⟩, monoContext⟩ (stampedInput 0) = some (s₁, d₁))
    (h₂ : sendAndDecode .released q s₁ (stampedInput 23) = some (s₂, d₂)) :
    d₁ = [] ∧ ∃ more, d₂.flatMap (·.sends) = ⟨oneByte.out, oneByte.ret, 23⟩ :: more := by
  obtain ⟨ctx, frame, hcall, hholds, hne, -⟩ :=
    sendAudio_accepts holds_fresh (stampedInput_delivered 0) (stampedInput_accepted 0)
  unfold sendAndDecode at h₁
  rw [hcall, if_pos rfl] at h₁
  cases h₁
  refine ⟨rfl, ?_⟩
  have hflush : Flushes .released ctx (stampedInput 23).message := by
    rw [Flushes, holds_content hholds]
    exact ⟨hne, monoCodec, rfl, show 2 ≤ 4 by decide, rfl, by decide, rfl, show 4 + 5 ≤ 2 * 1024 by decide⟩
  obtain ⟨-, hsends, -⟩ := sendAndDecode_sends (fun a ha => by
    cases ha
    exact .inl ⟨frame, hholds⟩) h₂
  obtain ⟨more, -, hmore⟩ := hsends ⟨⟨ctx, rfl, hflush⟩, rfl⟩
  exact ⟨more, hmore⟩

/-- What the other parties do in a session is what they do in its call. -/
theorem ran_parties {s₀ : Session F} {past : History} {call : Call F} (ls : List Label) :
    ∀ {s : Session F}, Ran R q fl cfg s₀ s past → (∀ l ∈ ls, adds l = false) →
      (system fl cfg).exec (fun _ _ => True) s.call ls = some call →
      Ran R q fl cfg s₀ { s with call := call } past := by
  induction ls with
  | nil =>
    intro s h _ hexec
    cases hexec
    exact h
  | cons l ls ih =>
    intro s h hadds hexec
    rw [LTS.exec, if_pos trivial] at hexec
    obtain ⟨t, ht, hrest⟩ := Option.bind_eq_some_iff.mp hexec
    have hstep : (sessionSystem R q fl cfg).step s (.party l) = some { s with call := t } := by
      simp only [sessionSystem, hadds l List.mem_cons_self, Bool.false_eq_true, if_false, ht, Option.map_some]
    have hran : Ran R q fl cfg s₀ { s with call := t } past :=
      .tail (.party l) h trivial (congrArg (Option.map _) hstep)
    exact ih (s := { s with call := t }) hran (fun l hl => hadds l (List.mem_cons_of_mem _ hl)) hrest

/-- The packet in front goes through the queue and the Audio handler. -/
theorem Ran.sends {s : Session Rat} {past : History} {more : List SendAudio}
    (h : Ran R q rationals idleConfig idleSession s past) (hcall : s.call = init rationals idleConfig)
    (hout : s.outbox = ⟨oneByte.out, oneByte.ret, 23⟩ :: more) :
    ∃ t : Session Rat, Ran R q rationals idleConfig idleSession t past ∧ t.call.sentAudio.length = 1 := by
  have hwork : newWork oneByte.out oneByte.ret = some [0] := by decide +kernel
  have hadd : (sessionSystem R q rationals idleConfig).step s .send =
      some { s with call := addAudio (init rationals idleConfig) [0] 23, outbox := more } := by
    simp only [sessionSystem, hout, agoraSendAudio, hwork, hcall]
    rfl
  have hadded : Ran R q rationals idleConfig idleSession
      { s with call := addAudio (init rationals idleConfig) [0] 23, outbox := more } past :=
    .tail .send h trivial (congrArg (Option.map _) hadd)
  have hsome : ((system rationals idleConfig).exec (fun _ _ => True) (addAudio (init rationals idleConfig) [0] 23)
      (List.replicate 6 .listen)).map (·.sentAudio.length) = some 1 := by decide +kernel
  obtain ⟨call, hexec, hsent⟩ := Option.map_eq_some_iff.mp hsome
  refine ⟨_, ran_parties _ hadded (fun l hl => ?_) hexec, hsent⟩
  rw [List.eq_of_mem_replicate hl]
  rfl

theorem stamped_two (q : FloatFormat G) : ∃ (s : Session Rat) (past : History),
    (past.audio = [0, 23].map stampedInput ∧ s.call.sentAudio.length = 1) ∧
      Ran .released q rationals idleConfig idleSession s past := by
  obtain ⟨end₂, ds, hrun⟩ := runStream_returns .released q ([0, 23].map stampedInput) ⟨none⟩ [] monoContext 0
    holds_fresh ⟨.inl rfl, rfl, List.length_replicate, rfl⟩ (by decide)
    (fun m hm => by
      obtain ⟨timestamp, -, rfl⟩ := List.mem_map.mp hm
      exact stampedInput_delivered timestamp)
    (fun m hm => by
      obtain ⟨timestamp, -, rfl⟩ := List.mem_map.mp hm
      exact fun f hf => ((stampedInput_usual timestamp).2.frame f hf).1)
  obtain ⟨⟨s₁, d₁⟩, h₁, hrest⟩ := Option.bind_eq_some_iff.mp hrun
  obtain ⟨⟨s₂, d₂⟩, hsecond, -⟩ := Option.map_eq_some_iff.mp hrest
  obtain ⟨⟨s₃, d₃⟩, h₂, -⟩ := Option.bind_eq_some_iff.mp hsecond
  obtain ⟨rfl, more, hmore⟩ := stamped_sends q h₁ h₂
  have hran : Ran .released q rationals idleConfig idleSession idleSession .none := .refl
  obtain ⟨t, ht, hsent⟩ := ((hran.audio ⟨rfl, rfl, rfl⟩ h₁).audio ⟨rfl, rfl, rfl⟩ h₂).sends rfl hmore
  exact ⟨t, _, ⟨rfl, hsent⟩, ht⟩

theorem stamped_usual {past : History} (h : past.audio = [0, 23].map stampedInput) :
    ∀ m ∈ past.audio, Usual .released 1 m := by
  intro m hm
  rw [h] at hm
  obtain ⟨timestamp, -, rfl⟩ := List.mem_map.mp hm
  exact stampedInput_usual timestamp

theorem audio_arrives_two : ∃ (s : Session Rat) (past : History),
    (past.audio = [0, 23].map stampedInput ∧ s.call.sentAudio.length = 1) ∧
    s.call.sentAudio.map (·.buffer) <+: past.calls.map (fun c => answer c.2) ∧
      (∀ c ∈ past.calls, c.1.length = opusSampleCount * 1 * sampleSize) ∧
      (past.calls.map Prod.fst).flatten ++ s.audio.opus.carried =
        decodedStream .released exactFormat 1 past.audio ∧
      s.audio.opus.carried.length < opusSampleCount * 1 * sampleSize ∧
      List.Forall₂ Adts.Decodes (consecutive (acceptedOf .released past.audio)) past.decodings := by
  obtain ⟨s, past, hpast, hran⟩ := stamped_two exactFormat
  exact ⟨s, past, hpast, audio_arrives .released exactFormat rationals idleConfig 1 idleSession s past
    idleSession_init rfl ⟨.inl rfl, rfl, List.length_replicate, rfl⟩ hran (stamped_usual hpast.1)⟩

end Rtmpg.Stream
