import Mathlib.Data.List.TakeWhile
import Rtmpg.Core.LastWins
import Rtmpg.L4Session.Config

/-!
# The options of the config file

`LocalConfig` has five flags and five numbers (`libagorac/helpers/localconfig.h:48-66`),
each with a key. A flag is set by the value `yes` and never cleared; a number
is set by `atoi` of any value, cut down to its field.

* `dispatched`: the ten-way dispatch sets one of them, or nothing.
* `Flag.get_setOption`, `Number.get_setOption`: what it does to one option.
* `readLines_returns`: the lines up to a malformed one are assignments.
* `Flag.get_assignAll`, `Number.get_assignAll`: the last one counts.
-/
namespace Rtmpg.Config

open Rtmpg.CStr

inductive Flag where
  | detailedVideoLog
  | detailedAudioLog
  | fpsLog
  | speedupLog
  | dumpRawAudioToFile
  deriving DecidableEq, Repr

inductive Number where
  | initialJbSize
  | maxJbSize
  | timeToIncreaseJbSize
  | qMin
  | qMax
  deriving DecidableEq, Repr

def Flag.key : Flag → Bytes
  | .detailedVideoLog => ascii "detailed-video-log"
  | .detailedAudioLog => ascii "detailed-audio-log"
  | .fpsLog => ascii "fps-log"
  | .speedupLog => ascii "speedup-log"
  | .dumpRawAudioToFile => ascii "dump-raw-audio-to-file"

def Flag.get (c : LocalConfig) : Flag → Bool
  | .detailedVideoLog => c.useDetailedVideoLog
  | .detailedAudioLog => c.useDetailedAudioLog
  | .fpsLog => c.useFpsLog
  | .speedupLog => c.useSpeedupLog
  | .dumpRawAudioToFile => c.dumpAudioToFile

def Number.key : Number → Bytes
  | .initialJbSize => ascii "jb-initial-size-ms"
  | .maxJbSize => ascii "jb-max-size-ms"
  | .timeToIncreaseJbSize => ascii "Jb-max-doubles-if-emptied-within-seconds"
  | .qMin => ascii "qmin"
  | .qMax => ascii "qmax"

def Number.get (c : LocalConfig) : Number → Int
  | .initialJbSize => c.initialJbSize.toNat
  | .maxJbSize => c.maxJbSize.toNat
  | .timeToIncreaseJbSize => c.timeToIncreaseJbSize.toNat
  | .qMin => c.qMin
  | .qMax => c.qMax

def Number.narrow (v : Int) : Number → Int
  | .qMin | .qMax => v
  | _ => (UInt16.ofInt v).toNat

theorem ofInt_toNat (v : Int) : ((UInt16.ofInt v).toNat : Int) = v % 65536 := by
  unfold UInt16.ofInt
  rw [UInt16.toNat_ofNat']
  omega

/-- What an assignment puts into the flag. -/
def Flag.val (f : Flag) (a : Bytes × Bytes) : Option Bool := if a.1 = f.key ∧ a.2 = ascii "yes" then some true else none

def Number.val (n : Number) (a : Bytes × Bytes) : Option Int := if a.1 = n.key then some (n.narrow (atoi a.2)) else none

def Flag.set (c : LocalConfig) : Flag → LocalConfig
  | .detailedVideoLog => { c with useDetailedVideoLog := true }
  | .detailedAudioLog => { c with useDetailedAudioLog := true }
  | .fpsLog => { c with useFpsLog := true }
  | .speedupLog => { c with useSpeedupLog := true }
  | .dumpRawAudioToFile => { c with dumpAudioToFile := true }

def Number.set (c : LocalConfig) (v : Int) : Number → LocalConfig
  | .initialJbSize => { c with initialJbSize := .ofInt v }
  | .maxJbSize => { c with maxJbSize := .ofInt v }
  | .timeToIncreaseJbSize => { c with timeToIncreaseJbSize := .ofInt v }
  | .qMin => { c with qMin := v }
  | .qMax => { c with qMax := v }

@[simp] theorem Flag.key_inj {f g : Flag} : f.key = g.key ↔ f = g := by
  cases f <;> cases g <;> decide

@[simp] theorem Number.key_inj {m n : Number} : m.key = n.key ↔ m = n := by
  cases m <;> cases n <;> decide

theorem Flag.key_ne (f : Flag) (n : Number) : f.key ≠ n.key := by
  cases f <;> cases n <;> decide

theorem Flag.get_set (f g : Flag) (c : LocalConfig) : f.get (g.set c) = if g = f then true else f.get c := by
  cases f <;> cases g <;> rfl

theorem Number.get_set (m n : Number) (c : LocalConfig) (v : Int) :
    m.get (n.set c v) = if n = m then n.narrow v else m.get c := by
  cases m <;> cases n <;> rfl

@[simp] theorem Flag.get_setNumber (f : Flag) (n : Number) (c : LocalConfig) (v : Int) :
    f.get (n.set c v) = f.get c := by
  cases f <;> cases n <;> rfl

@[simp] theorem Number.get_setFlag (n : Number) (f : Flag) (c : LocalConfig) : n.get (f.set c) = n.get c := by
  cases f <;> cases n <;> rfl

/-- What the dispatch does with a key and a value. -/
inductive Dispatched (c : LocalConfig) (key value : Bytes) : LocalConfig → Prop
  | flag (f : Flag) : key = f.key → value = ascii "yes" → Dispatched c key value (f.set c)
  | number (n : Number) : key = n.key → Dispatched c key value (n.set c (atoi value))
  | other : (∀ f : Flag, ¬ (key = f.key ∧ value = ascii "yes")) → (∀ n : Number, key ≠ n.key) →
      Dispatched c key value c

theorem dispatched_ite {c x y : LocalConfig} {key value : Bytes} {p : Prop} [Decidable p]
    (hx : p → Dispatched c key value x) (hy : ¬ p → Dispatched c key value y) :
    Dispatched c key value (if p then x else y) := by
  split
  · exact hx ‹p›
  · exact hy ‹¬ p›

theorem dispatched {c d : LocalConfig} {key value : Bytes} (hd : setOption c key value = d) :
    Dispatched c key value d := by
  subst hd
  unfold setOption
  refine dispatched_ite (fun h => .flag .detailedVideoLog h.1 h.2) fun h1 => ?_
  refine dispatched_ite (fun h => .flag .detailedAudioLog h.1 h.2) fun h2 => ?_
  refine dispatched_ite (fun h => .flag .fpsLog h.1 h.2) fun h3 => ?_
  refine dispatched_ite (fun h => .flag .speedupLog h.1 h.2) fun h4 => ?_
  refine dispatched_ite (fun h => .number .initialJbSize h) fun h5 => ?_
  refine dispatched_ite (fun h => .number .maxJbSize h) fun h6 => ?_
  refine dispatched_ite (fun h => .number .timeToIncreaseJbSize h) fun h7 => ?_
  refine dispatched_ite (fun h => .flag .dumpRawAudioToFile h.1 h.2) fun h8 => ?_
  refine dispatched_ite (fun h => .number .qMin h) fun h9 => ?_
  refine dispatched_ite (fun h => .number .qMax h) fun h10 => ?_
  refine .other (fun f => ?_) fun n => ?_
  · cases f with
    | detailedVideoLog => exact h1
    | detailedAudioLog => exact h2
    | fpsLog => exact h3
    | speedupLog => exact h4
    | dumpRawAudioToFile => exact h8
  · cases n with
    | initialJbSize => exact h5
    | maxJbSize => exact h6
    | timeToIncreaseJbSize => exact h7
    | qMin => exact h9
    | qMax => exact h10

theorem Flag.get_setOption (f : Flag) (c : LocalConfig) (a : Bytes × Bytes) :
    f.get (setOption c a.1 a.2) = (f.val a).getD (f.get c) := by
  unfold Flag.val
  generalize hd : setOption c a.1 a.2 = d
  cases dispatched hd with
  | flag g hkey hvalue =>
    rw [Flag.get_set, hkey, hvalue]
    by_cases hgf : g = f <;> simp [hgf]
  | number n hkey => simp [hkey, (Flag.key_ne f n).symm]
  | other hflag _ => simp [hflag f]

theorem Number.get_setOption (n : Number) (c : LocalConfig) (a : Bytes × Bytes) :
    n.get (setOption c a.1 a.2) = (n.val a).getD (n.get c) := by
  unfold Number.val
  generalize hd : setOption c a.1 a.2 = d
  cases dispatched hd with
  | flag f hkey _ => simp [hkey, Flag.key_ne f n]
  | number m hkey =>
    rw [Number.get_set, hkey]
    by_cases hmn : m = n <;> simp [hmn]
  | other _ hnumber => simp [hnumber n]

/-! ## A file -/

/-- The key and the value of a line, if it has any. -/
def assignment (text : Bytes) : Option (Bytes × Bytes) := getKeyValue (lineOf text)

def assignAll (c : LocalConfig) (lines : List Bytes) : LocalConfig :=
  (lines.filterMap assignment).foldl (fun c a => setOption c a.1 a.2) c

theorem processLine_ok {text : Bytes} (c : LocalConfig) (h : ¬ Malformed text) :
    processLine c (text.take 1023) = some (assignAll c [text.take 1023]) := by
  unfold processLine assignAll assignment
  split
  · next hempty => simp [hempty, getKeyValue, strchr]
  · next hline =>
    cases hkv : getKeyValue (lineOf (text.take 1023)) with
    | none => exact absurd ⟨hline, getKeyValue_none.mp hkv⟩ h
    | some a => simp [hkv]

theorem assignAll_cons (c : LocalConfig) (text : Bytes) (lines : List Bytes) :
    assignAll c (text :: lines) = assignAll (assignAll c [text]) lines := by
  unfold assignAll
  cases h : assignment text <;> simp [h]

/-- The lines that are read before one that is malformed. -/
def linesRead (lines : List Bytes) : List Bytes := lines.takeWhile fun text => !decide (Malformed text)

theorem readLines_returns : ∀ (lines : List Bytes) (c d : LocalConfig) (b : Bool), readLines c lines = some (b, d) →
    ((∀ text ∈ lines, ¬ Malformed text) → b = true ∧ d = validate (assignAll c lines)) ∧
      ((∃ text ∈ lines, Malformed text) → b = false ∧ d = assignAll c (linesRead lines))
  | [], c, d, b, h => by
    cases h
    exact ⟨fun _ => ⟨rfl, rfl⟩, fun ⟨_, hmem, _⟩ => absurd hmem List.not_mem_nil⟩
  | text :: lines, c, d, b, h => by
    rw [readLines] at h
    by_cases hbad : Malformed text
    · rw [processLine_none.mpr hbad] at h
      cases h
      refine ⟨fun hall => absurd hbad (hall text List.mem_cons_self), fun _ => ⟨rfl, ?_⟩⟩
      simp [linesRead, hbad, assignAll]
    · rw [processLine_ok c hbad] at h
      dsimp only at h
      split at h
      · cases h
      · next hshort =>
        rw [List.take_of_length_le (by omega)] at h
        obtain ⟨hok, hfail⟩ := readLines_returns lines _ d b h
        refine ⟨fun hall => ?_, fun ⟨text', hmem, hbad'⟩ => ?_⟩
        · rw [assignAll_cons]
          exact hok fun text' hmem => hall text' (List.mem_cons_of_mem _ hmem)
        · have hread : linesRead (text :: lines) = text :: linesRead lines := by simp [linesRead, hbad]
          rw [hread, assignAll_cons]
          rcases List.mem_cons.mp hmem with rfl | hmem
          · exact absurd hbad' hbad
          · exact hfail ⟨text', hmem, hbad'⟩

theorem Flag.get_assignAll (f : Flag) (c : LocalConfig) (lines : List Bytes) :
    f.get (assignAll c lines) = (lastOf f.val (lines.filterMap assignment)).getD (f.get c) :=
  foldl_lastOf (fun c => f.get c) f.get_setOption _ c

theorem Number.get_assignAll (n : Number) (c : LocalConfig) (lines : List Bytes) :
    n.get (assignAll c lines) = (lastOf n.val (lines.filterMap assignment)).getD (n.get c) :=
  foldl_lastOf (fun c => n.get c) n.get_setOption _ c

end Rtmpg.Config
