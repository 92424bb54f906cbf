import Rtmpg.Core.CStr

/-!
# The config file (`LocalConfig::readConfig`)

`libagorac/helpers/localconfig.cpp:12-126` and `localconfig.h:48-66`. A file
is a list of bytes. `file.getline(buffer, 1024)` reads it line by line; the
last line ends with the file. Of a line of 1024 bytes or more it stores the first
1023 and sets the stream's failbit: from then on it reads nothing, the end of
the file is never reached, and unless these 1023 bytes make it return false,
`readConfig` does not return. `Rtmpg.L4Session.Getline` has the stream itself.

Results:
* `readConfig_initial`: an accepted file leaves an initial size of at most
  8000 ms. `maxJbSize` is not checked at all.
* `readConfig_shipped`: the file that comes with the program is accepted.
-/
namespace Rtmpg.Config

open Rtmpg.CStr

/-- mirrors libagorac/helpers/localconfig.h:48-66 -/
structure LocalConfig where
  useDetailedVideoLog : Bool
  useDetailedAudioLog : Bool
  useSpeedupLog : Bool
  useFpsLog : Bool
  initialJbSize : UInt16
  maxJbSize : UInt16
  timeToIncreaseJbSize : UInt16
  dumpAudioToFile : Bool
  qMin : Int
  qMax : Int
  deriving DecidableEq, Repr

/-- mirrors libagorac/helpers/localconfig.cpp:10-23 -/
def defaults : LocalConfig where
  useDetailedVideoLog := false
  useDetailedAudioLog := false
  useSpeedupLog := false
  useFpsLog := false
  initialJbSize := 120
  maxJbSize := 8000
  timeToIncreaseJbSize := 15
  dumpAudioToFile := false
  qMin := 0
  qMax := 0

/-- mirrors libagorac/helpers/localconfig.cpp:39-50 -/
def prepareLine (line : Bytes) : Bytes :=
  match strstr (ascii "//") line with
  | some comment => line.take (offset line comment)
  | none => line

/-- mirrors libagorac/helpers/localconfig.cpp:116-126 -/
def getKeyValue (line : Bytes) : Option (Bytes × Bytes) :=
  match strchr 0x3d line with
  | some rest => some (line.take (offset line rest), rest.drop 1)
  | none => none

/-- mirrors libagorac/helpers/localconfig.cpp:76-105 -/
def setOption (c : LocalConfig) (key value : Bytes) : LocalConfig :=
  if key = ascii "detailed-video-log" ∧ value = ascii "yes" then { c with useDetailedVideoLog := true }
  else if key = ascii "detailed-audio-log" ∧ value = ascii "yes" then { c with useDetailedAudioLog := true }
  else if key = ascii "fps-log" ∧ value = ascii "yes" then { c with useFpsLog := true }
  else if key = ascii "speedup-log" ∧ value = ascii "yes" then { c with useSpeedupLog := true }
  else if key = ascii "jb-initial-size-ms" then { c with initialJbSize := .ofInt (atoi value) }
  else if key = ascii "jb-max-size-ms" then { c with maxJbSize := .ofInt (atoi value) }
  else if key = ascii "Jb-max-doubles-if-emptied-within-seconds" then
    { c with timeToIncreaseJbSize := .ofInt (atoi value) }
  else if key = ascii "dump-raw-audio-to-file" ∧ value = ascii "yes" then { c with dumpAudioToFile := true }
  else if key = ascii "qmin" then { c with qMin := atoi value }
  else if key = ascii "qmax" then { c with qMax := atoi value }
  else c

/-- mirrors libagorac/helpers/localconfig.cpp:108-111 -/
def validate (c : LocalConfig) : LocalConfig :=
  if c.initialJbSize > 8000 then { c with initialJbSize := 120 } else c

/-- Of what `getline` has stored: up to the first NUL, without white space and the comment.
mirrors libagorac/helpers/localconfig.cpp:66-69 -/
def lineOf (buffer : Bytes) : Bytes := prepareLine ((buffer.takeWhile (· ≠ 0)).filter fun b => !isSpace b)

/-- The rest of the loop's body; `none`: it returns false.
mirrors libagorac/helpers/localconfig.cpp:66-105 -/
def processLine (c : LocalConfig) (buffer : Bytes) : Option LocalConfig :=
  if lineOf buffer = [] then some c
  else (getKeyValue (lineOf buffer)).map fun (key, value) => setOption c key value

/-- `none`: it does not return.
mirrors libagorac/helpers/localconfig.cpp:53-114 -/
def readLines (c : LocalConfig) : List Bytes → Option (Bool × LocalConfig)
  | [] => some (true, validate c)
  | text :: rest =>
    match processLine c (text.take 1023) with
    | none => some (false, c)
    | some c => if 1024 ≤ text.length then none else readLines c rest

def newline : UInt8 := 0x0a

def readConfig (file : Bytes) : Option (Bool × LocalConfig) := readLines defaults (file.splitOn newline)

/-- A line splits at its first `=`. -/
theorem getKeyValue_split {key : Bytes} (h : 0x3d ∉ key) (value : Bytes) :
    getKeyValue (key ++ 0x3d :: value) = some (key, value) := by
  unfold getKeyValue
  rw [strchr_append 0x3d key value h]
  have hoff : offset (key ++ 0x3d :: value) (0x3d :: value) = key.length := by
    unfold offset
    rw [List.length_append, Nat.add_sub_cancel]
  dsimp only
  rw [hoff, List.take_left]
  rfl

theorem getKeyValue_none {line : Bytes} : getKeyValue line = none ↔ 0x3d ∉ line := by
  constructor
  · intro h hmem
    obtain ⟨key, value, rfl, hkey⟩ := List.eq_append_cons_of_mem hmem
    rw [getKeyValue_split hkey] at h
    cases h
  · intro h
    unfold getKeyValue
    rw [strchr_none 0x3d line h]

/-- `readConfig` returns false at this line, of which it has 1023 bytes. -/
def Malformed (text : Bytes) : Prop := lineOf (text.take 1023) ≠ [] ∧ 0x3d ∉ lineOf (text.take 1023)

instance (text : Bytes) : Decidable (Malformed text) := inferInstanceAs (Decidable (_ ∧ _))

theorem processLine_none {c : LocalConfig} {text : Bytes} :
    processLine c (text.take 1023) = none ↔ Malformed text := by
  unfold processLine Malformed
  split
  · next h => simp [h]
  · next h => rw [Option.map_eq_none_iff, getKeyValue_none, ne_eq, and_iff_right h]

theorem validate_initial (c : LocalConfig) : (validate c).initialJbSize ≤ 8000 := by
  unfold validate
  split
  · exact show (120 : UInt16) ≤ 8000 by decide
  · next h => exact UInt16.not_lt.mp h

theorem readLines_initial : ∀ (lines : List Bytes) (c c' : LocalConfig), readLines c lines = some (true, c') →
    c'.initialJbSize ≤ 8000
  | [], c, c', h => by
    cases h
    exact validate_initial c
  | text :: rest, c, c', h => by
    unfold readLines at h
    split at h
    · cases h
    · next d _ =>
      split at h
      · cases h
      · exact readLines_initial rest d c' h

theorem readConfig_initial {file : Bytes} {c : LocalConfig} (h : readConfig file = some (true, c)) :
    c.initialJbSize ≤ 8000 :=
  readLines_initial _ defaults c h

/-- mirrors rtmpg.conf:1-14 -/
def shippedFile : Bytes :=
  ["detailed-video-log=no", "detailed-audio-log=no", "fps-log=yes", "speedup-log=no", "", "jb-initial-size-ms=60 //ms",
    "Jb-max-doubles-if-emptied-within-seconds=15 //seconds", "jb-max-size-ms=2000 //ms", "",
    "dump-raw-audio-to-file=no", "", "//encoder settings", "qmin=0", "qmax=28"].flatMap fun line => ascii line ++ [0x0a]

def shipped : LocalConfig :=
  { defaults with useFpsLog := true, initialJbSize := 60, maxJbSize := 2000, qMax := 28 }

theorem readConfig_shipped : readConfig shippedFile = some (true, shipped) := by decide +kernel

end Rtmpg.Config
