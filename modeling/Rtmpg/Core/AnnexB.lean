import Mathlib.Data.List.DropRight
import Rtmpg.Core.Bytes

/-!
# The Annex B byte stream format of H.264

A byte stream is a sequence of NAL units, each behind a start code of three
or four bytes (`serialize`). A splitter cuts the stream at every `00 00 01`
(`cut`) and strips the zero bytes before a start code (`split`); bytes in
front of the first start code would come out as a unit of their own.

A NAL unit as H.264 emits it contains neither `00 00 00` nor `00 00 01` and
does not end in `00` (`EmulationFree`).

Result: `split_serialize`, the splitter returns exactly the bodies of
emulation-free units, whatever the mix of start code lengths.
-/
namespace Rtmpg.AnnexB

/-- A NAL unit and whether its start code is the long one. -/
structure Nalu where
  long : Bool
  body : Bytes
  deriving DecidableEq, Repr

/-- The zero byte that makes a start code long. -/
def pad (long : Bool) : Bytes := if long then [0] else []

def startCode (long : Bool) : Bytes := pad long ++ [0, 0, 1]

def serialize (us : List Nalu) : Bytes := us.flatMap fun u => startCode u.long ++ u.body

theorem serialize_nil : serialize [] = [] := rfl

theorem serialize_cons (u : Nalu) (us : List Nalu) :
    serialize (u :: us) = startCode u.long ++ u.body ++ serialize us := rfl

theorem serialize_append (us vs : List Nalu) : serialize (us ++ vs) = serialize us ++ serialize vs := by
  simp [serialize]

/-! ## The splitter -/

def consHead (a : UInt8) : List Bytes → List Bytes
  | [] => [[a]]
  | s :: ss => (a :: s) :: ss

/-- The stretches between the start code prefixes `00 00 01`. -/
def cut : Bytes → List Bytes
  | a :: b :: c :: rest =>
    if a = 0 ∧ b = 0 ∧ c = 1 then [] :: cut rest else consHead a (cut (b :: c :: rest))
  | bs => [bs]

def stripZeros (s : Bytes) : Bytes := s.rdropWhile (· = 0)

/-- Zero bytes before a start code belong to no unit; the last stretch has no
start code behind it. -/
def stripped (ss : List Bytes) : List Bytes := ss.dropLast.map stripZeros ++ ss.getLast?.toList

def split (bs : Bytes) : List Bytes :=
  match stripped (cut bs) with
  | [] :: units => units
  | units => units

/-- What emulation prevention guarantees of a NAL unit. -/
structure EmulationFree (u : Bytes) : Prop where
  ne : u ≠ []
  no000 : ¬ [0, 0, 0] <:+: u
  no001 : ¬ [0, 0, 1] <:+: u
  last : u.getLast? ≠ some 0

/-! ## Where the cuts fall -/

theorem cut_cons (a : UInt8) (w : Bytes) (h : ¬ [0, 0, 1] <+: a :: w) :
    cut (a :: w) = consHead a (cut w) := by
  match w with
  | [] => rfl
  | [_] => rfl
  | b :: c :: rest =>
    rw [cut, if_neg]
    rintro ⟨rfl, rfl, rfl⟩
    exact h ⟨rest, rfl⟩

theorem cut_of_no001 : ∀ w : Bytes, ¬ [0, 0, 1] <:+: w → cut w = [w]
  | [], _ => rfl
  | a :: w, h => by
    have hw : ¬ [0, 0, 1] <:+: w := fun p => h (p.trans (List.infix_cons_iff.mpr (.inr List.infix_rfl)))
    rw [cut_cons a w fun p => h p.isInfix, cut_of_no001 w hw]
    rfl

/-- The first start code prefix behind `w` is where `w` ends. -/
theorem cut_append : ∀ w rest : Bytes, ¬ [0, 0, 1] <:+: w ++ [0, 0] →
    cut (w ++ 0 :: 0 :: 1 :: rest) = w :: cut rest
  | [], rest, _ => by simp [cut]
  | a :: w, rest, h => by
    have hw : ¬ [0, 0, 1] <:+: w ++ [0, 0] := fun p => h (List.infix_cons_iff.mpr (.inr p))
    rw [List.cons_append, cut_cons, cut_append w rest hw]
    · rfl
    · intro p
      refine h (List.IsPrefix.isInfix ?_)
      match w, p with
      | [], p => simp at p
      | [b], p => simp at p
      | b :: c :: w', p => simpa using p

/-- Zeros behind a unit cannot complete a start code inside it. -/
theorem no001_zeros (u : Bytes) (h : ¬ [0, 0, 1] <:+: u) : ∀ n, ¬ [0, 0, 1] <:+: u ++ List.replicate n 0
  | 0 => by simpa using h
  | n + 1 => by
    rw [List.replicate_succ', ← List.append_assoc]
    intro p
    rcases List.infix_concat_iff.mp p with p | p
    · obtain ⟨t, ht⟩ := p
      have := congrArg List.getLast? ht
      simp at this
    · exact no001_zeros u h n p

theorem cut_unit (u : Bytes) (h : ¬ [0, 0, 1] <:+: u) (long : Bool) (rest : Bytes) :
    cut (u ++ (startCode long ++ rest)) = (u ++ pad long) :: cut rest := by
  have h2 := no001_zeros u h 2
  have h3 := no001_zeros u h 3
  cases long
  · simpa [startCode, pad] using cut_append u rest h2
  · have hc := cut_append (u ++ [0]) rest (by simpa using h3)
    simpa only [startCode, pad, if_true, List.append_assoc, List.cons_append, List.nil_append] using hc

/-- The stretches of a stream that starts inside the unit `b`. -/
def stretches (b : Bytes) : List Nalu → List Bytes
  | [] => [b]
  | u :: us => (b ++ pad u.long) :: stretches u.body us

theorem stretches_ne_nil (b : Bytes) (us : List Nalu) : stretches b us ≠ [] := by
  cases us <;> simp [stretches]

theorem cut_serialize : ∀ (us : List Nalu) (b : Bytes), ¬ [0, 0, 1] <:+: b →
    (∀ u ∈ us, EmulationFree u.body) → cut (b ++ serialize us) = stretches b us
  | [], b, hb, _ => by
    rw [serialize_nil, List.append_nil]; exact cut_of_no001 b hb
  | u :: us, b, hb, h => by
    rw [serialize_cons, List.append_assoc, cut_unit b hb, stretches,
      cut_serialize us u.body (h u (by simp)).no001 fun v hv => h v (by simp [hv])]

theorem stripZeros_pad (b : Bytes) (long : Bool) (h : b.getLast? ≠ some 0) :
    stripZeros (b ++ pad long) = b := by
  have hb : stripZeros b = b := by
    refine List.rdropWhile_eq_self_iff.mpr fun hl => ?_
    rw [List.getLast?_eq_some_getLast hl] at h
    simpa using h
  cases long
  · simpa [pad] using hb
  · rw [pad, if_pos rfl, stripZeros, List.rdropWhile_concat_pos _ _ _ (by simp)]; exact hb

theorem stripped_stretches : ∀ (us : List Nalu) (b : Bytes), b.getLast? ≠ some 0 →
    (∀ u ∈ us, EmulationFree u.body) → stripped (stretches b us) = b :: us.map Nalu.body
  | [], b, _, _ => rfl
  | u :: us, b, hb, h => by
    have ih := stripped_stretches us u.body (h u (by simp)).last fun v hv => h v (by simp [hv])
    have hne := stretches_ne_nil u.body us
    unfold stripped at ih ⊢
    rw [stretches, List.dropLast_cons_of_ne_nil hne, List.map_cons, stripZeros_pad b _ hb,
      List.getLast?_cons_of_ne_nil hne, List.cons_append, ih]
    rfl

/-- The splitter undoes the serialisation of emulation-free units. -/
theorem split_serialize (us : List Nalu) (h : ∀ u ∈ us, EmulationFree u.body) :
    split (serialize us) = us.map Nalu.body := by
  have hc := cut_serialize us [] (by simp) h
  have hs := stripped_stretches us [] (by simp) h
  rw [List.nil_append] at hc
  unfold split
  rw [hc, hs]

end Rtmpg.AnnexB
