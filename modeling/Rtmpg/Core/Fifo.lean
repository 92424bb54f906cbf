import Mathlib.Tactic.Common

/-!
# Hand-over through a queue

One consumer takes from a queue and hands on what it took.
`Fifo accepted out hand queue`: everything accepted is out, in the consumer's
hand or queued, in that order. `Lossy`: the same up to items that were
dropped. Each rule is one step of such a hand-over; `prefix_accepted` and
`sublist_accepted` are what they are for.
-/
namespace Rtmpg

variable {α : Type} {accepted out hand queue : List α}

def Fifo (accepted out hand queue : List α) : Prop := accepted = out ++ hand ++ queue

def Lossy (accepted out hand queue : List α) : Prop := (out ++ hand ++ queue).Sublist accepted

namespace Fifo

theorem add (h : Fifo accepted out hand queue) (l : List α) :
    Fifo (accepted ++ l) out hand (queue ++ l) := by
  rw [Fifo, ← List.append_assoc, ← show accepted = out ++ hand ++ queue from h]

theorem take {l : List α} (h : Fifo accepted out [] (l ++ queue)) : Fifo accepted out l queue := by
  rw [Fifo, List.append_nil, ← List.append_assoc] at h
  exact h

theorem deliver (h : Fifo accepted out hand queue) : Fifo accepted (out ++ hand) [] queue := by
  rw [Fifo, List.append_nil]
  exact h

theorem prefix_accepted (h : Fifo accepted out hand queue) : out <+: accepted :=
  ⟨hand ++ queue, by rw [← List.append_assoc]; exact h.symm⟩

end Fifo

namespace Lossy

theorem add (h : Lossy accepted out hand queue) (l : List α) :
    Lossy (accepted ++ l) out hand (queue ++ l) := by
  rw [Lossy, ← List.append_assoc]
  exact h.append (List.Sublist.refl l)

theorem skip (h : Lossy accepted out hand queue) (l : List α) : Lossy (accepted ++ l) out hand queue :=
  h.trans (List.sublist_append_left accepted l)

theorem drop {l : List α} (h : Lossy accepted out hand (l ++ queue)) : Lossy accepted out hand queue :=
  ((List.sublist_append_right l queue).append_left (out ++ hand)).trans h

theorem take {l : List α} (h : Lossy accepted out [] (l ++ queue)) : Lossy accepted out l queue := by
  rw [Lossy, List.append_nil, ← List.append_assoc] at h
  exact h

theorem deliver (h : Lossy accepted out hand queue) : Lossy accepted (out ++ hand) [] queue := by
  rw [Lossy, List.append_nil]
  exact h

theorem sublist_accepted (h : Lossy accepted out hand queue) : out.Sublist accepted :=
  ((List.sublist_append_left _ _).trans (List.sublist_append_left _ _)).trans h

end Lossy

end Rtmpg
