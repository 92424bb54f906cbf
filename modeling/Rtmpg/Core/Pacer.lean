import Mathlib.Algebra.Order.Group.Int
import Mathlib.Data.List.Chain

/-!
# Working off a queue at the pace of its items

A server takes items from a queue, each with a time `due` of its own, and sends
them: it looks at the next one and at the one behind it, sends the first and
sleeps for what lies between the two. With nothing behind it, or with one of
the same time, it sleeps for what lay between the item before and this one.
With an empty queue it may go and pause; where `holds` allows it, it may be
held up with an item in hand. `rest` is how long it may still sleep. It is not
late: the clock waits until it has done what it can do.

* `Due.move`: the deadline of a queued item never moves, if the times rise and
  nothing is held up: what may still be slept, and the time from the first item
  of the queue to this one.
* `OnTime.move`: of a stream that comes at most `late` behind its own times,
  with no gap longer than `gap`, nothing is ever sent more than
  `late + max gap pause` behind them, and what was `lost`: the time the server
  was held up, and what it slept twice for items of the same time.
* `Move.lost_eq`: nothing is lost if the times rise and nothing is held up.
-/
namespace Rtmpg

/-- `hand` is what the server has slept for and not sent yet; `last` the time of what it sent last. -/
structure Pacer (α : Type) where
  now : Nat
  rest : Nat
  queue : List α
  hand : Option α
  out : List α
  last : Int
  lost : Nat
  deriving DecidableEq, Repr

namespace Pacer

variable {α : Type} {due : α → Int} {pause least gap late : Nat} {holds : Bool} {arrives : Pacer α → α → Prop}
  {v w : Pacer α} {item : α} {deadline : Int}

/-- The sleep for `item`, in front of `behind`. -/
def ahead (due : α → Int) (last : Int) (item : α) : List α → Int
  | [] => due item - last
  | next :: _ => if due item = due next then due next - last else due next - due item

/-- What is slept now and will be slept again for the item behind. -/
def twice (due : α → Int) (last : Int) (item : α) : List α → Nat
  | [] => 0
  | next :: _ => if due item = due next then (due next - last).toNat else 0

inductive Move (due : α → Int) (pause : Nat) (holds : Bool) (arrives : Pacer α → α → Prop) (v : Pacer α) :
    Pacer α → Prop
  | tick : v.hand = none → (v.queue ≠ [] → 0 < v.rest) →
      Move due pause holds arrives v { v with now := v.now + 1, rest := v.rest - 1 }
  | hold : holds = true → v.hand ≠ none →
      Move due pause holds arrives v { v with now := v.now + 1, rest := v.rest - 1, lost := v.lost + 1 }
  | arrive (item : α) : arrives v item → Move due pause holds arrives v { v with queue := v.queue ++ [item] }
  | pause (rest : Nat) : v.queue = [] → rest ≤ pause → Move due pause holds arrives v { v with rest := rest }
  | hurry (rest : Nat) : rest ≤ v.rest → Move due pause holds arrives v { v with rest := rest }
  | sample (item : α) (behind : List α) (rest : Nat) : v.queue = item :: behind → v.hand = none →
      rest ≤ (ahead due v.last item behind).toNat →
      Move due pause holds arrives v { v with
        queue := behind, hand := some item, rest := rest, lost := v.lost + twice due v.last item behind }
  | send (item : α) : v.hand = some item →
      Move due pause holds arrives v { v with hand := none, out := v.out ++ [item], last := due item }

def Moves (due : α → Int) (pause : Nat) (holds : Bool) (arrives : Pacer α → α → Prop) (v w : Pacer α) : Prop :=
  w = v ∨ v.Move due pause holds arrives w

/-! ## One item -/

def Rising (due : α → Int) (items : List α) : Prop := items.Pairwise fun a b => due a < due b

instance (due : α → Int) (items : List α) : Decidable (Rising due items) :=
  inferInstanceAs (Decidable (List.Pairwise _ _))

/-- From the first of the items to `item`. -/
def span (due : α → Int) (items : List α) (item : α) : Int := due item - due (items.head?.getD item)

theorem span_nonneg {items : List α} (h : Rising due (items ++ [item])) : 0 ≤ span due items item := by
  cases items with
  | nil => exact (Int.sub_self (due item)).ge
  | cons first rest =>
    have hlt := List.rel_of_pairwise_cons h (List.mem_append_right rest (List.mem_singleton_self item))
    exact Int.sub_nonneg_of_le hlt.le

inductive Due (due : α → Int) (item : α) (deadline : Int) (v : Pacer α) : Prop
  | out : item ∈ v.out → Due due item deadline v
  | hand : v.hand = some item → v.now ≤ deadline → Due due item deadline v
  | queued (front back : List α) : v.queue = front ++ item :: back → Rising due (front ++ [item]) →
      v.now + (v.rest + span due front item) ≤ deadline → Due due item deadline v

/-- Before it is sent, the deadline is not over. -/
theorem Due.now_le (h : Due due item deadline v) (hout : item ∉ v.out) : v.now ≤ deadline := by
  cases h with
  | out hmem => exact absurd hmem hout
  | hand _ hle => exact hle
  | queued front back _ hrising hle =>
    have hspan := span_nonneg hrising
    omega

/-- The item behind is as far from the deadline as the sleep brings it. -/
theorem ahead_span {first : α} {front : List α} (hrising : Rising due (first :: front ++ [item])) (back : List α)
    (last : Int) :
    (ahead due last first (front ++ item :: back)).toNat + span due front item =
      span due (first :: front) item := by
  have hnext := (List.pairwise_cons.mp hrising).1
  cases front with
  | nil =>
    have hlt := hnext item (List.mem_singleton_self item)
    simp only [List.nil_append, ahead, span, List.head?_nil, List.head?_cons, Option.getD_none, Option.getD_some,
      if_neg hlt.ne]
    omega
  | cons second front =>
    have hlt := hnext second List.mem_cons_self
    simp only [List.cons_append, ahead, span, List.head?_cons, Option.getD_some, if_neg hlt.ne]
    omega

theorem Due.move (hv : Due due item deadline v) (h : v.Move due pause false arrives w) :
    Due due item deadline w := by
  cases hv with
  | out hmem =>
    refine .out ?_
    cases h with
    | send sent _ => exact List.mem_append_left [sent] hmem
    | _ => exact hmem
  | hand hhand hle =>
    cases h with
    | tick hnone _ | sample _ _ _ _ hnone _ =>
      rw [hhand] at hnone
      cases hnone
    | hold hholds _ => cases hholds
    | send sent hsent =>
      obtain rfl : item = sent := Option.some.inj (hhand.symm.trans hsent)
      exact .out (List.mem_append_right _ (List.mem_singleton_self item))
    | arrive | pause | hurry => exact .hand hhand hle
  | queued front back hq hrising hle =>
    have hne : v.queue ≠ [] := by simp [hq]
    cases h with
    | tick _ hsleeps =>
      have hrest := hsleeps hne
      exact .queued front back hq hrising (by dsimp only; omega)
    | hold hholds _ => cases hholds
    | arrive new _ => exact .queued front (back ++ [new]) (by simp [hq]) hrising hle
    | pause _ hnil _ => exact absurd hnil hne
    | hurry rest hrest => exact .queued front back hq hrising (by dsimp only; omega)
    | send => exact .queued front back hq hrising hle
    | sample first behind rest hfirst _ hrest =>
      rw [hq] at hfirst
      cases front with
      | nil =>
        obtain ⟨rfl, rfl⟩ := List.cons.inj hfirst
        have hspan := span_nonneg hrising
        exact .hand rfl (by dsimp only; omega)
      | cons _ front =>
        obtain ⟨rfl, hbehind⟩ : _ ∧ front ++ item :: back = behind := List.cons.inj hfirst
        rw [← hbehind] at hrest
        have hspan := ahead_span hrising back v.last
        exact .queued front back hbehind.symm (List.pairwise_cons.mp hrising).2 (by dsimp only; omega)

theorem Due.moves (hv : Due due item deadline v) (h : Moves due pause false arrives v w) :
    Due due item deadline w := by
  rcases h with rfl | h
  · exact hv
  · exact hv.move h

/-! ## A whole stream -/

/-- One after the other, `least` to `gap` apart, and the first one at most `gap` after 0. -/
structure Spaced (due : α → Int) (least gap : Nat) (items : List α) : Prop where
  first : ∀ item ∈ items.head?, 0 ≤ due item ∧ due item ≤ gap
  next : items.IsChain fun a b => due a + least ≤ due b ∧ due b ≤ due a + gap

instance (due : α → Int) (least gap : Nat) (items : List α) : Decidable (Spaced due least gap items) :=
  decidable_of_iff ((∀ item ∈ items.head?, 0 ≤ due item ∧ due item ≤ gap) ∧
      items.IsChain fun a b => due a + least ≤ due b ∧ due b ≤ due a + gap)
    ⟨fun h => ⟨h.1, h.2⟩, fun h => ⟨h.first, h.next⟩⟩

def items (v : Pacer α) : List α := v.out ++ (v.hand.toList ++ v.queue)

/-- The next item comes at most `late` behind its time. -/
structure Punctual (due : α → Int) (least gap late : Nat) (v : Pacer α) (item : α) : Prop where
  now : v.now ≤ due item + late
  spaced : Spaced due least gap (v.items ++ [item])

structure OnTime (due : α → Int) (pause least gap late : Nat) (v : Pacer α) : Prop where
  spaced : Spaced due least gap v.items
  last : v.last = (v.out.getLast?.map due).getD 0
  hand : ∀ item ∈ v.hand, v.now ≤ due item + (late + max gap pause + v.lost : Nat)
  next : ∀ item ∈ v.queue.head?, v.now + v.rest ≤ due item + (late + max gap pause + v.lost : Nat)
  idle : v.queue = [] → v.rest ≤ max gap pause

theorem Spaced.sorted {items : List α} (h : Spaced due least gap items) :
    items.Pairwise fun a b => due a ≤ due b := by
  have hchain : items.IsChain fun a b => due a ≤ due b := h.next.imp fun a b hab => by omega
  exact List.isChain_iff_pairwise.mp hchain

theorem OnTime.now_le (hv : OnTime due pause least gap late v) (hmem : item ∈ v.items) (hout : item ∉ v.out) :
    v.now ≤ due item + (late + max gap pause + v.lost : Nat) := by
  have hmem := (List.mem_append.mp hmem).resolve_left hout
  rcases List.mem_append.mp hmem with hmem | hmem
  · exact hv.hand item (Option.mem_toList.mp hmem)
  · have hsorted := (List.pairwise_append.mp (List.pairwise_append.mp hv.spaced.sorted).2.1).2.1
    cases hq : v.queue with
    | nil =>
      rw [hq] at hmem
      cases hmem
    | cons first rest =>
      have hle := hv.next first (by rw [hq]; rfl)
      rw [hq] at hmem hsorted
      rcases List.mem_cons.mp hmem with rfl | hmem
      · omega
      · have hfirst := (List.pairwise_cons.mp hsorted).1 item hmem
        omega

/-- With nothing behind it the server sleeps for a gap of the stream. -/
theorem Spaced.sleep_le (hlast : v.last = (v.out.getLast?.map due).getD 0)
    (hv : Spaced due least gap (v.out ++ [item])) : due item - v.last ≤ gap := by
  rw [hlast]
  cases ho : v.out.getLast? with
  | none =>
    rw [List.getLast?_eq_none_iff] at ho
    rw [ho] at hv
    have hfirst := (hv.first item rfl).2
    simp only [Option.map_none, Option.getD_none]
    omega
  | some before =>
    have hnext := (List.isChain_append.mp hv.next).2.2 before ho item rfl
    simp only [Option.map_some, Option.getD_some]
    omega

/-- What is slept for the item in front is slept before the one behind is due, or lost. -/
theorem ahead_le {next : α} (behind : List α) (last : Int) (hle : due item ≤ due next) :
    (ahead due last item (next :: behind)).toNat ≤ due next - due item + twice due last item (next :: behind) := by
  by_cases he : due item = due next
  · simp only [ahead, twice, if_pos he]
    omega
  · simp only [ahead, twice, if_neg he]
    omega

theorem OnTime.move (hv : OnTime due pause least gap late v)
    (h : v.Move due pause holds (Punctual due least gap late) w) : OnTime due pause least gap late w := by
  obtain ⟨hspaced, hlast, hhand, hnext, hidle⟩ := hv
  cases h with
  | tick hnone hsleeps =>
    refine ⟨hspaced, hlast, fun item hmem => ?_, fun item hmem => ?_, fun hnil => ?_⟩
    · dsimp only at hmem
      rw [hnone] at hmem
      cases hmem
    · have hrest := hsleeps (fun hnil => by rw [hnil] at hmem; cases hmem)
      have hle := hnext item hmem
      dsimp only
      omega
    · have hle := hidle hnil
      dsimp only
      omega
  | hold _ _ =>
    refine ⟨hspaced, hlast, fun item hmem => ?_, fun item hmem => ?_, fun hnil => ?_⟩
    · have hle := hhand item hmem
      dsimp only
      omega
    · have hle := hnext item hmem
      dsimp only
      omega
    · have hle := hidle hnil
      dsimp only
      omega
  | arrive item harrives =>
    obtain ⟨hnow, hitems⟩ := harrives
    refine ⟨?_, hlast, hhand, fun first hmem => ?_, fun hnil => absurd hnil (by simp)⟩
    · simpa only [items, List.append_assoc] using hitems
    · cases hq : v.queue with
      | nil =>
        have hrest := hidle hq
        rw [hq] at hmem
        obtain rfl := Option.some.inj hmem
        dsimp only
        omega
      | cons _ _ =>
        refine hnext first ?_
        rw [hq] at hmem ⊢
        exact hmem
  | pause rest hnil hrest =>
    refine ⟨hspaced, hlast, hhand, fun item hmem => ?_, fun _ => hrest.trans (le_max_right _ _)⟩
    dsimp only at hmem
    rw [hnil] at hmem
    cases hmem
  | hurry rest hrest =>
    refine ⟨hspaced, hlast, hhand, fun item hmem => ?_, fun hnil => hrest.trans (hidle hnil)⟩
    have hle := hnext item hmem
    dsimp only
    omega
  | sample item behind rest hq hnone hrest =>
    have hitems : v.items = v.out ++ item :: behind := by
      rw [items, hnone, hq]
      rfl
    rw [hitems] at hspaced
    have hle := hnext item (by rw [hq]; rfl)
    refine ⟨hspaced, hlast, fun taken hmem => ?_, fun next hmem => ?_, fun hnil => ?_⟩
    · obtain rfl := Option.some.inj hmem
      dsimp only
      omega
    · cases behind with
      | nil => cases hmem
      | cons second rest =>
        obtain rfl := Option.some.inj hmem
        have hsorted := (List.pairwise_append.mp hspaced.sorted).2.1
        have hahead := ahead_le rest v.last
          ((List.pairwise_cons.mp hsorted).1 second List.mem_cons_self)
        dsimp only
        omega
    · dsimp only at hnil
      subst hnil
      have hgap := hspaced.sleep_le hlast
      rw [ahead] at hrest
      dsimp only
      omega
  | send item hsent =>
    have hitems : v.items = v.out ++ [item] ++ v.queue := by
      rw [items, hsent, List.append_assoc]
      rfl
    rw [hitems] at hspaced
    exact ⟨hspaced, by simp, nofun, hnext, hidle⟩

theorem OnTime.moves (hv : OnTime due pause least gap late v)
    (h : Moves due pause holds (Punctual due least gap late) v w) : OnTime due pause least gap late w := by
  rcases h with rfl | h
  · exact hv
  · exact hv.move h

/-- With times that rise nothing is slept twice. -/
theorem Move.lost_eq (hv : Spaced due least gap v.items) (hleast : 0 < least)
    (h : v.Move due pause false arrives w) : w.lost = v.lost := by
  cases h with
  | hold hholds _ => cases hholds
  | sample item behind rest hq hnone hrest =>
    cases behind with
    | nil => rfl
    | cons next behind =>
      have hitems : v.items = v.out ++ item :: next :: behind := by
        rw [items, hnone, hq]
        rfl
      rw [hitems] at hv
      have hnext := (List.isChain_cons_cons.mp (List.isChain_append.mp hv.next).2.1).1
      have hne : due item ≠ due next := by omega
      simp only [twice, if_neg hne, Nat.add_zero]
  | _ => rfl

theorem Moves.lost_eq (hv : Spaced due least gap v.items) (hleast : 0 < least)
    (h : Moves due pause false arrives v w) : w.lost = v.lost := by
  rcases h with rfl | h
  · rfl
  · exact h.lost_eq hv hleast

end Pacer

end Rtmpg
