import Mathlib.Data.List.Basic
import Mathlib.Data.List.Infix
import Mathlib.Data.List.TakeDrop

/-!
# Broadcast channels

A broadcast channel keeps the last `capacity` of the values that were sent to it, and every receiver
has a position of its own.  A receiver that is further behind than the capacity is told how many
values it has missed, and goes on with the oldest one that is left.

The values that the channel ever had are a list here, of which the ring is the end.  `Receiver.Inv`
says which of them a receiver has heard.
-/

namespace Vaiexia.Lib

/-- What a receiver is given. -/
inductive Recv (α : Type*) where
  | empty
  | lagged (missed : Nat)
  | value (a : α)

/-- A receiver: the position of what it is given next; and where it began, what it was given and how
many values it was told to have missed, which only the proofs look at. -/
structure Receiver (α : Type*) where
  next : Nat
  begun : Nat
  heard : List α
  missed : Nat

namespace Receiver

variable {α : Type*} {capacity : Nat} {stored : List α} {rcv rcv' : Receiver α}

/-- A receiver that subscribes begins behind everything that is there. -/
def subscribe (stored : List α) : Receiver α where
  next := stored.length
  begun := stored.length
  heard := []
  missed := 0

/-- The receiver goes on behind the values that are not in the ring any more. -/
def skip (capacity : Nat) (stored : List α) (rcv : Receiver α) : Receiver α :=
  { rcv with
    next := stored.length - capacity
    missed := rcv.missed + (stored.length - capacity - rcv.next) }

/-- The receiver is given a value. -/
def hear (a : α) (rcv : Receiver α) : Receiver α :=
  { rcv with
    next := rcv.next + 1
    heard := rcv.heard ++ [a] }

/-- One call of `recv`, and what it leaves. -/
def recv (capacity : Nat) (stored : List α) (rcv : Receiver α) : Recv α × Receiver α :=
  if rcv.next + capacity < stored.length then
    (.lagged (stored.length - capacity - rcv.next), rcv.skip capacity stored)
  else
    match stored[rcv.next]? with
    | some a => (.value a, rcv.hear a)
    | none => (.empty, rcv)

/-- The ring still has what the receiver is given next. -/
def KeepsUp (capacity : Nat) (stored : List α) (rcv : Receiver α) : Prop :=
  stored.length ≤ rcv.next + capacity

/-- What a call of `recv` can do. -/
theorem recv_cases (capacity : Nat) (stored : List α) (rcv : Receiver α) :
    (∃ a, stored[rcv.next]? = some a ∧ rcv.KeepsUp capacity stored ∧
      rcv.recv capacity stored = (.value a, rcv.hear a)) ∨
    (stored.length ≤ rcv.next ∧ rcv.recv capacity stored = (.empty, rcv)) ∨
    (rcv.next + capacity < stored.length ∧ rcv.recv capacity stored
      = (.lagged (stored.length - capacity - rcv.next), rcv.skip capacity stored)) := by
  unfold recv
  by_cases hlag : rcv.next + capacity < stored.length
  · exact .inr (.inr ⟨hlag, if_pos hlag⟩)
  · rw [if_neg hlag]
    cases hget : stored[rcv.next]? with
    | some a => exact .inl ⟨a, rfl, Nat.le_of_not_lt hlag, rfl⟩
    | none => exact .inr (.inl ⟨List.getElem?_eq_none_iff.mp hget, rfl⟩)

/-- What is left for a receiver begins with the value it is given. -/
theorem drop_eq_cons {a : α} (h : stored[rcv.next]? = some a) :
    stored.drop rcv.next = a :: stored.drop (rcv.hear a).next := by
  obtain ⟨hlt, hget⟩ := List.getElem?_eq_some_iff.mp h
  rw [List.drop_eq_getElem_cons hlt, hget]
  rfl

/-- The values before the next position, with the one that is there. -/
theorem take_hear {a : α} (h : stored[rcv.next]? = some a) :
    stored.take (rcv.hear a).next = stored.take rcv.next ++ [a] := by
  obtain ⟨hlt, hget⟩ := List.getElem?_eq_some_iff.mp h
  rw [show (rcv.hear a).next = rcv.next + 1 from rfl, List.take_succ_eq_append_getElem hlt, hget]

/-- What a receiver has heard of the values that the channel had. -/
structure Inv (stored : List α) (rcv : Receiver α) : Prop where
  begun_le : rcv.begun ≤ rcv.next
  next_le : rcv.next ≤ stored.length
  heard : rcv.heard.Sublist ((stored.take rcv.next).drop rcv.begun)
  count : rcv.begun + rcv.heard.length + rcv.missed = rcv.next

namespace Inv

theorem subscribe (stored : List α) : Inv stored (subscribe stored) where
  begun_le := Nat.le_refl _
  next_le := Nat.le_refl _
  heard := List.nil_sublist _
  count := rfl

/-- Nothing that is sent changes what was heard. -/
theorem append (h : rcv.Inv stored) (more : List α) : rcv.Inv (stored ++ more) where
  begun_le := h.begun_le
  next_le := by
    rw [List.length_append]
    exact Nat.le_trans h.next_le (Nat.le_add_right _ _)
  heard := by
    rw [List.take_append_of_le_length h.next_le]
    exact h.heard
  count := h.count

theorem hear {a : α} (h : rcv.Inv stored) (hget : stored[rcv.next]? = some a) :
    (rcv.hear a).Inv stored where
  begun_le := Nat.le_succ_of_le h.begun_le
  next_le := (List.getElem?_eq_some_iff.mp hget).1
  heard := by
    have hlen : rcv.begun ≤ (stored.take rcv.next).length := by
      rw [List.length_take, Nat.min_eq_left h.next_le]
      exact h.begun_le
    show (rcv.heard ++ [a]).Sublist ((stored.take (rcv.hear a).next).drop rcv.begun)
    rw [take_hear hget, List.drop_append_of_le_length hlen]
    exact h.heard.append (List.Sublist.refl [a])
  count := by
    have hcount := h.count
    simp only [Receiver.hear, List.length_append, List.length_singleton]
    omega

theorem skip (h : rcv.Inv stored) (hlag : rcv.next + capacity < stored.length) :
    (rcv.skip capacity stored).Inv stored where
  begun_le := by
    have hle := h.begun_le
    show rcv.begun ≤ stored.length - capacity
    omega
  next_le := Nat.sub_le _ _
  heard := by
    refine h.heard.trans (List.Sublist.drop ?_ _)
    exact List.take_sublist_take_left (by
      show rcv.next ≤ stored.length - capacity
      omega)
  count := by
    have hcount := h.count
    simp only [Receiver.skip]
    omega

/-- A call of `recv` keeps the invariant. -/
theorem recv (h : rcv.Inv stored) (capacity : Nat) : (rcv.recv capacity stored).2.Inv stored := by
  rcases recv_cases capacity stored rcv with ⟨a, hget, -, heq⟩ | ⟨-, heq⟩ | ⟨hlag, heq⟩
  · rw [heq]
    exact h.hear hget
  · rw [heq]
    exact h
  · rw [heq]
    exact h.skip hlag

end Inv

end Receiver

end Vaiexia.Lib
