import Mathlib.Data.List.Basic

/-!
# A bounded first-in first-out queue

The abstract queue is the list of the items it holds, oldest first.  A write
takes as many of the offered items as there is room for, a read hands out as
many of the oldest items as asked for and present, and both report how many.

`run_conserves` is the law every such queue obeys: whatever has been accepted
is what has been read followed by what is still queued, in one order.
-/

namespace BoundedQueue

variable {α : Type*}

/-- What a client can do with a queue. -/
inductive Op (α : Type*) where
  /-- Offer these items, in this order. -/
  | write (xs : List α)
  /-- Ask for at most `n` items. -/
  | read (n : Nat)
deriving DecidableEq, Repr

/-- What the client is told. -/
inductive Reply (α : Type*) where
  /-- The number of items taken. -/
  | wrote (n : Nat)
  /-- The number of items handed out, and the items. -/
  | got (n : Nat) (xs : List α)
deriving DecidableEq, Repr

/-- One operation on a queue with room for `capacity` items. -/
def answer (capacity : Nat) (q : List α) : Op α → Reply α × List α
  | .write xs =>
      let k := min xs.length (capacity - q.length)
      (.wrote k, q ++ xs.take k)
  | .read n => (.got (min n q.length) (q.take n), q.drop n)

/-- A sequence of operations, with the replies in order. -/
def run (capacity : Nat) (q : List α) : List (Op α) → List (Reply α) × List α
  | [] => ([], q)
  | op :: ops =>
      let r := answer capacity q op
      let rest := run capacity r.2 ops
      (r.1 :: rest.1, rest.2)

/-- The items that the replies say have been taken. -/
def accepted : List (Op α) → List (Reply α) → List α
  | .write xs :: ops, .wrote n :: rs => xs.take n ++ accepted ops rs
  | _ :: ops, _ :: rs => accepted ops rs
  | _, _ => []

/-- The items that the replies hand out. -/
def handedOut : List (Reply α) → List α
  | [] => []
  | .wrote _ :: rs => handedOut rs
  | .got _ xs :: rs => xs ++ handedOut rs

/-- What was queued at first and what has been accepted since is what has been
handed out and what is queued now. -/
theorem run_conserves (capacity : Nat) (q : List α) (ops : List (Op α)) :
    q ++ accepted ops (run capacity q ops).1 =
      handedOut (run capacity q ops).1 ++ (run capacity q ops).2 := by
  induction ops generalizing q with
  | nil => simp [run, accepted, handedOut]
  | cons op ops ih =>
      cases op with
      | write xs =>
          simp only [run, answer, accepted, handedOut]
          rw [← ih, List.append_assoc]
      | read n =>
          simp only [run, answer, accepted, handedOut]
          rw [List.append_assoc, ← ih (q.drop n), ← List.append_assoc, List.take_append_drop]

/-- An implementation of a queue: one operation, or `none` where it breaks. -/
abbrev Implementation (σ α : Type*) := σ → Op α → Option (Reply α × σ)

/-- A sequence of operations on an implementation. -/
def Implementation.run {σ : Type*} (impl : Implementation σ α) (s : σ) :
    List (Op α) → Option (List (Reply α) × σ)
  | [] => some ([], s)
  | op :: ops =>
      match impl s op with
      | none => none
      | some r => (Implementation.run impl r.2 ops).map fun rest => (r.1 :: rest.1, rest.2)

/-- `R` ties the states of an implementation to the queues they stand for:
every operation succeeds, replies as the queue does and ends in a state that
stands for the queue's next value. -/
def Refines {σ : Type*} (impl : Implementation σ α) (capacity : Nat) (R : σ → List α → Prop) :
    Prop :=
  ∀ s q op, R s q →
    ∃ s', impl s op = some ((answer capacity q op).1, s') ∧ R s' (answer capacity q op).2

/-- A refinement of single operations is one of whole runs. -/
theorem Refines.run {σ : Type*} {impl : Implementation σ α} {capacity : Nat}
    {R : σ → List α → Prop} (refines : Refines impl capacity R) (ops : List (Op α)) :
    ∀ {s : σ} {q : List α}, R s q →
      ∃ s', impl.run s ops = some ((run capacity q ops).1, s') ∧ R s' (run capacity q ops).2 := by
  induction ops with
  | nil =>
      intro s q h
      exact ⟨s, rfl, h⟩
  | cons op ops ih =>
      intro s q h
      obtain ⟨s₁, hstep, h₁⟩ := refines s q op h
      obtain ⟨s₂, hrest, h₂⟩ := ih h₁
      refine ⟨s₂, ?_, h₂⟩
      simp only [Implementation.run, hstep, hrest, Option.map_some, BoundedQueue.run]

end BoundedQueue
