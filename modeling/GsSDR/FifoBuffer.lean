import GsSDR.Lib.BoundedQueue
import GsSDR.Lib.Ring
import Mathlib.Algebra.Ring.Nat

/-!
# The ring buffer of records

`fifo_buffer` keeps records in an array of `fifoSize` cells between two
indices.  The next record is written at `fifoHead` and read at `fifoTail`.
The buffer is empty when the two are equal and full when one more write would
make them equal, so it holds at most `fifoSize - 1` records.

The first part follows `fifo_buffer.cc`.  An access outside the array has no
meaning there, so the operations return `none` for it.  The second part ties
the indices to the list of the records between them (`Represents`) and shows
that both operations are those of a bounded queue (`fifo_refines`).  Every
operation holds `fp_mutex` from its first to its last access, so an
interleaving of callers is a sequence of operations.

`FifoBuffer` packs a buffer with the queue it stands for.  It is what the
blocks that own a buffer use.
-/

namespace GsSDR

open BoundedQueue (Op Reply)

variable {α : Type*}

/-! ## The source -/

/-- `struct fifo_t`.  (`fifoMask` is set once and never read.) -/
structure FifoT (α : Type*) where
  /-- The array behind `fifoBufferStorage`. -/
  fifoBufferStorage : List α
  /-- Where the next record is written. -/
  fifoHead : Nat
  /-- Where the next record is read. -/
  fifoTail : Nat
  /-- The number of cells. -/
  fifoSize : Nat
deriving DecidableEq, Repr

/-- `x + 1` for a `uint`. -/
def uintSucc (x : Nat) : Nat := (x + 1) % 2 ^ 32

/-- `fifo_init`. -/
def fifoInit (buffStorage : List α) (bufferSize : Nat) : FifoT α where
  fifoBufferStorage := buffStorage
  fifoHead := 0
  fifoTail := 0
  fifoSize := bufferSize

/-- `fifo_changeSize`: a new array of default records. -/
def fifoChangeSize [Inhabited α] (bufferSize : Nat) : FifoT α :=
  fifoInit (List.replicate bufferSize default) bufferSize

/-- The overflow test of `fifo_write_storage`. -/
def FifoT.full (f : FifoT α) : Bool :=
  uintSucc f.fifoHead == f.fifoTail ||
    (uintSucc f.fifoHead == f.fifoSize && f.fifoTail == 0)

/-- An index after `++` and the comparison with the size that wraps it. -/
def FifoT.bump (f : FifoT α) (i : Nat) : Nat :=
  if uintSucc i = f.fifoSize then 0 else uintSucc i

/-- The loop of `fifo_write_storage`, with `j` records written and the list
still to write. -/
def fifoWriteLoop (f : FifoT α) : List α → Nat → Option (Nat × FifoT α)
  | [], j => some (j, f)
  | x :: xs, j =>
      if f.full then some (j, f)
      else if f.fifoHead < f.fifoBufferStorage.length then
        fifoWriteLoop
          { f with
            fifoBufferStorage := f.fifoBufferStorage.set f.fifoHead x
            fifoHead := f.bump f.fifoHead } xs (j + 1)
      else none

/-- `fifo_write_storage`: the number of records written. -/
def fifoWriteStorage (f : FifoT α) (buffStorage : List α) : Option (Nat × FifoT α) :=
  fifoWriteLoop f buffStorage 0

/-- The loop of `fifo_read_storage`, with `j` records read and at most this
many still to read. -/
def fifoReadLoop (f : FifoT α) : Nat → Nat → Option (Nat × List α × FifoT α)
  | 0, j => some (j, [], f)
  | n + 1, j =>
      if f.fifoHead = f.fifoTail then some (j, [], f)
      else
        match f.fifoBufferStorage[f.fifoTail]? with
        | none => none
        | some x =>
            (fifoReadLoop { f with fifoTail := f.bump f.fifoTail } n (j + 1)).map
              fun r => (r.1, x :: r.2.1, r.2.2)

/-- `fifo_read_storage`: the number of records read, and the records that the
caller's array gets from its first place on. -/
def fifoReadStorage (f : FifoT α) (nStorage : Nat) : Option (Nat × List α × FifoT α) :=
  fifoReadLoop f nStorage 0

/-- The two operations, as an implementation of a queue. -/
def fifoImpl : BoundedQueue.Implementation (FifoT α) α := fun f op =>
  match op with
  | .write xs => (fifoWriteStorage f xs).map fun r => (.wrote r.1, r.2)
  | .read n => (fifoReadStorage f n).map fun r => (.got r.1 r.2.1, r.2.2)

/-! ## What the indices stand for -/

/-- The records between the indices of `f` are `q`, oldest first. -/
structure Represents (f : FifoT α) (q : List α) : Prop where
  /-- The array has the size the indices wrap at. -/
  cells : f.fifoBufferStorage.length = f.fifoSize
  /-- `fifoSize` fits an `int`, so no index arithmetic overflows. -/
  size_lt : f.fifoSize < 2 ^ 31
  /-- One cell stays free. -/
  room : q.length < f.fifoSize
  /-- Reads are in range. -/
  tail_lt : f.fifoTail < f.fifoSize
  /-- The head is the cell behind the records. -/
  head_eq : f.fifoHead = Ring.slot f.fifoSize f.fifoTail q.length
  /-- The records are in the cells from the tail on. -/
  window : Ring.Window f.fifoBufferStorage f.fifoTail q

namespace Represents

variable {f : FifoT α} {q : List α}

/-- Writes are in range. -/
theorem head_lt (h : Represents f q) : f.fifoHead < f.fifoSize := by
  rw [h.head_eq]
  exact Ring.slot_lt h.tail_lt h.room

theorem uintSucc_eq (h : Represents f q) {i : Nat} (hi : i < f.fifoSize) :
    uintSucc i = i + 1 := by
  have := h.size_lt
  exact Nat.mod_eq_of_lt (by omega)

theorem bump_eq (h : Represents f q) {i : Nat} (hi : i < f.fifoSize) :
    f.bump i = Ring.next f.fifoSize i := by
  rw [FifoT.bump, h.uintSucc_eq hi, Ring.next]

/-- The overflow test says that all cells but one are taken. -/
theorem full_iff (h : Represents f q) : f.full = true ↔ q.length + 1 = f.fifoSize := by
  have hroom := h.room
  have htail := h.tail_lt
  rw [FifoT.full, h.uintSucc_eq h.head_lt, h.head_eq]
  simp only [Bool.or_eq_true, Bool.and_eq_true, beq_iff_eq]
  rw [Ring.slot]
  split <;> omega

/-- The underflow test says that there is no record. -/
theorem empty_iff (h : Represents f q) : f.fifoHead = f.fifoTail ↔ q = [] := by
  have hroom := h.room
  have htail := h.tail_lt
  rw [h.head_eq, ← List.length_eq_zero_iff]
  rw [Ring.slot]
  split <;> omega

/-- A buffer that has just been given an array is empty. -/
theorem init {storage : List α} {size : Nat} (hlen : storage.length = size)
    (hpos : 1 ≤ size) (hlt : size < 2 ^ 31) : Represents (fifoInit storage size) [] where
  cells := hlen
  size_lt := hlt
  room := hpos
  tail_lt := hpos
  head_eq := Eq.symm (Ring.slot_zero hpos)
  window := Ring.window_nil _ _

/-- One record written at the head. -/
theorem write (h : Represents f q) (hroom : q.length + 1 < f.fifoSize) (x : α) :
    Represents
      { f with
        fifoBufferStorage := f.fifoBufferStorage.set f.fifoHead x
        fifoHead := f.bump f.fifoHead } (q ++ [x]) where
  cells := by simpa using h.cells
  size_lt := h.size_lt
  room := by simpa using hroom
  tail_lt := h.tail_lt
  head_eq := by
    simp only [h.bump_eq h.head_lt, List.length_append, List.length_singleton]
    rw [h.head_eq, Ring.next_slot h.tail_lt h.room]
  window := by
    have hw := h.window.push (h.cells ▸ h.tail_lt) (h.cells ▸ h.room) x
    rwa [h.cells, ← h.head_eq] at hw

/-- One record read at the tail. -/
theorem read {x : α} (h : Represents f (x :: q)) :
    Represents { f with fifoTail := f.bump f.fifoTail } q where
  cells := h.cells
  size_lt := h.size_lt
  room := by
    have := h.room
    simp only [List.length_cons] at this
    exact Nat.lt_of_succ_lt this
  tail_lt := by
    simp only [h.bump_eq h.tail_lt]
    exact Ring.next_lt h.tail_lt
  head_eq := by
    have hroom := h.room
    simp only [List.length_cons] at hroom
    simp only [h.bump_eq h.tail_lt]
    rw [Ring.slot_next_start hroom]
    exact h.head_eq
  window := by
    have hw := h.window.pop (h.cells ▸ h.room)
    simp only [h.bump_eq h.tail_lt]
    rwa [h.cells] at hw

end Represents

/-! ## The operations -/

/-- The write loop takes the records there is room for. -/
theorem fifoWriteLoop_spec : ∀ (xs : List α) {f : FifoT α} {q : List α} (j : Nat),
    Represents f q →
    ∃ f', fifoWriteLoop f xs j = some (j + min xs.length (f.fifoSize - 1 - q.length), f') ∧
      f'.fifoSize = f.fifoSize ∧ Represents f' (q ++ xs.take (f.fifoSize - 1 - q.length))
  | [], f, q, j, h => ⟨f, by simp [fifoWriteLoop], rfl, by simpa using h⟩
  | x :: xs, f, q, j, h => by
      rw [fifoWriteLoop]
      by_cases hfull : f.full = true
      · have hnone : f.fifoSize - 1 - q.length = 0 := by
          have := h.full_iff.mp hfull
          omega
        rw [if_pos hfull, hnone]
        exact ⟨f, by simp, rfl, by simpa using h⟩
      · have hroom : q.length + 1 < f.fifoSize := by
          have h1 := h.room
          have h2 := mt h.full_iff.mpr hfull
          omega
        rw [if_neg hfull, if_pos (h.cells ▸ h.head_lt)]
        obtain ⟨f', hloop, hsize, hrep⟩ := fifoWriteLoop_spec xs (j + 1) (h.write hroom x)
        refine ⟨f', ?_, hsize, ?_⟩
        · rw [hloop]
          simp only [List.length_append, List.length_cons, List.length_nil, Option.some.injEq,
            Prod.mk.injEq, and_true]
          omega
        · have hsucc : f.fifoSize - 1 - q.length = (f.fifoSize - 1 - (q.length + 1)) + 1 := by
            omega
          rw [hsucc, List.take_succ_cons]
          simpa [List.append_assoc] using hrep

/-- The read loop hands out the oldest records there are. -/
theorem fifoReadLoop_spec : ∀ (n : Nat) {f : FifoT α} {q : List α} (j : Nat),
    Represents f q →
    ∃ f', fifoReadLoop f n j = some (j + min n q.length, q.take n, f') ∧
      f'.fifoSize = f.fifoSize ∧ Represents f' (q.drop n)
  | 0, f, q, j, h => ⟨f, by simp [fifoReadLoop], rfl, by simpa using h⟩
  | n + 1, f, q, j, h => by
      rw [fifoReadLoop]
      cases q with
      | nil =>
          rw [if_pos (h.empty_iff.mpr rfl)]
          exact ⟨f, by simp, rfl, by simpa using h⟩
      | cons x q =>
          rw [if_neg (mt h.empty_iff.mp (by simp)), h.window.head (h.cells ▸ h.tail_lt)]
          obtain ⟨f', hloop, hsize, hrep⟩ := fifoReadLoop_spec n (j + 1) h.read
          refine ⟨f', ?_, hsize, ?_⟩
          · simp only [hloop, Option.map_some, List.take_succ_cons, List.length_cons,
              Option.some.injEq, Prod.mk.injEq, and_true]
            omega
          · simpa using hrep

/-- The buffer is a queue with one place less than it has cells. -/
theorem fifo_refines (size : Nat) :
    BoundedQueue.Refines (fifoImpl (α := α)) (size - 1)
      (fun f q => f.fifoSize = size ∧ Represents f q) := by
  rintro f q op ⟨rfl, h⟩
  cases op with
  | write xs =>
      obtain ⟨f', hloop, hsize, hrep⟩ := fifoWriteLoop_spec xs 0 h
      refine ⟨f', ?_, hsize, ?_⟩
      · simp [fifoImpl, fifoWriteStorage, hloop, BoundedQueue.answer]
      · rwa [List.take_eq_take_min, Nat.min_comm] at hrep
  | read n =>
      obtain ⟨f', hloop, hsize, hrep⟩ := fifoReadLoop_spec n 0 h
      refine ⟨f', ?_, hsize, ?_⟩
      · simp [fifoImpl, fifoReadStorage, hloop, BoundedQueue.answer]
      · simpa [BoundedQueue.answer] using hrep

/-- From a buffer just given an array of `size` cells, every sequence of writes
and reads stays in the array, replies as a queue of `size - 1` places does and
ends with that queue between its indices; and what was accepted is what was
read followed by what is queued. -/
theorem fifo_runs_as_queue (size : Nat) (hpos : 1 ≤ size) (hlt : size < 2 ^ 31)
    (storage : List α) (hlen : storage.length = size) (ops : List (Op α)) :
    ∃ f replies q,
      fifoImpl.run (fifoInit storage size) ops = some (replies, f) ∧
      BoundedQueue.run (size - 1) [] ops = (replies, q) ∧
      BoundedQueue.accepted ops replies = BoundedQueue.handedOut replies ++ q ∧
      Represents f q ∧ f.fifoHead < size ∧ f.fifoTail < size := by
  obtain ⟨f, hrun, hsize, hrep⟩ := (fifo_refines (α := α) size).run ops
    (s := fifoInit storage size) (q := []) ⟨rfl, Represents.init hlen hpos hlt⟩
  refine ⟨f, _, _, hrun, rfl, ?_, hrep, hsize ▸ hrep.head_lt, hsize ▸ hrep.tail_lt⟩
  simpa using BoundedQueue.run_conserves (size - 1) [] ops

/-- A buffer of four cells takes three of the four records offered, hands out
two, and takes two more across the end of the array. -/
theorem fifo_runs_as_queue_wrapping :
    ∃ f replies q,
      fifoImpl.run (fifoInit [0, 0, 0, 0] 4)
          [.write [1, 2, 3, 4], .read 2, .write [5, 6], .read 9] =
        some (replies, f) ∧
      BoundedQueue.run 3 [] [.write [1, 2, 3, 4], .read 2, .write [5, 6], .read 9] =
        (replies, q) ∧
      BoundedQueue.accepted [.write [1, 2, 3, 4], .read 2, .write [5, 6], .read 9] replies =
        BoundedQueue.handedOut replies ++ q ∧
      Represents f q ∧ f.fifoHead < 4 ∧ f.fifoTail < 4 :=
  fifo_runs_as_queue 4 (by decide) (by decide) [0, 0, 0, 0] rfl
    [.write [1, 2, 3, 4], .read 2, .write [5, 6], .read 9]

/-! ## The buffer a block owns -/

/-- A buffer with the queue it stands for. -/
structure FifoBuffer (α : Type*) where
  fifo : FifoT α
  queue : List α
  holds : Represents fifo queue

namespace FifoBuffer

/-- A buffer of `size` cells after `fifo_changeSize(size)`. -/
def changeSize [Inhabited α] (size : Nat) (hpos : 1 ≤ size) (hlt : size < 2 ^ 31) :
    FifoBuffer α :=
  ⟨fifoChangeSize size, [], Represents.init (List.length_replicate ..) hpos hlt⟩

/-- `fifo_write_storage`, which cannot leave the array. -/
def write (b : FifoBuffer α) (xs : List α) : Nat × FifoBuffer α :=
  match h : fifoWriteStorage b.fifo xs with
  | some (n, f) => (n, ⟨f, b.queue ++ xs.take (b.fifo.fifoSize - 1 - b.queue.length), by
      obtain ⟨f', hloop, _, hrep⟩ := fifoWriteLoop_spec xs 0 b.holds
      rw [fifoWriteStorage, hloop] at h
      cases h
      exact hrep⟩)
  | none => absurd h (by
      obtain ⟨f', hloop, _⟩ := fifoWriteLoop_spec xs 0 b.holds
      rw [fifoWriteStorage, hloop]
      exact Option.some_ne_none _)

/-- `fifo_read_storage`, which cannot leave the array. -/
def read (b : FifoBuffer α) (n : Nat) : Nat × List α × FifoBuffer α :=
  match h : fifoReadStorage b.fifo n with
  | some (k, xs, f) => (k, xs, ⟨f, b.queue.drop n, by
      obtain ⟨f', hloop, _, hrep⟩ := fifoReadLoop_spec n 0 b.holds
      rw [fifoReadStorage, hloop] at h
      cases h
      exact hrep⟩)
  | none => absurd h (by
      obtain ⟨f', hloop, _⟩ := fifoReadLoop_spec n 0 b.holds
      rw [fifoReadStorage, hloop]
      exact Option.some_ne_none _)

/-- A write takes the records there is room for. -/
theorem write_spec (b : FifoBuffer α) (xs : List α) :
    (b.write xs).1 = min xs.length (b.fifo.fifoSize - 1 - b.queue.length) ∧
      (b.write xs).2.queue = b.queue ++ xs.take (b.fifo.fifoSize - 1 - b.queue.length) := by
  obtain ⟨f', hloop, _⟩ := fifoWriteLoop_spec xs 0 b.holds
  rw [Nat.zero_add] at hloop
  rw [write]
  split
  next n f h =>
    rw [fifoWriteStorage, hloop] at h
    cases h
    exact ⟨rfl, rfl⟩
  next h =>
    rw [fifoWriteStorage, hloop] at h
    cases h

/-- A read hands out the oldest records there are. -/
theorem read_spec (b : FifoBuffer α) (n : Nat) :
    (b.read n).1 = min n b.queue.length ∧ (b.read n).2.1 = b.queue.take n ∧
      (b.read n).2.2.queue = b.queue.drop n := by
  obtain ⟨f', hloop, _⟩ := fifoReadLoop_spec n 0 b.holds
  rw [Nat.zero_add] at hloop
  rw [read]
  split
  next k xs f h =>
    rw [fifoReadStorage, hloop] at h
    cases h
    exact ⟨rfl, rfl, rfl⟩
  next h =>
    rw [fifoReadStorage, hloop] at h
    cases h

/-- No operation changes the number of cells. -/
theorem write_fifoSize (b : FifoBuffer α) (xs : List α) :
    (b.write xs).2.fifo.fifoSize = b.fifo.fifoSize := by
  obtain ⟨f', hloop, hsize, _⟩ := fifoWriteLoop_spec xs 0 b.holds
  rw [write]
  split
  next n f h =>
    rw [fifoWriteStorage, hloop] at h
    cases h
    exact hsize
  next h =>
    rw [fifoWriteStorage, hloop] at h
    cases h

theorem read_fifoSize (b : FifoBuffer α) (n : Nat) :
    (b.read n).2.2.fifo.fifoSize = b.fifo.fifoSize := by
  obtain ⟨f', hloop, hsize, _⟩ := fifoReadLoop_spec n 0 b.holds
  rw [read]
  split
  next k xs f h =>
    rw [fifoReadStorage, hloop] at h
    cases h
    exact hsize
  next h =>
    rw [fifoReadStorage, hloop] at h
    cases h

/-- One record is taken whole or not at all. -/
theorem write_singleton (b : FifoBuffer α) (x : α) :
    ((b.write [x]).1 = 1 ∧ (b.write [x]).2.queue = b.queue ++ [x]) ∨
      ((b.write [x]).1 = 0 ∧ (b.write [x]).2.queue = b.queue) := by
  obtain ⟨hcount, hqueue⟩ := b.write_spec [x]
  cases hroom : b.fifo.fifoSize - 1 - b.queue.length with
  | zero =>
      rw [hroom] at hcount hqueue
      exact .inr ⟨by simpa using hcount, by simpa using hqueue⟩
  | succ k =>
      rw [hroom] at hcount hqueue
      exact .inl ⟨by simpa using hcount, by simpa using hqueue⟩

end FifoBuffer

end GsSDR
