import GsSDR.FifoBuffer
import Mathlib.Data.Nat.ModEq

/-!
# All calls of a ring buffer

A `fifo_buffer` can be given a new array at any time, and it tells its indices.

What it does is that of a log (`Log`): the records accepted since the last new array, the
number of them that have been read, and no indices.  The two indices are the numbers of
records written and read, counted around the array.  An access outside the array comes
exactly with a write of records to an array of no cells (`calls_follow`).
-/

namespace GsSDR

namespace Fifo

variable {α : Type*}

/-! ## The source -/

/-- The public functions.  The constructor does what `fifo_changeSize` does. -/
inductive Call (α : Type*) where
  | changeSize (bufferSize : Nat)
  | write (buffStorage : List α)
  | read (nStorage : Nat)
  | getFifoHead
  | getFifoTail
  | getFifoSize
deriving DecidableEq, Repr

/-- What a caller gets. -/
inductive Answer (α : Type*) where
  | done
  | wrote (n : Nat)
  | got (n : Nat) (xs : List α)
  | value (n : Nat)
deriving DecidableEq, Repr

/-- One call, or `none` for an access outside the array. -/
def call [Inhabited α] (f : FifoT α) : Call α → Option (Answer α × FifoT α)
  | .changeSize bufferSize => some (.done, fifoChangeSize bufferSize)
  | .write buffStorage => (fifoWriteStorage f buffStorage).map fun r => (.wrote r.1, r.2)
  | .read nStorage => (fifoReadStorage f nStorage).map fun r => (.got r.1 r.2.1, r.2.2)
  | .getFifoHead => some (.value f.fifoHead, f)
  | .getFifoTail => some (.value f.fifoTail, f)
  | .getFifoSize => some (.value f.fifoSize, f)

def calls [Inhabited α] (f : FifoT α) : List (Call α) → Option (List (Answer α) × FifoT α)
  | [] => some ([], f)
  | c :: cs =>
      match call f c with
      | none => none
      | some r => (calls r.2 cs).map fun rest => (r.1 :: rest.1, rest.2)

/-! ## The log -/

/-- What a buffer stands for. -/
structure Log (α : Type*) where
  size : Nat
  /-- The records accepted since the array is new. -/
  written : List α
  /-- How many of them have been read. -/
  gone : Nat

namespace Log

def fresh (size : Nat) : Log α := ⟨size, [], 0⟩

/-- The records still to read. -/
def unread (l : Log α) : List α := l.written.drop l.gone

def push (l : Log α) (xs : List α) : Log α := { l with written := l.written ++ xs }

def pop (l : Log α) (n : Nat) : Log α := { l with gone := l.gone + n }

def call (l : Log α) : Call α → Answer α × Log α
  | .changeSize bufferSize => (.done, fresh bufferSize)
  | .write xs =>
      let ys := xs.take (l.size - 1 - l.unread.length)
      (.wrote ys.length, l.push ys)
  | .read n =>
      let ys := l.unread.take n
      (.got ys.length ys, l.pop ys.length)
  | .getFifoHead => (.value (l.written.length % l.size), l)
  | .getFifoTail => (.value (l.gone % l.size), l)
  | .getFifoSize => (.value l.size, l)

def calls (l : Log α) : List (Call α) → List (Answer α) × Log α
  | [] => ([], l)
  | c :: cs =>
      let r := l.call c
      let rest := calls r.2 cs
      (r.1 :: rest.1, rest.2)

end Log

/-- An `int` can hold the size. -/
def Call.Small : Call α → Prop
  | .changeSize bufferSize => bufferSize < 2 ^ 31
  | _ => True

/-- No records are written to an array of no cells. -/
def Call.Fits (size : Nat) : Call α → Prop
  | .write xs => xs = [] ∨ 1 ≤ size
  | _ => True

/-- The size of the array behind a call. -/
def Call.sizeBehind (size : Nat) : Call α → Nat
  | .changeSize bufferSize => bufferSize
  | _ => size

/-- None of these calls writes records to an array of no cells. -/
def Fits : Nat → List (Call α) → Prop
  | _, [] => True
  | size, c :: cs => c.Fits size ∧ Fits (c.sizeBehind size) cs

/-- The buffer is where the log says. -/
structure Follows (f : FifoT α) (l : Log α) : Prop where
  size : f.fifoSize = l.size
  gone : l.gone ≤ l.written.length
  tail : f.fifoTail = l.gone % l.size
  head : f.fifoHead = l.written.length % l.size
  cells : 1 ≤ l.size → Represents f l.unread
  noCells : l.size = 0 → l.written = [] ∧ f = fifoInit [] 0

variable {f f' : FifoT α} {l : Log α} {xs ys : List α} {n k size : Nat}

/-! ## Indices -/

theorem slot_eq_mod {start i : Nat} (hs : start < size) (hi : i < size) :
    Ring.slot size start i = (start + i) % size := by
  rw [Ring.slot]
  split
  next hlt => exact (Nat.mod_eq_of_lt hlt).symm
  next hge =>
    rw [Nat.mod_eq_sub_mod (Nat.le_of_not_lt hge), Nat.mod_eq_of_lt (by omega)]

/-- A write leaves the tail where it is. -/
theorem fifoWriteLoop_tail (h : fifoWriteLoop f xs n = some (k, f')) :
    f'.fifoTail = f.fifoTail := by
  induction xs generalizing f n with
  | nil =>
      cases h
      rfl
  | cons x xs ih =>
      rw [fifoWriteLoop] at h
      split at h
      next =>
        cases h
        rfl
      next =>
        split at h
        next =>
          have hrest := ih h
          exact hrest
        next => cases h

/-- A read leaves the head where it is. -/
theorem fifoReadLoop_head (h : fifoReadLoop f n k = some (size, ys, f')) :
    f'.fifoHead = f.fifoHead := by
  induction n generalizing f k size ys with
  | zero =>
      cases h
      rfl
  | succ n ih =>
      rw [fifoReadLoop] at h
      split at h
      next =>
        cases h
        rfl
      next =>
        split at h
        next => cases h
        next x hx =>
          obtain ⟨⟨j, zs, g⟩, hrest, heq⟩ := Option.map_eq_some_iff.mp h
          cases heq
          have hhead := ih hrest
          exact hhead

namespace Follows

/-- Behind records that the log has, the head is where the log says if the tail is. -/
theorem of_tail (hsize : f.fifoSize = l.size) (hgone : l.gone ≤ l.written.length)
    (hrep : Represents f l.unread) (htail : f.fifoTail = l.gone % l.size) : Follows f l where
  size := hsize
  gone := hgone
  tail := htail
  head := by
    have hsum : l.gone + l.unread.length = l.written.length := by
      rw [Log.unread, List.length_drop, Nat.add_sub_cancel' hgone]
    rw [hrep.head_eq, slot_eq_mod hrep.tail_lt hrep.room, hsize, htail, Nat.mod_add_mod, hsum]
  cells := fun _ => hrep
  noCells := by
    intro hzero
    have hroom := hrep.room
    rw [hsize, hzero] at hroom
    cases hroom

/-- The tail is where the log says if the head is. -/
theorem of_head (hsize : f.fifoSize = l.size) (hgone : l.gone ≤ l.written.length)
    (hrep : Represents f l.unread) (hhead : f.fifoHead = l.written.length % l.size) :
    Follows f l := by
  refine of_tail hsize hgone hrep ?_
  have hsum : l.written.length = l.gone + l.unread.length := by
    rw [Log.unread, List.length_drop, Nat.add_sub_cancel' hgone]
  have hlt := hrep.tail_lt
  rw [hrep.head_eq, slot_eq_mod hlt hrep.room, hsize, hsum] at hhead
  rw [hsize] at hlt
  rw [← Nat.mod_eq_of_lt hlt]
  exact Nat.ModEq.add_right_cancel' _ hhead

theorem fresh [Inhabited α] (hsize : size < 2 ^ 31) :
    Follows (fifoChangeSize size : FifoT α) (Log.fresh size) where
  size := rfl
  gone := Nat.le_refl 0
  tail := (Nat.zero_mod size).symm
  head := (Nat.zero_mod size).symm
  cells := fun hpos => Represents.init (List.length_replicate ..) hpos hsize
  noCells := by
    intro hzero
    cases (show size = 0 from hzero)
    exact ⟨rfl, rfl⟩

/-- The records that there is room for are written behind the others. -/
theorem write (hf : Follows f l) (hpos : 1 ≤ l.size) (xs : List α) :
    ∃ f', fifoWriteStorage f xs = some ((xs.take (l.size - 1 - l.unread.length)).length, f') ∧
      Follows f' (l.push (xs.take (l.size - 1 - l.unread.length))) := by
  obtain ⟨f', hloop, hsize, hrep⟩ := fifoWriteLoop_spec xs 0 (hf.cells hpos)
  rw [Nat.zero_add, hf.size, Nat.min_comm, ← List.length_take] at hloop
  rw [hf.size] at hsize hrep
  refine ⟨f', hloop, of_tail hsize ?_ ?_ ((fifoWriteLoop_tail hloop).trans hf.tail)⟩
  · exact Nat.le_trans hf.gone (by simp [Log.push])
  · have hunread : (l.push (xs.take (l.size - 1 - l.unread.length))).unread =
        l.unread ++ xs.take (l.size - 1 - l.unread.length) :=
      List.drop_append_of_le_length hf.gone
    rwa [hunread]

/-- The oldest records that have not been read are read. -/
theorem read (hf : Follows f l) (hpos : 1 ≤ l.size) (n : Nat) :
    ∃ f', fifoReadStorage f n = some ((l.unread.take n).length, l.unread.take n, f') ∧
      Follows f' (l.pop (l.unread.take n).length) := by
  obtain ⟨f', hloop, hsize, hrep⟩ := fifoReadLoop_spec n 0 (hf.cells hpos)
  rw [Nat.zero_add, ← List.length_take] at hloop
  rw [hf.size] at hsize
  refine ⟨f', hloop, of_head hsize ?_ ?_ ((fifoReadLoop_head hloop).trans hf.head)⟩
  · have hgone := hf.gone
    simp only [Log.pop, Log.unread, List.length_take, List.length_drop]
    omega
  · have hunread : (l.pop (l.unread.take n).length).unread = l.unread.drop n := by
      rw [Log.unread, Log.pop, ← List.drop_drop, ← Log.unread, List.length_take]
      rcases Nat.le_total n l.unread.length with hle | hle
      · rw [Nat.min_eq_left hle]
      · rw [Nat.min_eq_right hle, List.drop_eq_nil_of_le (Nat.le_refl _),
          List.drop_eq_nil_of_le hle]
    rwa [hunread]

/-- A buffer of no cells takes no records and has none. -/
theorem empty (hf : Follows f l) (hzero : l.size = 0) :
    f = fifoInit [] 0 ∧ l.written = [] ∧ l.gone = 0 := by
  obtain ⟨hwritten, hfifo⟩ := hf.noCells hzero
  have hgone := hf.gone
  rw [hwritten] at hgone
  exact ⟨hfifo, hwritten, Nat.le_zero.mp hgone⟩

end Follows

theorem fifoReadStorage_empty (n : Nat) :
    fifoReadStorage (fifoInit [] 0 : FifoT α) n = some (0, [], fifoInit [] 0) := by
  cases n with
  | zero => rfl
  | succ n => rfl

theorem fifoWriteStorage_empty (x : α) (xs : List α) :
    fifoWriteStorage (fifoInit [] 0) (x :: xs) = none := rfl

/-- A call that fits does what the log does. -/
theorem Follows.call [Inhabited α] (hf : Follows f l) {c : Call α} (hsmall : c.Small)
    (hc : c.Fits l.size) :
    ∃ f', Fifo.call f c = some ((l.call c).1, f') ∧ Follows f' (l.call c).2 := by
  cases c with
  | changeSize bufferSize => exact ⟨_, rfl, Follows.fresh hsmall⟩
  | write xs =>
      rcases Nat.eq_zero_or_pos l.size with hzero | hpos
      · obtain rfl : xs = [] := hc.resolve_right (by omega)
        refine ⟨f, by simp [Fifo.call, fifoWriteStorage, fifoWriteLoop, Log.call], ?_⟩
        simpa [Log.call, Log.push] using hf
      · obtain ⟨f', hwrite, hf'⟩ := hf.write hpos xs
        exact ⟨f', by rw [Fifo.call, hwrite]; rfl, hf'⟩
  | read n =>
      rcases Nat.eq_zero_or_pos l.size with hzero | hpos
      · obtain ⟨rfl, hwritten, _⟩ := hf.empty hzero
        have hunread : l.unread = [] := by rw [Log.unread, hwritten, List.drop_nil]
        refine ⟨fifoInit [] 0, ?_, ?_⟩
        · rw [Fifo.call, fifoReadStorage_empty, Log.call, hunread, List.take_nil]
          rfl
        · simpa [Log.call, Log.pop, hunread] using hf
      · obtain ⟨f', hread, hf'⟩ := hf.read hpos n
        exact ⟨f', by rw [Fifo.call, hread]; rfl, hf'⟩
  | getFifoHead => exact ⟨f, by rw [Fifo.call, hf.head]; rfl, hf⟩
  | getFifoTail => exact ⟨f, by rw [Fifo.call, hf.tail]; rfl, hf⟩
  | getFifoSize => exact ⟨f, by rw [Fifo.call, hf.size]; rfl, hf⟩

/-- A write of records to no cells leaves the array. -/
theorem Follows.leaves [Inhabited α] (hf : Follows f l) {c : Call α} (hc : ¬ c.Fits l.size) :
    Fifo.call f c = none := by
  cases c with
  | write xs =>
      rw [Call.Fits, not_or] at hc
      obtain ⟨rfl, _, _⟩ := hf.empty (by omega)
      obtain ⟨x, ys, rfl⟩ := List.exists_cons_of_ne_nil hc.1
      rw [Fifo.call, fifoWriteStorage_empty, Option.map_none]
  | _ => exact absurd trivial hc

theorem Log.call_size (l : Log α) (c : Call α) : (l.call c).2.size = c.sizeBehind l.size := by
  cases c <;> rfl

/-! ## Sequences of calls -/

theorem Follows.calls [Inhabited α] {cs : List (Call α)} (hsmall : ∀ c ∈ cs, c.Small)
    (hf : Follows f l) :
    (Fits l.size cs → ∃ f', Fifo.calls f cs = some ((l.calls cs).1, f') ∧
      Follows f' (l.calls cs).2) ∧ (¬ Fits l.size cs → Fifo.calls f cs = none) := by
  induction cs generalizing f l with
  | nil => exact ⟨fun _ => ⟨f, rfl, hf⟩, fun h => absurd trivial h⟩
  | cons c cs ih =>
      obtain ⟨hc, hcs⟩ := List.forall_mem_cons.mp hsmall
      by_cases hfits : c.Fits l.size
      · obtain ⟨f', hcall, hf'⟩ := hf.call hc hfits
        obtain ⟨hsome, hnone⟩ := ih hcs hf'
        rw [Log.call_size] at hsome hnone
        constructor
        · rintro ⟨_, hrest⟩
          obtain ⟨f'', hcalls, hf''⟩ := hsome hrest
          exact ⟨f'', by rw [Fifo.calls, hcall]; simp only [hcalls]; rfl, hf''⟩
        · intro hnot
          have hrest := hnone fun h => hnot ⟨hfits, h⟩
          rw [Fifo.calls, hcall]
          simp only [hrest, Option.map_none]
      · refine ⟨fun h => absurd h.1 hfits, fun _ => ?_⟩
        rw [Fifo.calls, hf.leaves hfits]

/-- Every sequence of calls of a buffer stays in its array exactly if no records are
written while the array has no cells.  Then the answers are those of the log, and the
buffer is where the log says at the end. -/
theorem calls_follow [Inhabited α] {cs : List (Call α)} (hsize : size < 2 ^ 31)
    (hsmall : ∀ c ∈ cs, c.Small) :
    ((calls (fifoChangeSize size : FifoT α) cs).isSome ↔ Fits size cs) ∧
      ∀ answers f, calls (fifoChangeSize size) cs = some (answers, f) →
        answers = ((Log.fresh size).calls cs).1 ∧ Follows f ((Log.fresh size).calls cs).2 := by
  obtain ⟨hsome, hnone⟩ := (Follows.fresh (α := α) hsize).calls hsmall
  by_cases hfits : Fits size cs
  · obtain ⟨f, hcalls, hf⟩ := hsome hfits
    rw [hcalls]
    refine ⟨iff_of_true rfl hfits, fun answers f' h => ?_⟩
    cases h
    exact ⟨rfl, hf⟩
  · rw [hnone hfits]
    refine ⟨iff_of_false (by simp) hfits, fun answers f' h => ?_⟩
    cases h

/-- Three of four records find room, two are read, and a new array of one cell has room
for none. -/
theorem calls_follow_newArray :
    ((calls (fifoChangeSize 4 : FifoT Nat)
          [.write [1, 2, 3, 4], .read 2, .write [5, 6], .getFifoHead, .changeSize 1,
            .write [7], .getFifoTail]).isSome ↔
        Fits 4 [.write [1, 2, 3, 4], .read 2, .write [5, 6], .getFifoHead, .changeSize 1,
          .write [7], .getFifoTail]) ∧
      ∀ answers f, calls (fifoChangeSize 4 : FifoT Nat)
          [.write [1, 2, 3, 4], .read 2, .write [5, 6], .getFifoHead, .changeSize 1,
            .write [7], .getFifoTail] = some (answers, f) →
        answers = ((Log.fresh 4).calls
            [.write [1, 2, 3, 4], .read 2, .write [5, 6], .getFifoHead, .changeSize 1,
              .write [7], .getFifoTail]).1 ∧
          Follows f ((Log.fresh 4).calls
            [.write [1, 2, 3, 4], .read 2, .write [5, 6], .getFifoHead, .changeSize 1,
              .write [7], .getFifoTail]).2 :=
  calls_follow (by omega) (by simp [Call.Small])

end Fifo

end GsSDR
