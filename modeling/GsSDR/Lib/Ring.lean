import Mathlib.Data.List.Basic

/-!
# Windows of a circular array

A list of cells is read in a circle: slot `i` of a window that starts at cell
`start` is cell `start + i`, wrapped once.  `Window cells start xs` says that
the window of length `xs.length` at `start` holds `xs`.  A window grows at its
end by a write to the cell behind it (`Window.push`) and shrinks at its front
by a move of its start (`Window.pop`).

Indices wrap by comparison and subtraction, so that linear arithmetic decides
what follows from the bounds.
-/

namespace Ring

variable {α : Type*}

/-- The cell of slot `i` of a window at `start`, in a circle of `size` cells. -/
def slot (size start i : Nat) : Nat :=
  if start + i < size then start + i else start + i - size

/-- The cell after `i`. -/
def next (size i : Nat) : Nat := if i + 1 = size then 0 else i + 1

theorem next_lt {size i : Nat} (h : i < size) : next size i < size := by
  rw [next]
  split <;> omega

theorem slot_zero {size start : Nat} (h : start < size) : slot size start 0 = start := by
  simp [slot, h]

theorem slot_lt {size start i : Nat} (hs : start < size) (hi : i < size) :
    slot size start i < size := by
  rw [slot]
  split <;> omega

/-- Distinct slots of a window are distinct cells. -/
theorem slot_ne {size start i j : Nat} (hi : i < size) (hj : j < size) (hij : i ≠ j) :
    slot size start i ≠ slot size start j := by
  simp only [slot]
  split <;> split <;> omega

/-- The cell after the last slot of a window is the slot after it. -/
theorem next_slot {size start i : Nat} (hs : start < size) (hi : i < size) :
    next size (slot size start i) = slot size start (i + 1) := by
  simp only [next, slot]
  split <;> split <;> split <;> omega

/-- Moving the start forward renumbers the slots. -/
theorem slot_next_start {size start i : Nat} (hi : i + 1 < size) :
    slot size (next size start) i = slot size start (i + 1) := by
  simp only [next, slot]
  split <;> split <;> split <;> omega

/-- The window at `start` holds `xs`. -/
def Window (cells : List α) (start : Nat) (xs : List α) : Prop :=
  ∀ i, i < xs.length → cells[slot cells.length start i]? = xs[i]?

theorem window_nil (cells : List α) (start : Nat) : Window cells start [] := by
  intro i hi
  cases hi

/-- A write to the cell behind a window that does not fill the circle adds an
item at its end. -/
theorem Window.push {cells : List α} {start : Nat} {xs : List α} (h : Window cells start xs)
    (hs : start < cells.length) (hroom : xs.length < cells.length) (x : α) :
    Window (cells.set (slot cells.length start xs.length) x) start (xs ++ [x]) := by
  intro i hi
  rw [List.length_set]
  by_cases hlast : i = xs.length
  · subst hlast
    rw [List.getElem?_set_self (slot_lt hs hroom)]
    simp
  · have hlt : i < xs.length := by
      simp only [List.length_append, List.length_singleton] at hi
      omega
    have hne : slot cells.length start xs.length ≠ slot cells.length start i :=
      slot_ne hroom (Nat.lt_trans hlt hroom) (Ne.symm hlast)
    rw [List.getElem?_set_ne hne, h i hlt, List.getElem?_append_left hlt]

/-- The oldest item of a window is in its first cell. -/
theorem Window.head {cells : List α} {start : Nat} {x : α} {xs : List α}
    (h : Window cells start (x :: xs)) (hs : start < cells.length) :
    cells[start]? = some x := by
  have h0 := h 0 (by simp)
  rw [slot_zero hs] at h0
  simpa using h0

/-- A window without its oldest item starts at the next cell. -/
theorem Window.pop {cells : List α} {start : Nat} {x : α} {xs : List α}
    (h : Window cells start (x :: xs)) (hroom : (x :: xs).length < cells.length) :
    Window cells (next cells.length start) xs := by
  intro i hi
  simp only [List.length_cons] at hroom
  have h' := h (i + 1) (by simpa using hi)
  rw [slot_next_start (by omega), h']
  simp

end Ring
