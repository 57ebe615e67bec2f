import Mathlib.Data.List.Basic

/-!
# An array that is filled in stretches

The items of a new array have no value.  Values are assigned to a slice of it at
a time.  When each slice starts where the one before has ended, the items with a
value are a front of the array (`assign_next`), so the array is full when the
last slice ends with it.
-/

namespace Slots

variable {α : Type*}

/-- A new array. -/
def empty (n : Nat) : List (Option α) := List.replicate n none

/-- The values for a slice of `n` items.  A single value is good for all of them. -/
def spread (n : Nat) : List α → List α
  | [x] => List.replicate n x
  | xs => xs

/-- The items `i .. j` are set to `xs`.  The slice ends with the array, whatever `j`
is. -/
def assign (a : List (Option α)) (i j : Nat) (xs : List α) : Option (List (Option α)) :=
  let start := min i a.length
  let stop := max start (min j a.length)
  let values := spread (stop - start) xs
  if values.length = stop - start then some (a.take start ++ values.map some ++ a.drop stop)
  else none

theorem spread_length (xs : List α) : spread xs.length xs = xs := by
  match xs with
  | [] => rfl
  | [_] => rfl
  | _ :: _ :: _ => rfl

/-- A slice of the right length gets the values one by one. -/
theorem assign_of_length {a : List (Option α)} {i j : Nat} {xs : List α} (hj : j ≤ a.length)
    (hlength : i + xs.length = j) :
    assign a i j xs = some (a.take i ++ xs.map some ++ a.drop j) := by
  have hstart : min i a.length = i := by omega
  have hstop : max i (min j a.length) = j := by omega
  have hroom : j - i = xs.length := by omega
  rw [assign, hstart, hstop, hroom, spread_length, if_pos rfl]

/-- The next slice of an array that is filled from its front. -/
theorem assign_next {done xs : List α} {room i j : Nat} (hi : i = done.length)
    (hj : j = i + xs.length) (hroom : xs.length ≤ room) :
    assign (done.map some ++ empty room) i j xs =
      some ((done ++ xs).map some ++ empty (room - xs.length)) := by
  have hlength : (done.map some).length = i := by rw [List.length_map, hi]
  rw [assign_of_length (by simp [empty]; omega) hj.symm, ← hlength, List.take_left, hj,
    ← hlength, ← List.drop_drop, List.drop_left, empty, empty, List.drop_replicate,
    List.map_append]

end Slots
