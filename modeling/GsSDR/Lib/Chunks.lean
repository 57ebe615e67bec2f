import Mathlib.Data.List.Basic
import Mathlib.Algebra.Ring.Nat

/-!
# A list in chunks

`chunk n l i` is the `i`th stretch of `n` items of `l`, which may be short or
empty at the end, and `chunkCount n l` is the number of stretches with items.
Only the last of those may be short, so all of them together are the list
(`flatten_chunks`), and with the short one filled up to `n` items they are the
list and less than `n` items of filling (`flatten_filled`).
-/

namespace Chunks

variable {α : Type*}

/-- Items `i * n .. (i + 1) * n`, as far as there are any. -/
def chunk (n : Nat) (l : List α) (i : Nat) : List α := (l.drop (i * n)).take n

/-- The length divided by `n`, rounded up. -/
def chunkCount (n : Nat) (l : List α) : Nat := (l.length + n - 1) / n

variable {n : Nat} {l : List α} {i : Nat}

theorem length_chunk (n : Nat) (l : List α) (i : Nat) :
    (chunk n l i).length = min n (l.length - i * n) := by
  rw [chunk, List.length_take, List.length_drop]

theorem length_chunk_le (n : Nat) (l : List α) (i : Nat) : (chunk n l i).length ≤ n := by
  rw [length_chunk]
  exact Nat.min_le_left _ _

theorem chunk_append_zero (hl : l.length = n) (r : List α) : chunk n (l ++ r) 0 = l := by
  rw [chunk, Nat.zero_mul, List.drop_zero, List.take_left' hl]

/-- Behind the first chunk are the chunks of the rest. -/
theorem chunk_append_succ (hl : l.length = n) (r : List α) (i : Nat) :
    chunk n (l ++ r) (i + 1) = chunk n r i := by
  rw [chunk, Nat.succ_mul, Nat.add_comm, ← List.drop_drop, List.drop_left' hl, chunk]

/-- The chunks before the count are those that start before the end. -/
theorem lt_chunkCount_iff (hn : 0 < n) : i < chunkCount n l ↔ i * n < l.length := by
  rw [chunkCount, Nat.lt_iff_add_one_le, Nat.le_div_iff_mul_le hn, Nat.add_mul]
  omega

/-- Nothing is left behind the last chunk. -/
theorem length_le_chunkCount (hn : 0 < n) : l.length ≤ chunkCount n l * n := by
  have h := (lt_chunkCount_iff hn (i := chunkCount n l) (l := l)).not
  simpa using h

/-- Where a chunk ends and the next one starts, as far as there are items. -/
theorem min_add_length_chunk (n : Nat) (l : List α) (i : Nat) :
    min (i * n) l.length + (chunk n l i).length = min ((i + 1) * n) l.length := by
  rw [length_chunk, Nat.add_mul]
  omega

/-- The first chunks are the front of the list. -/
theorem flatten_take (n : Nat) (l : List α) (k : Nat) :
    ((List.range k).map (chunk n l)).flatten = l.take (k * n) := by
  induction k with
  | zero => simp
  | succ k ih =>
      rw [List.range_succ, List.map_append, List.flatten_append, ih, Nat.add_mul, Nat.one_mul,
        List.take_add]
      simp [chunk]

/-- All chunks are the list. -/
theorem flatten_chunks (hn : 0 < n) :
    ((List.range (chunkCount n l)).map (chunk n l)).flatten = l := by
  rw [flatten_take, List.take_of_length_le (length_le_chunkCount hn)]

/-- A list filled up to `n` items. -/
def filled (x : α) (n : Nat) (l : List α) : List α := l ++ List.replicate (n - l.length) x

/-- Chunks that end before the end of the list need no filling. -/
theorem flatten_filled_take (x : α) {k : Nat} (hk : k * n ≤ l.length) :
    ((List.range k).map fun i => filled x n (chunk n l i)).flatten = l.take (k * n) := by
  induction k with
  | zero => simp
  | succ k ih =>
      rw [Nat.add_mul, Nat.one_mul] at hk
      have hfull : filled x n (chunk n l k) = chunk n l k := by
        rw [filled, length_chunk, Nat.min_eq_left (by omega), Nat.sub_self, List.replicate_zero,
          List.append_nil]
      rw [List.range_succ, List.map_append, List.flatten_append, ih (by omega), Nat.add_mul,
        Nat.one_mul, List.take_add, List.map_singleton, List.flatten_singleton, hfull, chunk]

/-- All chunks, the last one filled. -/
theorem flatten_filled (x : α) (hn : 0 < n) :
    ∃ k < n, ((List.range (chunkCount n l)).map fun i => filled x n (chunk n l i)).flatten
      = l ++ List.replicate k x := by
  cases hcount : chunkCount n l with
  | zero =>
      have hlen := length_le_chunkCount hn (l := l)
      rw [hcount, Nat.zero_mul, Nat.le_zero] at hlen
      rw [List.eq_nil_of_length_eq_zero hlen]
      exact ⟨0, hn, rfl⟩
  | succ m =>
      have hstart : m * n < l.length := (lt_chunkCount_iff hn).mp (by omega)
      have hend : l.length ≤ m * n + n := by
        have h := length_le_chunkCount hn (l := l)
        rwa [hcount, Nat.add_mul, Nat.one_mul] at h
      refine ⟨n - (chunk n l m).length, ?_, ?_⟩
      · rw [length_chunk]
        omega
      · have hlast : chunk n l m = l.drop (m * n) := by
          rw [chunk, List.take_of_length_le]
          rw [List.length_drop]
          omega
        rw [List.range_succ, List.map_append, List.flatten_append,
          flatten_filled_take x (Nat.le_of_lt hstart)]
        simp only [List.map_singleton, List.flatten_singleton, filled, hlast]
        rw [← List.append_assoc, List.take_append_drop]

end Chunks
