import Mathlib.Data.List.Basic
import Mathlib.Algebra.Ring.Nat

/-!
# Buffers of bytes

A buffer is the list of its bytes.  Words are stored in it with the low byte
first (`leBytes`).  A load or a store that leaves the buffer has no meaning and
is `none`.

What the rules say about a buffer they say by its parts: a store into
`a ++ b ++ c` at the end of `a` replaces `b` (`store_part`) and a load there
gives `b` (`load_part`).
-/

namespace ByteBuffer

/-- The lowest `k` bytes of a number, low byte first. -/
def leBytes : Nat → Nat → List UInt8
  | 0, _ => []
  | k + 1, n => UInt8.ofNat n :: leBytes k (n / 256)

/-- The number that bytes stand for, low byte first. -/
def leNat : List UInt8 → Nat
  | [] => 0
  | b :: bs => b.toNat + 256 * leNat bs

@[simp] theorem length_leBytes (k n : Nat) : (leBytes k n).length = k := by
  induction k generalizing n with
  | zero => rfl
  | succ k ih => rw [leBytes, List.length_cons, ih]

theorem leNat_leBytes (k n : Nat) : leNat (leBytes k n) = n % 256 ^ k := by
  induction k generalizing n with
  | zero => simp [leBytes, leNat, Nat.mod_one]
  | succ k ih =>
      have hbyte : (UInt8.ofNat n).toNat = n % 256 := UInt8.toNat_ofNat'
      rw [leBytes, leNat, ih, hbyte, Nat.pow_succ, Nat.mul_comm _ 256, Nat.mod_mul]

/-- A word that fits is read back as it was. -/
theorem leNat_leBytes_of_lt {k n : Nat} (h : n < 256 ^ k) : leNat (leBytes k n) = n := by
  rw [leNat_leBytes, Nat.mod_eq_of_lt h]

/-- The bytes `i .. i + n`. -/
def load (b : List UInt8) (i n : Nat) : Option (List UInt8) :=
  if i + n ≤ b.length then some ((b.drop i).take n) else none

/-- The buffer with `xs` at the bytes from `i` on. -/
def store (b : List UInt8) (i : Nat) (xs : List UInt8) : Option (List UInt8) :=
  if i + xs.length ≤ b.length then some (b.take i ++ xs ++ b.drop (i + xs.length)) else none

/-- The loop that assigns the bytes from `i` on, one at a time. -/
def assign (b : List UInt8) (i : Nat) : List UInt8 → Option (List UInt8)
  | [] => some b
  | x :: xs => if i < b.length then assign (b.set i x) (i + 1) xs else none

theorem load_part {a b c : List UInt8} {i n : Nat} (hi : i = a.length) (hn : n = b.length) :
    load (a ++ b ++ c) i n = some b := by
  subst hi hn
  rw [load, if_pos (by simp), List.append_assoc, List.drop_left, List.take_left]

theorem store_part {a b c xs : List UInt8} {i : Nat} (hi : i = a.length)
    (hx : xs.length = b.length) : store (a ++ b ++ c) i xs = some (a ++ xs ++ c) := by
  subst hi
  have hdrop : (a ++ b ++ c).drop (a.length + b.length) = c := by
    rw [← List.length_append, List.drop_left]
  rw [store, hx, if_pos (by simp), hdrop, List.append_assoc a b c, List.take_left]

/-- The loop assigns a part at once. -/
theorem assign_part {a c : List UInt8} {xs b : List UInt8} {i : Nat} (hi : i = a.length)
    (hx : xs.length = b.length) : assign (a ++ b ++ c) i xs = some (a ++ xs ++ c) := by
  induction xs generalizing a b i with
  | nil =>
      rw [List.length_nil] at hx
      rw [List.eq_nil_of_length_eq_zero hx.symm]
      rfl
  | cons x xs ih =>
      cases b with
      | nil => cases hx
      | cons y b =>
          have hset : (a ++ y :: b ++ c).set i x = (a ++ [x]) ++ b ++ c := by
            rw [hi, List.append_assoc, List.set_append_right a.length x (Nat.le_refl _)]
            simp
          rw [assign, if_pos (by simp [hi]), hset,
            ih (by simp [hi]) (by simpa using hx)]
          simp

theorem load_all {b : List UInt8} {n : Nat} (hn : b.length = n) : load b 0 n = some b := by
  subst hn
  simp [load]

/-- A buffer of zeros in two parts. -/
theorem zeros_split {m n : Nat} (h : m ≤ n) :
    List.replicate n (0 : UInt8) = List.replicate m 0 ++ List.replicate (n - m) 0 := by
  rw [List.replicate_append_replicate, Nat.add_sub_cancel' h]

/-- The word of `k` bytes that a reader finds at `i`. -/
def word (b : List UInt8) (i k : Nat) : Nat := leNat ((b.drop i).take k)

theorem word_part {a c : List UInt8} {i k n : Nat} (hi : i = a.length) (hn : n < 256 ^ k) :
    word (a ++ leBytes k n ++ c) i k = n := by
  subst hi
  have htake : (leBytes k n ++ c).take k = leBytes k n := by
    rw [List.take_append_of_le_length (by simp), List.take_of_length_le (by simp)]
  rw [word, List.append_assoc, List.drop_left, htake, leNat_leBytes_of_lt hn]

end ByteBuffer
