import Mathlib.Data.Nat.Bitwise

/-!
# Bytes and their bits

The bits of a byte come most significant first, and each is a byte that is 0 or 1
(`unpack`).  Groups of eight of them make bytes again (`pack`), and what was
unpacked is packed as it was (`pack_unpack`).  By position, bit `i` of a sequence
of bytes is bit `7 - i % 8` of byte `i / 8` (`getElem?_unpack`).
-/

namespace Bits

/-- Bit `j` of a byte, where bit 0 is the least significant. -/
def bit (b : UInt8) (j : Nat) : UInt8 := if b.toNat.testBit j then 1 else 0

/-- The bits of a byte. -/
def unpackByte (b : UInt8) : List UInt8 := (List.range 8).map fun k => bit b (7 - k)

/-- The bits of bytes. -/
def unpack (bytes : List UInt8) : List UInt8 := bytes.flatMap unpackByte

/-- The byte that bits stand for. -/
def packByte (bits : List UInt8) : UInt8 :=
  UInt8.ofNat (bits.foldl (fun n b => 2 * n + b.toNat) 0)

/-- The bytes that groups of eight bits stand for. -/
def pack : List UInt8 → List UInt8
  | a :: b :: c :: d :: e :: f :: g :: h :: rest => packByte [a, b, c, d, e, f, g, h] :: pack rest
  | _ => []

example : unpack [0xF0, 0x01] = [1, 1, 1, 1, 0, 0, 0, 0, 0, 0, 0, 0, 0, 0, 0, 1] := rfl

theorem toNat_bit (b : UInt8) (j : Nat) : (bit b j).toNat = b.toNat / 2 ^ j % 2 := by
  rw [bit, Nat.testBit_eq_decide_div_mod_eq]
  rcases Nat.mod_two_eq_zero_or_one (b.toNat / 2 ^ j) with h | h
  · rw [h]
    rfl
  · rw [h]
    rfl

/-- A byte tested with a mask of one bit. -/
theorem bit_of_mask (b : UInt8) (j : Nat) :
    (if b.toNat &&& (1 <<< j) ≠ 0 then 1 else 0) = bit b j := by
  rw [Nat.one_shiftLeft, Nat.and_two_pow, bit]
  have hpos : 2 ^ j ≠ 0 := Nat.ne_of_gt (Nat.two_pow_pos j)
  cases b.toNat.testBit j with
  | true => simp
  | false => simp

theorem bit_eq (b : UInt8) (j : Nat) : bit b j = 0 ∨ bit b j = 1 := by
  rw [bit]
  split
  next => exact .inr rfl
  next => exact .inl rfl

/-! ## The round trip -/

/-- The first bits stand for what is left of the byte without the others. -/
theorem foldl_bits (b : UInt8) {k : Nat} (hk : k ≤ 8) :
    ((List.range k).map fun i => bit b (7 - i)).foldl (fun n b => 2 * n + b.toNat) 0 =
      b.toNat / 2 ^ (8 - k) := by
  induction k with
  | zero => exact (Nat.div_eq_of_lt b.toNat_lt).symm
  | succ k ih =>
      have hbefore : 8 - k = 7 - k + 1 := by omega
      have hafter : 8 - (k + 1) = 7 - k := by omega
      rw [List.range_succ, List.map_append, List.foldl_append, ih (by omega), List.map_singleton,
        List.foldl_cons, List.foldl_nil, toNat_bit, hbefore, hafter, Nat.pow_succ,
        ← Nat.div_div_eq_div_mul]
      exact Nat.div_add_mod _ 2

theorem packByte_unpackByte (b : UInt8) : packByte (unpackByte b) = b := by
  have hsum : (unpackByte b).foldl (fun n b => 2 * n + b.toNat) 0 = b.toNat :=
    (foldl_bits b (Nat.le_refl 8)).trans (Nat.div_one b.toNat)
  rw [packByte, hsum, UInt8.ofNat_toNat]

/-- Packing takes back the unpacking. -/
theorem pack_unpack (bytes : List UInt8) : pack (unpack bytes) = bytes := by
  induction bytes with
  | nil => rfl
  | cons b bytes ih =>
      have hparts : unpack (b :: bytes) = bit b 7 :: bit b 6 :: bit b 5 :: bit b 4 :: bit b 3 ::
        bit b 2 :: bit b 1 :: bit b 0 :: unpack bytes := rfl
      have hbyte : packByte [bit b 7, bit b 6, bit b 5, bit b 4, bit b 3, bit b 2, bit b 1,
        bit b 0] = b := packByte_unpackByte b
      rw [hparts, pack, hbyte, ih]

theorem length_unpack (bytes : List UInt8) : (unpack bytes).length = 8 * bytes.length := by
  induction bytes with
  | nil => rfl
  | cons b bytes ih =>
      rw [unpack, List.flatMap_cons, List.length_append, ← unpack, ih, List.length_cons]
      show 8 + _ = _
      omega

theorem mem_unpack {bytes : List UInt8} {x : UInt8} (hx : x ∈ unpack bytes) : x = 0 ∨ x = 1 := by
  obtain ⟨b, _, hb⟩ := List.mem_flatMap.mp hx
  obtain ⟨k, _, rfl⟩ := List.mem_map.mp hb
  exact bit_eq b (7 - k)

/-! ## By position -/

theorem getElem?_unpack (bytes : List UInt8) (i : Nat) :
    (unpack bytes)[i]? = (bytes[i / 8]?).map fun b => bit b (7 - i % 8) := by
  induction bytes generalizing i with
  | nil => rfl
  | cons b bytes ih =>
      have hlength : (unpackByte b).length = 8 := rfl
      rw [unpack, List.flatMap_cons, ← unpack]
      by_cases hi : i < 8
      · have hdiv : i / 8 = 0 := Nat.div_eq_of_lt hi
        rw [List.getElem?_append_left (by rw [hlength]; exact hi), hdiv, Nat.mod_eq_of_lt hi,
          unpackByte, List.getElem?_map, List.getElem?_range hi]
        rfl
      · have hdiv : i / 8 = (i - 8) / 8 + 1 := by omega
        have hmod : i % 8 = (i - 8) % 8 := by omega
        rw [List.getElem?_append_right (by rw [hlength]; omega), hlength, ih, hdiv, hmod,
          List.getElem?_cons_succ]

/-- The first elements of a list, one after the other. -/
theorem mapM_getElem? {α : Type} (l : List α) (n : Nat) :
    (List.range n).mapM (fun i => l[i]?) = if n ≤ l.length then some (l.take n) else none := by
  induction n with
  | zero => rfl
  | succ n ih =>
      rw [List.range_succ, List.mapM_append, ih]
      by_cases hn : n < l.length
      · have hle : n ≤ l.length := Nat.le_of_lt hn
        rw [if_pos hle, if_pos (Nat.succ_le_of_lt hn), List.take_succ_eq_append_getElem hn]
        simp [hn]
      · rw [if_neg (show ¬ n + 1 ≤ l.length from hn)]
        split
        next =>
          have hnone : l[n]? = none := List.getElem?_eq_none (Nat.le_of_not_lt hn)
          simp [hnone]
        next => rfl

/-- A loop over the bits of the first `n` bytes. -/
theorem mapM_bits (bytes : List UInt8) (n : Nat) :
    (List.range (n * 8)).mapM (fun i => (bytes[i / 8]?).map fun b => bit b (7 - i % 8)) =
      if n ≤ bytes.length then some (unpack (bytes.take n)) else none := by
  have hloop : (List.range (n * 8)).mapM
      (fun i => (bytes[i / 8]?).map fun b => bit b (7 - i % 8)) =
      (List.range (n * 8)).mapM fun i => (unpack bytes)[i]? := by
    simp only [getElem?_unpack]
  rw [hloop, mapM_getElem?, length_unpack]
  by_cases hn : n ≤ bytes.length
  · rw [if_pos hn, if_pos (by omega)]
    have hsplit : unpack bytes = unpack (bytes.take n) ++ unpack (bytes.drop n) := by
      rw [unpack, unpack, unpack, ← List.flatMap_append, List.take_append_drop]
    rw [hsplit, List.take_left']
    rw [length_unpack, List.length_take, Nat.min_eq_left hn, Nat.mul_comm]
  · rw [if_neg hn, if_neg (by omega)]

end Bits
