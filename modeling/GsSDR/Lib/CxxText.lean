import Mathlib.Algebra.Ring.Nat
import Mathlib.Data.List.Basic

/-!
# Character strings of C++

A `std::string` is the list of its characters, one for each byte.  The
operations here are those of the standard library in the classic locale, under
their names there.  A search result that may be `npos` is a Boolean or the
length of the string, as its callers need.
-/

namespace Cxx

/-- `std::string`. -/
abbrev Str := List Char

/-- `std::isspace`. -/
def isspace (c : Char) : Bool := c == ' ' || ('\t' ≤ c && c ≤ '\r')

/-- `s.substr(pos, n)`, for `pos` within the string. -/
def substr (s : Str) (pos n : Nat) : Str := (s.drop pos).take n

/-- `s.find(pattern) != npos`. -/
def contains (pattern : Str) : Str → Bool
  | [] => pattern.isEmpty
  | c :: cs => pattern.isPrefixOf (c :: cs) || contains pattern cs

/-- `s.rfind(pattern, 0) == 0`. -/
def startsWith (pattern s : Str) : Bool := pattern.isPrefixOf s

/-- `std::to_string`. -/
def toStr (n : Int) : Str :=
  if n < 0 then '-' :: Nat.toDigits 10 n.natAbs else Nat.toDigits 10 n.natAbs

/-- The value of decimal digits. -/
def decimal (s : Str) : Option Int :=
  if s ≠ [] ∧ s.all Char.isDigit then
    some (s.foldl (fun n c => 10 * n + (c.toNat - '0'.toNat : Nat)) (0 : Int))
  else none

/-- The value of a hexadecimal digit. -/
def hexVal (c : Char) : Option Nat :=
  if '0' ≤ c ∧ c ≤ '9' then some (c.toNat - 48)
  else if 'a' ≤ c ∧ c ≤ 'f' then some (c.toNat - 87)
  else if 'A' ≤ c ∧ c ≤ 'F' then some (c.toNat - 55)
  else none

/-- The number that the digits at the front of a text add to `acc`. -/
def hexNumber (acc : Nat) : Str → Nat
  | [] => acc
  | c :: cs =>
      match hexVal c with
      | none => acc
      | some d => hexNumber (16 * acc + d) cs

/-- The prefix that a base 16 extraction skips before the digits. -/
def skipHexPrefix : Str → Str
  | '0' :: 'x' :: cs => cs
  | '0' :: 'X' :: cs => cs
  | cs => cs

/-- The number behind the sign. -/
def hexMagnitude (s : Str) : Nat := hexNumber 0 (skipHexPrefix s)

/-- `ss >> tmp` for a `uint16_t tmp` that is 0 and a stream with `std::hex`:
blanks are skipped, then come an optional sign, an optional prefix and the
digits.  Too large a number gives the largest one, a minus sign negates modulo
the word, and where no digit is found the value is 0. -/
def extractHex16 (s : Str) : Nat :=
  match s.dropWhile isspace with
  | '-' :: cs =>
      if hexMagnitude cs < 2 ^ 16 then (2 ^ 16 - hexMagnitude cs) % 2 ^ 16 else 2 ^ 16 - 1
  | '+' :: cs => min (hexMagnitude cs) (2 ^ 16 - 1)
  | cs => min (hexMagnitude cs) (2 ^ 16 - 1)

/-- A hexadecimal digit in upper case. -/
def hexDigit (d : Nat) : Char := if d < 10 then Char.ofNat (48 + d) else Char.ofNat (55 + d)

/-- The digits that `ss << std::hex << std::uppercase << n` writes. -/
def hexDigits (n : Nat) : Str :=
  if n < 16 then [hexDigit n] else hexDigits (n / 16) ++ [hexDigit (n % 16)]

/-- A text written with `std::setw(width)` and `std::setfill(fill)`. -/
def setw (width : Nat) (fill : Char) (s : Str) : Str := s.leftpad width fill

/-! ## Hexadecimal digits -/

theorem hexVal_hexDigit : ∀ {d : Nat}, d < 16 → hexVal (hexDigit d) = some d := by
  decide

/-- A written digit starts no other part of a number. -/
theorem hexDigit_plain : ∀ {d : Nat}, d < 16 →
    isspace (hexDigit d) = false ∧ hexDigit d ≠ '-' ∧ hexDigit d ≠ '+' ∧
      hexDigit d ≠ 'x' ∧ hexDigit d ≠ 'X' := by
  decide

/-- Two written digits have no prefix. -/
theorem skipHexPrefix_digits {a b : Nat} (hb : b < 16) :
    skipHexPrefix [hexDigit a, hexDigit b] = [hexDigit a, hexDigit b] := by
  obtain ⟨_, _, _, hx, hX⟩ := hexDigit_plain hb
  simp only [skipHexPrefix]
  split
  next cs heq =>
    injection heq with _ htail
    injection htail with hbx _
    exact absurd hbx hx
  next cs heq =>
    injection heq with _ htail
    injection htail with hbx _
    exact absurd hbx hX
  next => rfl

/-- Two written digits are read as the number they write. -/
theorem extractHex16_digits {a b : Nat} (ha : a < 16) (hb : b < 16) :
    extractHex16 [hexDigit a, hexDigit b] = 16 * a + b := by
  obtain ⟨hspace, hminus, hplus, _, _⟩ := hexDigit_plain ha
  have hdrop : [hexDigit a, hexDigit b].dropWhile isspace = [hexDigit a, hexDigit b] := by
    rw [List.dropWhile_cons_of_neg (by rw [hspace]; exact Bool.false_ne_true)]
  have hvalue : hexMagnitude [hexDigit a, hexDigit b] = 16 * a + b := by
    rw [hexMagnitude, skipHexPrefix_digits hb]
    simp [hexNumber, hexVal_hexDigit ha, hexVal_hexDigit hb]
  rw [extractHex16, hdrop]
  split
  next heq => injection heq with h _; exact absurd h hminus
  next heq => injection heq with h _; exact absurd h hplus
  next =>
    rw [hvalue]
    omega

/-- A byte padded to two places is the digit of its high half and that of its
low half. -/
theorem setw_hexDigits {n : Nat} (hn : n < 256) :
    setw 2 '0' (hexDigits n) = [hexDigit (n / 16), hexDigit (n % 16)] := by
  by_cases hsmall : n < 16
  · rw [hexDigits, if_pos hsmall, Nat.div_eq_of_lt hsmall, Nat.mod_eq_of_lt hsmall]
    rfl
  · rw [hexDigits, if_neg hsmall, hexDigits, if_pos (by omega)]
    rfl

/-! ## Decimal digits -/

/-- The number that a text writes, with a minus sign or without. -/
def integer : Str → Option Int
  | '-' :: cs => (decimal cs).map fun n => -n
  | cs => decimal cs

theorem toDigits_isDigit {n : Nat} : ∀ c ∈ Nat.toDigits 10 n, c.isDigit = true :=
  fun _ hc => Nat.isDigit_of_mem_toDigits (by omega) (by omega) hc

theorem toDigits_ne_minus (n : Nat) (cs : Str) : Nat.toDigits 10 n ≠ '-' :: cs := by
  intro heq
  have hdigit := toDigits_isDigit '-' (by rw [heq]; exact List.mem_cons_self)
  cases hdigit

theorem digitChar_ne_zero : ∀ {d : Nat}, d < 10 → 0 < d → d.digitChar ≠ '0' := by
  decide

/-- The digits of a positive number do not begin with a zero. -/
theorem toDigits_cons (n : Nat) (hn : 0 < n) :
    ∃ c cs, Nat.toDigits 10 n = c :: cs ∧ c ≠ '0' := by
  induction n using Nat.strong_induction_on with
  | h n ih =>
      by_cases hsmall : n < 10
      · exact ⟨n.digitChar, [], Nat.toDigits_of_lt_base hsmall, digitChar_ne_zero hsmall hn⟩
      · obtain ⟨c, cs, hcs, hc⟩ := ih (n / 10) (by omega) (by omega)
        refine ⟨c, cs ++ [(n % 10).digitChar], ?_, hc⟩
        rw [Nat.toDigits_of_base_le (by omega) (by omega), hcs]
        rfl

theorem decimal_toDigits (n : Nat) : decimal (Nat.toDigits 10 n) = some (n : Int) := by
  have hfold : ∀ (s : Str) (k : Nat),
      s.foldl (fun (n : Int) c => 10 * n + ((c.toNat - '0'.toNat : Nat) : Int)) k =
        (Nat.ofDigitChars 10 s k : Nat) := by
    intro s
    induction s with
    | nil =>
        intro k
        rw [Nat.ofDigitChars_nil]
        rfl
    | cons c s ih =>
        intro k
        rw [List.foldl_cons, Nat.ofDigitChars_cons, ← ih]
        push_cast
        rfl
  have hdigits : Nat.toDigits 10 n ≠ [] ∧ (Nat.toDigits 10 n).all Char.isDigit = true :=
    ⟨Nat.toDigits_ne_nil, List.all_eq_true.mpr toDigits_isDigit⟩
  rw [decimal, if_pos hdigits]
  have h := hfold (Nat.toDigits 10 n) 0
  rw [Nat.ofDigitChars_ten_toDigits] at h
  exact congrArg some h

/-- A written number is read back. -/
theorem integer_toStr (n : Int) : integer (toStr n) = some n := by
  rw [toStr]
  split
  next hneg =>
    rw [integer, decimal_toDigits, Option.map_some]
    congr 1
    omega
  next hpos =>
    have hdecimal := decimal_toDigits n.natAbs
    rw [integer, hdecimal]
    · congr 1
      omega
    · intro cs
      exact toDigits_ne_minus n.natAbs cs

end Cxx
