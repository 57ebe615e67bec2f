import GsSDR.Lib.CxxText

/-!
# Conversion of text to `int`

`boost::lexical_cast<int>` takes the whole text: an optional sign and decimal
digits, for a number in the range of `int`.  It throws `bad_lexical_cast` for
any other text.  A program that calls it is modelled with any function of which
this holds (`IsIntCast`), and `lexicalCastInt` is such a function.
-/

namespace Cxx

/-- The number that decimal digits write, with a sign or without. -/
def signed : Str → Option Int
  | '-' :: cs => (decimal cs).map fun n => -n
  | '+' :: cs => decimal cs
  | cs => decimal cs

/-- The range of `int`. -/
def InInt (n : Int) : Prop := -0x80000000 ≤ n ∧ n < 0x80000000

instance (n : Int) : Decidable (InInt n) := inferInstanceAs (Decidable (_ ∧ _))

/-- What is documented of `lexical_cast<int>`, where `none` is its exception. -/
structure IsIntCast (lexicalCast : Str → Option Int) : Prop where
  eq_some_iff : ∀ s n, lexicalCast s = some n ↔ signed s = some n ∧ InInt n

/-- The cast. -/
def lexicalCastInt (s : Str) : Option Int := (signed s).filter fun n => decide (InInt n)

theorem isIntCast_lexicalCastInt : IsIntCast lexicalCastInt where
  eq_some_iff s n := by
    rw [lexicalCastInt, Option.filter_eq_some_iff, decide_eq_true_iff]

/-! ## Digits -/

/-- The characters of a decimal number are digits. -/
theorem isDigit_of_decimal {s : Str} {n : Int} (h : decimal s = some n) :
    ∀ c ∈ s, c.isDigit = true := by
  rw [decimal] at h
  split at h
  next hs => exact List.all_eq_true.mp hs.2
  next => cases h

/-- A zero in front of digits does not count. -/
theorem decimal_zero_cons {s : Str} (hs : s ≠ []) : decimal ('0' :: s) = decimal s := by
  have hdigit : ('0' : Char).isDigit = true := rfl
  simp only [decimal, List.all_cons, hdigit, Bool.true_and, hs, ne_eq, not_false_eq_true,
    true_and, reduceCtorEq, List.foldl_cons]
  rfl

/-- Digits without a sign are read as they are. -/
theorem signed_of_isDigit {c : Char} {s : Str} (hc : c.isDigit = true) :
    signed (c :: s) = decimal (c :: s) := by
  rw [signed]
  · rintro cs heq
    injection heq with hminus _
    rw [hminus] at hc
    cases hc
  · rintro cs heq
    injection heq with hplus _
    rw [hplus] at hc
    cases hc

theorem signed_toDigits (n : Nat) : signed (Nat.toDigits 10 n) = some (n : Int) := by
  rw [← decimal_toDigits n]
  cases hdigits : Nat.toDigits 10 n with
  | nil => rfl
  | cons c s =>
      exact signed_of_isDigit (toDigits_isDigit c (by rw [hdigits]; exact List.mem_cons_self))

theorem toStr_of_nonneg {n : Int} (h : 0 ≤ n) : toStr n = Nat.toDigits 10 n.toNat := by
  rw [toStr, if_neg (Int.not_lt.mpr h)]
  congr 1
  omega

/-- A written number is read back. -/
theorem signed_toStr {n : Int} (h : 0 ≤ n) : signed (toStr n) = some n := by
  rw [toStr_of_nonneg h, signed_toDigits, Int.toNat_of_nonneg h]

namespace IsIntCast

variable {lexicalCast : Str → Option Int}

/-- There is one such function. -/
theorem eq_lexicalCastInt (hcast : IsIntCast lexicalCast) : lexicalCast = lexicalCastInt := by
  funext s
  apply Option.ext
  intro n
  exact (hcast.eq_some_iff s n).trans (isIntCast_lexicalCastInt.eq_some_iff s n).symm

/-- There is no number in an empty text. -/
theorem nil (hcast : IsIntCast lexicalCast) : lexicalCast [] = none := by
  cases hn : lexicalCast [] with
  | none => rfl
  | some n => cases ((hcast.eq_some_iff [] n).mp hn).1

/-- A zero in front of digits does not count. -/
theorem zero_cons (hcast : IsIntCast lexicalCast) {c : Char} {s : Str} {n : Int}
    (h : lexicalCast ('0' :: c :: s) = some n) :
    c.isDigit = true ∧ lexicalCast (c :: s) = some n := by
  obtain ⟨hsigned, hrange⟩ := (hcast.eq_some_iff _ _).mp h
  rw [signed_of_isDigit rfl] at hsigned
  have hc := isDigit_of_decimal hsigned c (by simp)
  rw [decimal_zero_cons (List.cons_ne_nil c s), ← signed_of_isDigit hc] at hsigned
  exact ⟨hc, (hcast.eq_some_iff _ _).mpr ⟨hsigned, hrange⟩⟩

theorem zero (hcast : IsIntCast lexicalCast) {n : Int} (h : lexicalCast ['0'] = some n) :
    n = 0 := by
  cases ((hcast.eq_some_iff _ _).mp h).1
  rfl

theorem toStr (hcast : IsIntCast lexicalCast) {n : Int} (h : 0 ≤ n) (hrange : InInt n) :
    lexicalCast (Cxx.toStr n) = some n :=
  (hcast.eq_some_iff _ _).mpr ⟨signed_toStr h, hrange⟩

end IsIntCast

end Cxx
