import Mathlib.Data.Int.Log
import Mathlib.Data.Rat.Floor
import Mathlib.Algebra.Order.Field.Power
import Mathlib.Tactic.Linarith
import Mathlib.Tactic.Positivity
import Mathlib.Tactic.Ring

/-!
# Double precision

A finite number of double precision is a rational, a multiple of a power of two
with a significand of 53 bits.  The result of an operation is the exact one rounded
to the nearest of them, and of two equally near ones to that with the even
significand (`round`).  There are subnormal numbers, and a result from `2 ^ 1024`
on is not finite.

`Double` keeps a rational that rounding does not change, or nothing for infinities
and for what is not a number.  The sign of a zero is left out.

Rounding is monotone (`round_mono`), rounded numbers are kept (`round_round`), and
so are integers of 53 bits (`round_intCast`).  The quotient of two integers may be
rounded, but its integer part is that of the exact quotient as long as the dividend
has 53 bits (`floor_round_div`).
-/

namespace Binary64

/-! ## The nearest integer -/

/-- The integer nearest to `x`, the even one of two. -/
def nearest (x : ℚ) : ℤ :=
  let n := ⌊x⌋
  if x - n < 1 / 2 ∨ (x - n = 1 / 2 ∧ n % 2 = 0) then n else n + 1

variable {x y : ℚ}

theorem floor_le_nearest (x : ℚ) : ⌊x⌋ ≤ nearest x := by
  rw [nearest]
  split
  next => exact Int.le_refl _
  next => omega

theorem nearest_le_floor_add_one (x : ℚ) : nearest x ≤ ⌊x⌋ + 1 := by
  rw [nearest]
  split
  next => omega
  next => exact Int.le_refl _

/-- Integers are not jumped over. -/
theorem le_nearest {k : ℤ} (h : (k : ℚ) ≤ x) : k ≤ nearest x :=
  Int.le_trans (Int.le_floor.mpr h) (floor_le_nearest x)

theorem nearest_intCast (k : ℤ) : nearest (k : ℚ) = k := by
  rw [nearest, Int.floor_intCast, sub_self]
  exact if_pos (.inl (by norm_num))

theorem nearest_le {k : ℤ} (h : x ≤ (k : ℚ)) : nearest x ≤ k := by
  rcases h.lt_or_eq with hlt | rfl
  · have hfloor : ⌊x⌋ < k := Int.floor_lt.mpr hlt
    have hnear := nearest_le_floor_add_one x
    omega
  · rw [nearest_intCast]

theorem nearest_mono (h : x ≤ y) : nearest x ≤ nearest y := by
  rcases (Int.floor_le_floor h).lt_or_eq with hlt | heq
  · have hx := nearest_le_floor_add_one x
    have hy := floor_le_nearest y
    omega
  · rw [nearest, nearest, heq]
    -- With the same integer part, `x` is rounded down where `y` is.
    split
    next => split <;> omega
    next hup =>
      rw [if_neg]
      rintro (hy | ⟨hy, heven⟩)
      · exact hup (.inl (by linarith))
      · rcases (show x - ⌊y⌋ ≤ 1 / 2 by linarith).lt_or_eq with hx | hx
        · exact hup (.inl hx)
        · exact hup (.inr ⟨hx, heven⟩)

/-- The error is at most one half. -/
theorem nearest_le_add_half (x : ℚ) : (nearest x : ℚ) ≤ x + 1 / 2 := by
  have hfloor := Int.floor_le x
  rw [nearest]
  split
  next => linarith
  next hup =>
    have hhalf : 1 / 2 ≤ x - ⌊x⌋ := not_lt.mp fun hlt => hup (.inl hlt)
    push_cast
    linarith

/-! ## Rounding -/

/-- The exponent of the last bit. -/
def exponent (x : ℚ) : ℤ := max (Int.log 2 |x|) (-1022) - 52

/-- The last bit. -/
def ulp (x : ℚ) : ℚ := 2 ^ exponent x

/-- The nearest number with 53 bits. -/
def round (x : ℚ) : ℚ := nearest (x / ulp x) * ulp x

theorem ulp_pos (x : ℚ) : 0 < ulp x := by
  rw [ulp]
  positivity

/-- Multiples of the last bit are not jumped over. -/
theorem le_round {k : ℤ} (h : k * ulp x ≤ x) : k * ulp x ≤ round x := by
  have hk : (k : ℚ) ≤ x / ulp x := (le_div_iff₀ (ulp_pos x)).mpr h
  exact mul_le_mul_of_nonneg_right (by exact_mod_cast le_nearest hk) (ulp_pos x).le

theorem round_le {k : ℤ} (h : x ≤ k * ulp x) : round x ≤ k * ulp x := by
  have hk : x / ulp x ≤ (k : ℚ) := (div_le_iff₀ (ulp_pos x)).mpr h
  exact mul_le_mul_of_nonneg_right (by exact_mod_cast nearest_le hk) (ulp_pos x).le

/-- Multiples of the last bit are kept. -/
theorem round_of_multiple {k : ℤ} (h : x = k * ulp x) : round x = x := by
  rw [round]
  nth_rewrite 1 [h]
  rw [mul_div_cancel_right₀ _ (ulp_pos x).ne', nearest_intCast, ← h]

/-- Higher powers of two are multiples of the last bit. -/
theorem zpow_eq_mul_ulp {e : ℤ} (h : exponent x ≤ e) : ∃ k : ℤ, (2 : ℚ) ^ e = k * ulp x := by
  obtain ⟨d, rfl⟩ : ∃ d : ℕ, e = exponent x + d := ⟨(e - exponent x).toNat, by omega⟩
  refine ⟨2 ^ d, ?_⟩
  rw [zpow_add₀ two_ne_zero, zpow_natCast, ulp, mul_comm]
  push_cast
  rfl

theorem exponent_mono (hx : 0 < x) (h : x ≤ y) : exponent x ≤ exponent y := by
  rw [exponent, exponent, abs_of_pos hx, abs_of_pos (hx.trans_le h)]
  have hlog := Int.log_mono_right (b := 2) hx h
  omega

theorem round_zero : round 0 = 0 := by
  rw [round, zero_div]
  exact mul_eq_zero_of_left (by exact_mod_cast nearest_intCast 0) _

theorem round_nonneg (h : 0 ≤ x) : 0 ≤ round x := by
  have hzero := le_round (x := x) (k := 0) (by rwa [Int.cast_zero, zero_mul])
  rwa [Int.cast_zero, zero_mul] at hzero

/-- Rounding is monotone.  Numbers with different last bits have a power of two
between them, which is not jumped over from either side. -/
theorem round_mono (hx : 0 ≤ x) (h : x ≤ y) : round x ≤ round y := by
  rcases hx.eq_or_lt with rfl | hpos
  · rw [round_zero]
    exact round_nonneg h
  · rcases (exponent_mono hpos h).lt_or_eq with hlt | heq
    · have hy : 0 < y := hpos.trans_le h
      have hexp : exponent y = Int.log 2 y - 52 ∧ Int.log 2 x < Int.log 2 y := by
        rw [exponent, exponent, abs_of_pos hpos, abs_of_pos hy] at hlt
        rw [exponent, abs_of_pos hy]
        omega
      obtain ⟨hlast, hlog⟩ := hexp
      have hbelow : (2 : ℚ) ^ Int.log 2 y ≤ y := Int.zpow_log_le_self (b := 2) (by omega) hy
      have habove : x ≤ (2 : ℚ) ^ Int.log 2 y :=
        ((Int.lt_zpow_iff_log_lt (b := 2) (by omega) hpos).mpr hlog).le
      obtain ⟨l, hl⟩ := zpow_eq_mul_ulp (show exponent y ≤ Int.log 2 y by omega)
      obtain ⟨k, hk⟩ := zpow_eq_mul_ulp (show exponent x ≤ Int.log 2 y by omega)
      calc
        round x ≤ k * ulp x := round_le (hk ▸ habove)
        _ = l * ulp y := by rw [← hk, hl]
        _ ≤ round y := le_round (hl ▸ hbelow)
    · rw [round, round, ulp, ulp, heq]
      have hquot : x / 2 ^ exponent y ≤ y / 2 ^ exponent y :=
        div_le_div_of_nonneg_right h (by positivity)
      exact mul_le_mul_of_nonneg_right (by exact_mod_cast nearest_mono hquot) (by positivity)

theorem abs_lt_zpow_exponent (x : ℚ) : |x| < 2 ^ (exponent x + 53) := by
  have hlog : |x| < 2 ^ (Int.log 2 |x| + 1) := Int.lt_zpow_succ_log_self (b := 2) (by omega) |x|
  refine hlog.trans_le (zpow_le_zpow_right₀ (by norm_num) ?_)
  rw [exponent]
  omega

/-- A number with less than 53 bits in front of bit `e` has its last bit there or
below. -/
theorem exponent_le {e : ℤ} (he : -1074 ≤ e) (hx : x ≠ 0) (h : |x| < 2 ^ (e + 53)) :
    exponent x ≤ e := by
  have hlog := (Int.lt_zpow_iff_log_lt (b := 2) (by omega) (abs_pos.mpr hx)).mp h
  rw [exponent]
  omega

/-- A number with 53 bits is kept. -/
theorem round_of_lt {m e : ℤ} (he : -1074 ≤ e) (hm : |m| < 2 ^ 53) (h : x = m * 2 ^ e) :
    round x = x := by
  rcases eq_or_ne x 0 with rfl | hx
  · exact round_zero
  · have hbound : |x| < 2 ^ (e + 53) := by
      have hcast : |(m : ℚ)| < 2 ^ 53 := by exact_mod_cast hm
      have hpow : (0 : ℚ) < 2 ^ e := by positivity
      rw [h, abs_mul, abs_of_pos hpow, zpow_add₀ two_ne_zero, mul_comm]
      exact mul_lt_mul_of_pos_left hcast hpow
    obtain ⟨k, hk⟩ := zpow_eq_mul_ulp (exponent_le he hx hbound)
    refine round_of_multiple (k := m * k) ?_
    rw [Int.cast_mul, mul_assoc, ← hk, h]

/-- The significand may also be the next power of two. -/
theorem round_of_le {m e : ℤ} (he : -1074 ≤ e) (hm : |m| ≤ 2 ^ 53) (h : x = m * 2 ^ e) :
    round x = x := by
  rcases hm.lt_or_eq with hlt | heq
  · exact round_of_lt he hlt h
  · obtain ⟨half, hhalf, rfl⟩ : ∃ half : ℤ, |half| = 2 ^ 52 ∧ m = 2 * half := by
      rcases (abs_eq (by norm_num)).mp heq with rfl | rfl
      · exact ⟨2 ^ 52, rfl, rfl⟩
      · exact ⟨-2 ^ 52, rfl, rfl⟩
    refine round_of_lt (m := half) (e := e + 1) (by omega) (by rw [hhalf]; norm_num) ?_
    rw [h, zpow_add₀ two_ne_zero]
    push_cast
    ring

/-- What has been rounded is kept. -/
theorem round_round (x : ℚ) : round (round x) = round x := by
  have hbound : |x / ulp x| ≤ 2 ^ 53 := by
    rw [abs_div, abs_of_pos (ulp_pos x), div_le_iff₀ (ulp_pos x), ulp, mul_comm]
    have hlt := abs_lt_zpow_exponent x
    rw [zpow_add₀ two_ne_zero] at hlt
    exact hlt.le
  obtain ⟨hlow, hhigh⟩ := abs_le.mp hbound
  have hsignificand : |nearest (x / ulp x)| ≤ 2 ^ 53 := by
    refine abs_le.mpr ⟨le_nearest ?_, nearest_le ?_⟩
    · push_cast
      exact hlow
    · push_cast
      exact hhigh
  exact round_of_le (by rw [exponent]; omega) hsignificand rfl

/-- Integers of 53 bits are kept. -/
theorem round_intCast {n : ℤ} (h : |n| ≤ 2 ^ 53) : round (n : ℚ) = n :=
  round_of_le (e := 0) (by omega) h (by rw [zpow_zero, mul_one])

theorem round_natCast {n : ℕ} (h : n ≤ 2 ^ 53) : round (n : ℚ) = n := by
  have hint := round_intCast (n := n) (by rw [abs_of_nonneg (by omega)]; exact_mod_cast h)
  exact_mod_cast hint

theorem one_le_round (h : 1 ≤ x) : 1 ≤ round x := by
  have hone : round 1 = 1 := by
    have hint := round_intCast (n := 1) (by norm_num)
    rwa [Int.cast_one] at hint
  rw [← hone]
  exact round_mono zero_le_one h

/-! ## Quotients -/

theorem round_le_add_half (x : ℚ) : round x ≤ x + ulp x / 2 := by
  have hquot := nearest_le_add_half (x / ulp x)
  have hscaled := mul_le_mul_of_nonneg_right hquot (ulp_pos x).le
  rw [add_mul, div_mul_cancel₀ _ (ulp_pos x).ne'] at hscaled
  calc
    round x ≤ x + 1 / 2 * ulp x := hscaled
    _ = x + ulp x / 2 := by ring

/-- The last bit of a number that is not small. -/
theorem ulp_le (h : 1 ≤ x) : 2 ^ 52 * ulp x ≤ x := by
  have hpos : 0 < x := zero_lt_one.trans_le h
  have hlog : 0 ≤ Int.log 2 x := by
    have hmono := Int.log_mono_right (b := 2) zero_lt_one h
    rwa [Int.log_one_right] at hmono
  have hexp : exponent x = Int.log 2 x - 52 := by
    rw [exponent, abs_of_pos hpos]
    omega
  have hself : (2 : ℚ) ^ Int.log 2 x ≤ x := Int.zpow_log_le_self (b := 2) (by omega) hpos
  have hsplit : (2 : ℚ) ^ 52 * ulp x = 2 ^ Int.log 2 x := by
    rw [ulp, hexp, zpow_sub₀ two_ne_zero]
    exact mul_div_cancel₀ _ (by positivity)
  rw [hsplit]
  exact hself

/-- The integer part of a quotient is not changed by rounding. -/
theorem floor_round_div {a b : ℕ} (hb : 0 < b) (hle : b ≤ a) (ha : a < 2 ^ 53) :
    ⌊round ((a : ℚ) / b)⌋ = (a / b : ℕ) := by
  obtain ⟨n, hn⟩ : ∃ n, a / b = n := ⟨_, rfl⟩
  have hlow : (n : ℚ) * b ≤ a := by
    rw [← hn]
    exact_mod_cast Nat.div_mul_le_self a b
  have hhigh : (a : ℚ) + 1 ≤ (n + 1) * b := by
    have hlt : a < b * (n + 1) := hn ▸ Nat.lt_mul_div_succ a hb
    exact_mod_cast (show a + 1 ≤ (n + 1) * b by rw [Nat.mul_comm]; exact hlt)
  have hbpos : (0 : ℚ) < b := by exact_mod_cast hb
  have hbits : (a : ℚ) < 2 ^ 53 := by exact_mod_cast ha
  obtain ⟨y, hy⟩ : ∃ y, (a : ℚ) / b = y := ⟨_, rfl⟩
  have hya : y * b = a := by rw [← hy, div_mul_cancel₀ _ hbpos.ne']
  have hone : 1 ≤ y := by
    rw [← hy]
    exact (one_le_div hbpos).mpr (by exact_mod_cast hle)
  rw [hn, hy, Int.floor_eq_iff]
  constructor
  · -- The integer part is a multiple of the last bit.
    have hbelow : (n : ℚ) ≤ y := le_of_mul_le_mul_right (hlow.trans_eq hya.symm) hbpos
    have hexp : exponent y ≤ 0 := by
      have hbound : y ≤ a := by
        rw [← hya]
        exact le_mul_of_one_le_right (zero_le_one.trans hone) (by exact_mod_cast hb)
      refine exponent_le (by omega) (zero_lt_one.trans_le hone).ne' ?_
      rw [abs_of_pos (zero_lt_one.trans_le hone)]
      exact hbound.trans_lt hbits
    obtain ⟨k, hk⟩ := zpow_eq_mul_ulp hexp
    rw [zpow_zero] at hk
    have hmultiple : (n : ℚ) = ((n * k : ℤ) : ℚ) * ulp y := by
      push_cast
      rw [mul_assoc, ← hk, mul_one]
    have hround := le_round (hmultiple ▸ hbelow)
    rw [← hmultiple] at hround
    exact_mod_cast hround
  · -- The next integer is a `b`th away, which is more than the error.
    have herror : ulp y / 2 * b < 1 := by
      have hlast := mul_le_mul_of_nonneg_right (ulp_le hone) hbpos.le
      rw [hya] at hlast
      have hsmall : 2 ^ 52 * ulp y * b < 2 ^ 53 := hlast.trans_lt hbits
      norm_num at hsmall
      linarith
    have hscaled : round y * b < (n + 1) * b := by
      have hround := mul_le_mul_of_nonneg_right (round_le_add_half y) hbpos.le
      rw [add_mul, hya] at hround
      linarith
    exact_mod_cast lt_of_mul_lt_mul_right hscaled hbpos.le

/-! ## Numbers -/

/-- A number of double precision, with its value if it is finite. -/
structure Double where
  value : Option ℚ
  /-- It needs no rounding. -/
  rounded : ∀ x ∈ value, round x = x
  /-- It is not too large. -/
  bounded : ∀ x ∈ value, |x| < 2 ^ 1024

namespace Double

/-- No finite number. -/
def nonfinite : Double := ⟨none, by simp, by simp⟩

/-- The number nearest to a rational. -/
def ofRat (x : ℚ) : Double :=
  if h : |round x| < 2 ^ 1024 then ⟨some (round x), by simp [round_round], by simpa using h⟩
  else nonfinite

/-- The result of an operation on finite numbers. -/
def lift (f : ℚ → ℚ → Option ℚ) (a b : Double) : Double :=
  match a.value, b.value with
  | some x, some y => ((f x y).map ofRat).getD nonfinite
  | _, _ => nonfinite

instance : NatCast Double := ⟨fun n => ofRat n⟩

instance : Add Double := ⟨lift fun x y => some (x + y)⟩

instance : Mul Double := ⟨lift fun x y => some (x * y)⟩

instance : Div Double := ⟨lift fun x y => if y = 0 then none else some (x / y)⟩

/-- Only finite numbers are compared. -/
instance : BEq Double :=
  ⟨fun a b =>
    match a.value, b.value with
    | some x, some y => x == y
    | _, _ => false⟩

instance : LE Double := ⟨fun a b => ∃ x ∈ a.value, ∃ y ∈ b.value, x ≤ y⟩

instance : LT Double := ⟨fun a b => ∃ x ∈ a.value, ∃ y ∈ b.value, x < y⟩

variable {a b : Double}

theorem ext_value (h : a.value = b.value) : a = b := by
  cases a
  cases b
  cases h
  rfl

theorem ofRat_of_bounded (h : |round x| < 2 ^ 1024) : (ofRat x).value = some (round x) := by
  rw [ofRat, dif_pos h]

/-- The value of a conversion, when there is one. -/
theorem value_ofRat (h : (ofRat x).value = some y) : y = round x := by
  rw [ofRat] at h
  split at h
  next =>
    cases h
    rfl
  next => cases h

/-- A number is the conversion of its value. -/
theorem ofRat_value (h : a.value = some x) : ofRat x = a := by
  have hround := a.rounded x h
  apply ext_value
  rw [ofRat_of_bounded (by rw [hround]; exact a.bounded x h), hround, h]

/-- A result up to an integer of 53 bits is finite. -/
theorem bounded_of_le {n : ℕ} (hx : 0 ≤ x) (hle : x ≤ n) (h : n ≤ 2 ^ 53) :
    |round x| < 2 ^ 1024 := by
  rw [abs_of_nonneg (round_nonneg hx)]
  have hn : round x ≤ 2 ^ 53 := by
    calc
      round x ≤ round n := round_mono hx hle
      _ = n := round_natCast h
      _ ≤ 2 ^ 53 := by exact_mod_cast h
  exact hn.trans_lt (pow_lt_pow_right₀ (by norm_num) (by norm_num))

/-- Integers of 53 bits have the numbers of their value. -/
theorem value_natCast {n : ℕ} (h : n ≤ 2 ^ 53) : (n : Double).value = some (n : ℚ) := by
  have hbounded : |round (n : ℚ)| < 2 ^ 1024 :=
    bounded_of_le (Nat.cast_nonneg n) (le_refl _) h
  exact (ofRat_of_bounded hbounded).trans (congrArg some (round_natCast h))

/-- The conversion of an integer that is not zero. -/
theorem one_le_natCast {n : ℕ} (hn : 1 ≤ n) (h : (n : Double).value = some x) : 1 ≤ x := by
  rw [value_ofRat h]
  exact one_le_round (by exact_mod_cast hn)

/-- Conversions keep the order, as long as they are finite. -/
theorem natCast_mono {m n : ℕ} (hle : m ≤ n) (hm : (m : Double).value = some x)
    (hn : (n : Double).value = some y) : x ≤ y := by
  rw [value_ofRat hm, value_ofRat hn]
  exact round_mono (Nat.cast_nonneg m) (by exact_mod_cast hle)

/-- A finite number equals itself. -/
theorem beq_self (h : a.value = some x) : (a == a) = true := by
  simp [BEq.beq, h]

/-- A factor of one changes nothing. -/
theorem natCast_one_mul (a : Double) : ((1 : ℕ) : Double) * a = a := by
  have hone : ((1 : ℕ) : Double).value = some 1 := by
    rw [value_natCast (by norm_num), Nat.cast_one]
  change lift (fun x y => some (x * y)) ((1 : ℕ) : Double) a = a
  rw [lift, hone]
  cases ha : a.value with
  | none =>
      apply ext_value
      rw [ha]
      rfl
  | some x =>
      dsimp only
      rw [one_mul]
      exact ofRat_value ha

/-- A quotient with a value. -/
theorem value_div {q : ℚ} (h : (a / b).value = some q) :
    ∃ x y, a.value = some x ∧ b.value = some y ∧ y ≠ 0 ∧ q = round (x / y) := by
  change (lift (fun x y => if y = 0 then none else some (x / y)) a b).value = some q at h
  rw [lift] at h
  split at h
  next x y ha hb =>
    split at h
    next => cases h
    next hy => exact ⟨x, y, ha, hb, hy, value_ofRat h⟩
  next => cases h

/-- The quotient of integers of 53 bits. -/
theorem value_natCast_div {m n : ℕ} (hm : m ≤ 2 ^ 53) (hn : n ≤ 2 ^ 53) (hpos : 0 < n) :
    ((m : Double) / (n : Double)).value = some (round ((m : ℚ) / n)) := by
  have hn1 : (1 : ℚ) ≤ n := by exact_mod_cast hpos
  change (lift (fun x y => if y = 0 then none else some (x / y)) (m : Double) n).value = _
  rw [lift, value_natCast hm, value_natCast hn]
  dsimp only
  rw [if_neg (zero_lt_one.trans_le hn1).ne']
  refine ofRat_of_bounded (bounded_of_le (by positivity) ?_ hm)
  exact div_le_self (Nat.cast_nonneg m) hn1

end Double

end Binary64
