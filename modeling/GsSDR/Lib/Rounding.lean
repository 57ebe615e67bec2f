import Mathlib.Data.Nat.Log
import Mathlib.Algebra.Order.Group.Unbundled.Int
import Mathlib.Algebra.Order.Ring.Int

/-!
# Rounding of integers to significant bits

A binary floating point number with a significand of `p` bits holds the integers
`m * 2 ^ e` with `|m| < 2 ^ p` (`Representable`).  The conversion of another
integer takes the nearest of them, and of two equally near ones that with the
even significand.  There is no limit on exponents here.

The integers that a conversion keeps are the representable ones
(`round_eq_self_iff`).  It brings no integer from `2 ^ p` on below `2 ^ p`, so a
small result of two conversions is exact (`round_round_eq_iff`).  It keeps the order
(`round_mono`), and its error is at most half of the last bit (`natAbs_round_sub_le`).
-/

namespace Rounding

/-- The multiple of `u` nearest to `n`, as the number of its units. -/
def nearest (u n : Nat) : Nat :=
  if 2 * (n % u) < u ∨ (2 * (n % u) = u ∧ n / u % 2 = 0) then n / u else n / u + 1

/-- The number of bits that do not fit. -/
def excess (p n : Nat) : Nat := n.log2 + 1 - p

/-- A natural number rounded to `p` significant bits. -/
def roundNat (p n : Nat) : Nat := nearest (2 ^ excess p n) n * 2 ^ excess p n

/-- An integer rounded to `p` significant bits. -/
def round (p : Nat) (n : Int) : Int :=
  if n < 0 then -(roundNat p n.natAbs : Int) else (roundNat p n.natAbs : Int)

/-- The integers with `p` significant bits. -/
def Representable (p : Nat) (n : Int) : Prop :=
  ∃ (m : Int) (e : Nat), m.natAbs < 2 ^ p ∧ n = m * 2 ^ e

/-- The first integer that single precision does not hold, and a tie. -/
example : round 24 16777217 = 16777216 ∧ round 24 (-16777219) = -16777220 := by decide

variable {p n u : Nat}

theorem nearest_of_dvd (hu : 0 < u) (h : u ∣ n) : nearest u n * u = n := by
  have hmod : n % u = 0 := Nat.mod_eq_zero_of_dvd h
  rw [nearest, hmod, if_pos (.inl (by omega)), Nat.div_mul_cancel h]

theorem div_le_nearest (u n : Nat) : n / u ≤ nearest u n := by
  rw [nearest]
  split
  next => exact Nat.le_refl _
  next => exact Nat.le_succ _

theorem lt_pow_excess (p n : Nat) : n < 2 ^ (p + excess p n) := by
  have hlog : n < 2 ^ (n.log2 + 1) := Nat.lt_log2_self
  refine Nat.lt_of_lt_of_le hlog (Nat.pow_le_pow_right (by omega) ?_)
  rw [excess]
  omega

/-- A number with `p` bits in front of `e` zeros has at most `e` bits that do
not fit. -/
theorem excess_le {e : Nat} (hp : 1 ≤ p) (h : n < 2 ^ (p + e)) : excess p n ≤ e := by
  rw [excess]
  by_cases hn : n = 0
  · rw [hn, Nat.log2_zero]
    omega
  · have hlog := (Nat.log2_lt hn).mpr h
    omega

/-- The numbers that are kept. -/
theorem roundNat_eq_self_iff (hp : 1 ≤ p) :
    roundNat p n = n ↔ ∃ m e, m < 2 ^ p ∧ n = m * 2 ^ e := by
  have hpos : 0 < 2 ^ excess p n := Nat.two_pow_pos _
  constructor
  · intro hkept
    refine ⟨nearest (2 ^ excess p n) n, excess p n, ?_, hkept.symm⟩
    have hlt := lt_pow_excess p n
    rw [Nat.pow_add] at hlt
    refine Nat.lt_of_mul_lt_mul_right (a := 2 ^ excess p n) ?_
    rwa [← roundNat, hkept]
  · rintro ⟨m, e, hm, hn⟩
    have hlt : n < 2 ^ (p + e) := by
      rw [hn, Nat.pow_add]
      exact Nat.mul_lt_mul_of_pos_right hm (Nat.two_pow_pos e)
    apply nearest_of_dvd hpos
    rw [hn]
    exact Nat.dvd_mul_left_of_dvd (Nat.pow_dvd_pow 2 (hn ▸ excess_le hp hlt)) m

/-- The first bit of a number with more bits stays. -/
theorem pow_log2_le_roundNat (hp : 1 ≤ p) (h : 2 ^ p ≤ n) : 2 ^ n.log2 ≤ roundNat p n := by
  have hn : n ≠ 0 := by
    have := Nat.two_pow_pos p
    omega
  have hlog : p ≤ n.log2 := (Nat.le_log2 hn).mpr h
  have hsum : p - 1 + excess p n = n.log2 := by
    rw [excess]
    omega
  have hdiv : 2 ^ (p - 1) ≤ n / 2 ^ excess p n := by
    rw [Nat.le_div_iff_mul_le (Nat.two_pow_pos _), ← Nat.pow_add, hsum]
    exact Nat.log2_self_le hn
  calc
    2 ^ n.log2 = 2 ^ (p - 1) * 2 ^ excess p n := by rw [← Nat.pow_add, hsum]
    _ ≤ roundNat p n :=
      Nat.mul_le_mul_right _ (Nat.le_trans hdiv (div_le_nearest _ _))

/-- A number with more bits stays one. -/
theorem pow_le_roundNat (hp : 1 ≤ p) (h : 2 ^ p ≤ n) : 2 ^ p ≤ roundNat p n := by
  have hn : n ≠ 0 := by
    have := Nat.two_pow_pos p
    omega
  have hlog : p ≤ n.log2 := (Nat.le_log2 hn).mpr h
  exact Nat.le_trans (Nat.pow_le_pow_right (by omega) hlog) (pow_log2_le_roundNat hp h)

/-! ## Order and error -/

/-- The nearest multiple is off by at most half of the unit. -/
theorem nearest_near (hu : 0 < u) (n : Nat) :
    2 * (nearest u n * u) ≤ 2 * n + u ∧ 2 * n ≤ 2 * (nearest u n * u) + u := by
  have hdiv : n / u * u + n % u = n := Nat.div_add_mod' n u
  have hmod : n % u < u := Nat.mod_lt n hu
  rw [nearest]
  split
  next hdown =>
    have hle : 2 * (n % u) ≤ u := by
      rcases hdown with hlt | ⟨heq, _⟩
      · exact Nat.le_of_lt hlt
      · exact Nat.le_of_eq heq
    omega
  next hup =>
    have hge : u ≤ 2 * (n % u) := by
      rw [not_or, Nat.not_lt] at hup
      exact hup.1
    rw [Nat.add_mul, Nat.one_mul]
    omega

theorem nearest_mono {m : Nat} (h : m ≤ n) : nearest u m ≤ nearest u n := by
  rcases Nat.lt_or_ge (m / u) (n / u) with hlt | hge
  · have hup : nearest u m ≤ m / u + 1 := by
      rw [nearest]
      split
      next => exact Nat.le_succ _
      next => exact Nat.le_refl _
    exact Nat.le_trans hup (Nat.le_trans hlt (div_le_nearest u n))
  · have hdiv : m / u = n / u := Nat.le_antisymm (Nat.div_le_div_right h) hge
    have hmod : m % u ≤ n % u := by
      have hm := Nat.div_add_mod' m u
      have hn := Nat.div_add_mod' n u
      rw [hdiv] at hm
      omega
    rw [nearest, nearest, hdiv]
    split
    next => split <;> omega
    next hup =>
      rw [if_neg]
      omega

/-- A rounded number has no more bits, or is the next power of two. -/
theorem roundNat_le (p n : Nat) : roundNat p n ≤ 2 ^ (p + excess p n) := by
  have hpos : 0 < 2 ^ excess p n := Nat.two_pow_pos _
  have hdiv : n / 2 ^ excess p n < 2 ^ p := by
    rw [Nat.div_lt_iff_lt_mul hpos, ← Nat.pow_add]
    exact lt_pow_excess p n
  have hnearest : nearest (2 ^ excess p n) n ≤ 2 ^ p := by
    rw [nearest]
    split
    next => exact Nat.le_of_lt hdiv
    next => exact hdiv
  rw [roundNat, Nat.pow_add]
  exact Nat.mul_le_mul_right _ hnearest

theorem roundNat_mono {m : Nat} (hp : 1 ≤ p) (h : m ≤ n) : roundNat p m ≤ roundNat p n := by
  have hexcess : excess p m ≤ excess p n :=
    excess_le hp (Nat.lt_of_le_of_lt h (lt_pow_excess p n))
  rcases Nat.lt_or_eq_of_le hexcess with hlt | heq
  · -- The larger number has a bit more, and keeps it.
    have hlarge : 2 ^ p ≤ n := by
      by_contra hsmall
      have hzero := excess_le (e := 0) hp (Nat.not_le.mp hsmall)
      omega
    have hlog : p + excess p m ≤ n.log2 := by
      have hn : excess p n = n.log2 + 1 - p := rfl
      omega
    calc
      roundNat p m ≤ 2 ^ (p + excess p m) := roundNat_le p m
      _ ≤ 2 ^ n.log2 := Nat.pow_le_pow_right (by omega) hlog
      _ ≤ roundNat p n := pow_log2_le_roundNat hp hlarge
  · rw [roundNat, roundNat, heq]
    exact Nat.mul_le_mul_right _ (nearest_mono h)

/-! ## Integers -/

theorem round_of_nonneg {n : Int} (h : 0 ≤ n) : round p n = (roundNat p n.natAbs : Int) := by
  rw [round, if_neg (Int.not_lt.mpr h)]

theorem round_of_neg {n : Int} (h : n < 0) : round p n = -(roundNat p n.natAbs : Int) := by
  rw [round, if_pos h]

/-- A conversion keeps exactly the representable integers. -/
theorem round_eq_self_iff (hp : 1 ≤ p) (n : Int) : round p n = n ↔ Representable p n := by
  have hnat : round p n = n ↔ roundNat p n.natAbs = n.natAbs := by
    rcases Int.lt_or_le n 0 with hneg | hpos
    · rw [round_of_neg hneg]
      omega
    · rw [round_of_nonneg hpos]
      omega
  rw [hnat, roundNat_eq_self_iff hp]
  constructor
  · rintro ⟨m, e, hm, hn⟩
    rcases Int.lt_or_le n 0 with hneg | hpos
    · refine ⟨-m, e, by simpa using hm, ?_⟩
      have hcast : (n.natAbs : Int) = m * 2 ^ e := by exact_mod_cast hn
      rw [Int.neg_mul, ← hcast]
      omega
    · refine ⟨m, e, by simpa using hm, ?_⟩
      have hcast : (n.natAbs : Int) = m * 2 ^ e := by exact_mod_cast hn
      rw [← hcast]
      omega
  · rintro ⟨m, e, hm, rfl⟩
    refine ⟨m.natAbs, e, hm, ?_⟩
    rw [Int.natAbs_mul, Int.natAbs_pow]
    rfl

/-- Integers of `p` bits are representable, and so is the next one. -/
theorem representable_of_le (hp : 1 ≤ p) {n : Int} (h : n.natAbs ≤ 2 ^ p) :
    Representable p n := by
  rcases Nat.lt_or_eq_of_le h with hlt | heq
  · exact ⟨n, 0, hlt, by rw [Int.pow_zero, Int.mul_one]⟩
  · have hcast : (n.natAbs : Int) = 2 ^ p := by exact_mod_cast heq
    have hone : 1 < 2 ^ p := Nat.one_lt_two_pow (by omega)
    rcases Int.natAbs_eq n with hn | hn
    · refine ⟨1, p, hone, ?_⟩
      rw [hn, hcast, Int.one_mul]
    · refine ⟨-1, p, by simpa using hone, ?_⟩
      rw [hn, hcast, Int.neg_mul, Int.one_mul]

theorem round_of_le (hp : 1 ≤ p) {n : Int} (h : n.natAbs ≤ 2 ^ p) : round p n = n :=
  (round_eq_self_iff hp n).mpr (representable_of_le hp h)

/-- Integers with more bits still have more bits. -/
theorem pow_le_natAbs_round (hp : 1 ≤ p) {n : Int} (h : 2 ^ p ≤ n.natAbs) :
    2 ^ p ≤ (round p n).natAbs := by
  rcases Int.lt_or_le n 0 with hneg | hpos
  · rw [round_of_neg hneg, Int.natAbs_neg]
    exact pow_le_roundNat hp h
  · rw [round_of_nonneg hpos]
    exact pow_le_roundNat hp h

/-- A conversion keeps the order. -/
theorem round_mono (hp : 1 ≤ p) {m n : Int} (h : m ≤ n) : round p m ≤ round p n := by
  rcases Int.lt_or_le m 0 with hm | hm
  · rcases Int.lt_or_le n 0 with hn | hn
    · have hle : roundNat p n.natAbs ≤ roundNat p m.natAbs := roundNat_mono hp (by omega)
      rw [round_of_neg hm, round_of_neg hn]
      omega
    · rw [round_of_neg hm, round_of_nonneg hn]
      omega
  · have hn : 0 ≤ n := Int.le_trans hm h
    have hle : roundNat p m.natAbs ≤ roundNat p n.natAbs := roundNat_mono hp (by omega)
    rw [round_of_nonneg hm, round_of_nonneg hn]
    omega

/-- Of `e` bits that do not fit, its error is at most half of the last that does. -/
theorem natAbs_round_sub_le (hp : 1 ≤ p) {e : Nat} {n : Int} (h : n.natAbs ≤ 2 ^ (p + e)) :
    2 * (round p n - n).natAbs ≤ 2 ^ e := by
  rcases Nat.lt_or_eq_of_le h with hlt | heq
  · obtain ⟨hup, hdown⟩ := nearest_near (Nat.two_pow_pos (excess p n.natAbs)) n.natAbs
    rw [← roundNat] at hup hdown
    have hexcess : 2 ^ excess p n.natAbs ≤ 2 ^ e :=
      Nat.pow_le_pow_right (by omega) (excess_le hp hlt)
    rcases Int.lt_or_le n 0 with hneg | hpos
    · rw [round_of_neg hneg]
      omega
    · rw [round_of_nonneg hpos]
      omega
  · have hkept : round p n = n := by
      rw [round_eq_self_iff hp]
      have hone : 1 < 2 ^ p := Nat.one_lt_two_pow (by omega)
      have hcast : (n.natAbs : Int) = 1 * 2 ^ (p + e) := by
        rw [Int.one_mul]
        exact_mod_cast heq
      rcases Int.natAbs_eq n with hn | hn
      · exact ⟨1, p + e, hone, hn.trans hcast⟩
      · exact ⟨-1, p + e, hone, by rw [hn, hcast, Int.neg_mul]⟩
    rw [hkept, Int.sub_self]
    exact Nat.zero_le _

/-- A small result of a conversion to `q` and then to `p` bits is the integer
converted. -/
theorem round_round_eq_iff {q : Nat} (hp : 1 ≤ p) (hpq : p ≤ q) {n d : Int}
    (hd : d.natAbs < 2 ^ p) : round p (round q n) = d ↔ n = d := by
  have hpow : 2 ^ p ≤ 2 ^ q := Nat.pow_le_pow_right (by omega) hpq
  constructor
  · intro heq
    rcases Nat.lt_or_ge n.natAbs (2 ^ p) with hsmall | hlarge
    · have hq : round q n = n := round_of_le (by omega) (by omega)
      rwa [hq, round_of_le hp (Nat.le_of_lt hsmall)] at heq
    · have hq : 2 ^ p ≤ (round q n).natAbs := by
        rcases Nat.lt_or_ge n.natAbs (2 ^ q) with hkept | hrounded
        · rw [round_of_le (by omega) (Nat.le_of_lt hkept)]
          exact hlarge
        · exact Nat.le_trans hpow (pow_le_natAbs_round (by omega) hrounded)
      have hresult := pow_le_natAbs_round hp hq
      rw [heq] at hresult
      omega
  · rintro rfl
    have hq : round q n = n := round_of_le (by omega) (by omega)
    rw [hq, round_of_le hp (Nat.le_of_lt hd)]

end Rounding
