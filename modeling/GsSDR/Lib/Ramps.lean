import Mathlib.Algebra.BigOperators.Group.List.Basic
import Mathlib.Algebra.BigOperators.Intervals
import Mathlib.Tactic.Ring

/-!
# Ramps

A ramp rises by one increment from sample to sample.  `ramps n phase incs` has a
ramp of `n` samples for each of the increments.  Each ramp goes on from the last
sample of the one before, by its own increment.

So sample `t` is the sum of the increments of the samples up to `t`, where sample
`j` belongs to increment `j / n` (`getElem?_ramps`).
-/

namespace Ramps

variable {R : Type*} [CommSemiring R]

/-- The `n` samples behind a sample `phase`. -/
def ramp (n : Nat) (inc phase : R) : List R :=
  (List.range n).map fun (k : Nat) => (k : R) * inc + (phase + inc)

/-- A ramp for each increment. -/
def ramps (n : Nat) : R → List R → List R
  | _, [] => []
  | phase, inc :: incs => ramp n inc phase ++ ramps n (phase + n * inc) incs

variable {n : Nat} {inc phase : R} {incs : List R}

@[simp] theorem length_ramp (n : Nat) (inc phase : R) : (ramp n inc phase).length = n := by
  rw [ramp, List.length_map, List.length_range]

@[simp] theorem length_ramps (n : Nat) (phase : R) (incs : List R) :
    (ramps n phase incs).length = incs.length * n := by
  induction incs generalizing phase with
  | nil => rw [ramps, List.length_nil, Nat.zero_mul]
  | cons inc incs ih =>
      rw [ramps, List.length_append, length_ramp, ih, List.length_cons, Nat.succ_mul, Nat.add_comm]

theorem getElem?_ramp {t : Nat} (ht : t < n) :
    (ramp n inc phase)[t]? = some (phase + (t + 1 : Nat) * inc) := by
  rw [ramp, List.getElem?_map, List.getElem?_range ht, Option.map_some]
  congr 1
  push_cast
  ring

/-- The sample from which the next ramp goes on. -/
theorem getLast?_ramp (hn : 1 ≤ n) :
    (ramp n inc phase).getLast? = some (phase + n * inc) := by
  rw [List.getLast?_eq_getElem?, length_ramp, getElem?_ramp (by omega), Nat.sub_add_cancel hn]

/-- The increments of the samples of the first ramp. -/
theorem sum_first (inc : R) (incs : List R) {t : Nat} (ht : t ≤ n) :
    ∑ j ∈ Finset.range t, (inc :: incs).getD (j / n) 0 = t * inc := by
  have hfirst : ∀ j ∈ Finset.range t, (inc :: incs).getD (j / n) 0 = inc := by
    intro j hj
    have hlt : j < n := Nat.lt_of_lt_of_le (Finset.mem_range.mp hj) ht
    rw [Nat.div_eq_of_lt hlt, List.getD_cons_zero]
  rw [Finset.sum_congr rfl hfirst, Finset.sum_const, Finset.card_range, nsmul_eq_mul]

/-- Behind the first ramp the others follow. -/
theorem sum_behind (hn : 1 ≤ n) (inc : R) (incs : List R) (u : Nat) :
    ∑ j ∈ Finset.range (n + u), (inc :: incs).getD (j / n) 0 =
      n * inc + ∑ j ∈ Finset.range u, incs.getD (j / n) 0 := by
  rw [Finset.sum_range_add, sum_first inc incs (Nat.le_refl n)]
  congr 1
  refine Finset.sum_congr rfl fun j _ => ?_
  rw [Nat.add_div_left j hn, List.getD_cons_succ]

/-- Each sample is the sum of the increments so far. -/
theorem getElem?_ramps {t : Nat} (ht : t < incs.length * n) :
    (ramps n phase incs)[t]? =
      some (phase + ∑ j ∈ Finset.range (t + 1), incs.getD (j / n) 0) := by
  induction incs generalizing phase t with
  | nil => simp at ht
  | cons inc incs ih =>
      rw [List.length_cons, Nat.succ_mul] at ht
      rw [ramps]
      rcases Nat.lt_or_ge t n with hfirst | hbehind
      · rw [List.getElem?_append_left (by rwa [length_ramp]), getElem?_ramp hfirst,
          sum_first inc incs hfirst]
      · obtain ⟨u, rfl⟩ := Nat.exists_eq_add_of_le hbehind
        have hn : 1 ≤ n := Nat.pos_of_ne_zero fun hzero => by
          rw [hzero, Nat.mul_zero] at ht
          omega
        rw [List.getElem?_append_right (by rwa [length_ramp]), length_ramp, Nat.add_sub_cancel_left,
          ih (by omega), Nat.add_assoc n u 1, sum_behind hn, add_assoc]

/-- Two samples in a row differ by the increment of the later one. -/
theorem getElem?_ramps_succ {t : Nat} {p q : R} (hp : (ramps n phase incs)[t]? = some p)
    (hq : (ramps n phase incs)[t + 1]? = some q) : q = p + incs.getD ((t + 1) / n) 0 := by
  have hlt : t + 1 < incs.length * n := by
    obtain ⟨h, _⟩ := List.getElem?_eq_some_iff.mp hq
    rwa [length_ramps] at h
  rw [getElem?_ramps (by omega)] at hp
  rw [getElem?_ramps hlt] at hq
  cases hp
  cases hq
  rw [Finset.sum_range_succ _ (t + 1), add_assoc]

end Ramps
