import GsSDR.Lib.Chunks
import GsSDR.Lib.Ramps
import Mathlib.Analysis.SpecialFunctions.Trigonometric.Bounds
import Mathlib.Data.List.Forall2

/-!
# Tones

Three samples in a row of a tone of angle `θ` have the sum of the outer two at
`2 * cos θ` times the one between.  Samples that are off by at most `ε` are off
from this by at most `4 * ε` (`follows_of_near`).  The samples of another tone are
off by more than that at one of two places in a row, when the cosines of the two
angles are far enough apart (`not_follows_of_near`).

So of two tones that follow each other, in any order and with a phase that goes
on, the received samples still tell which is which (`symbols_of_near`).
-/

namespace Tones

open Real

/-- The samples of a tone of angle `θ`, behind a phase. -/
noncomputable def tone (n : Nat) (θ φ : ℝ) : List ℝ := (Ramps.ramp n θ φ).map sin

/-- Samples that are each off by at most `ε`. -/
def Near (ε : ℝ) (xs ys : List ℝ) : Prop := List.Forall₂ (fun x y => |x - y| ≤ ε) xs ys

/-- All samples obey the rule of the tone of angle `θ`, as far as errors of at most
`ε` let them. -/
def Follows (ε θ : ℝ) (xs : List ℝ) : Prop :=
  ∀ i x y z, xs[i]? = some x → xs[i + 1]? = some y → xs[i + 2]? = some z →
    |x + z - 2 * cos θ * y| ≤ 4 * ε

open Classical in
/-- For each `n` samples, whether they follow the tone of angle `θ`. -/
noncomputable def symbols (ε θ : ℝ) (n : Nat) (xs : List ℝ) : List Bool :=
  (List.range (xs.length / n)).map fun i => decide (Follows ε θ (Chunks.chunk n xs i))

/-- With `n` samples, errors of at most `ε` and the two angles, the tone of the
second angle does not pass for one of the first. -/
structure Resolves (ε : ℝ) (n : Nat) (mark space : ℝ) : Prop where
  four_le : 4 ≤ n
  space_pos : 0 < space
  space_lt_pi : space < π
  apart : 8 * ε < |cos mark - cos space| * sin space

variable {ε θ φ mark space : ℝ} {n : Nat} {xs ys : List ℝ}

theorem length_tone (n : Nat) (θ φ : ℝ) : (tone n θ φ).length = n := by
  rw [tone, List.length_map, Ramps.length_ramp]

theorem getElem?_tone {t : Nat} (ht : t < n) :
    (tone n θ φ)[t]? = some (sin (φ + (t + 1 : Nat) * θ)) := by
  rw [tone, List.getElem?_map, Ramps.getElem?_ramp ht, Option.map_some]

/-! ## Samples in a row -/

/-- The rule of a tone. -/
theorem sin_add_sin (φ θ : ℝ) : sin φ + sin (φ + 2 * θ) = 2 * cos θ * sin (φ + θ) := by
  have hbefore : φ = φ + θ - θ := by ring
  have hbehind : φ + 2 * θ = φ + θ + θ := by ring
  rw [hbehind, sin_add (φ + θ) θ]
  nth_rewrite 1 [hbefore]
  rw [sin_sub]
  ring

/-- Of two samples in a row one is not small. -/
theorem sin_le_abs_add_abs (φ θ : ℝ) : sin θ ≤ |sin φ| + |sin (φ + θ)| := by
  have hparts : sin θ = sin (φ + θ) * cos φ - cos (φ + θ) * sin φ := by
    rw [← sin_sub]
    congr 1
    ring
  calc
    sin θ ≤ |sin (φ + θ) * cos φ - cos (φ + θ) * sin φ| := hparts ▸ le_abs_self _
    _ ≤ |sin (φ + θ) * cos φ| + |cos (φ + θ) * sin φ| := abs_sub _ _
    _ ≤ |sin (φ + θ)| + |sin φ| := by
      rw [abs_mul, abs_mul]
      exact add_le_add (mul_le_of_le_one_right (abs_nonneg _) (abs_cos_le_one φ))
        (mul_le_of_le_one_left (abs_nonneg _) (abs_cos_le_one (φ + θ)))
    _ = |sin φ| + |sin (φ + θ)| := add_comm _ _

/-- What errors do to the rule. -/
theorem abs_rule_sub_le {x y z x' y' z' : ℝ} (θ : ℝ) (hx : |x - x'| ≤ ε) (hy : |y - y'| ≤ ε)
    (hz : |z - z'| ≤ ε) :
    |(x + z - 2 * cos θ * y) - (x' + z' - 2 * cos θ * y')| ≤ 4 * ε := by
  have hsplit : (x + z - 2 * cos θ * y) - (x' + z' - 2 * cos θ * y') =
      (x - x') + (z - z') - 2 * (cos θ * (y - y')) := by ring
  have hmiddle : |cos θ * (y - y')| ≤ ε := by
    rw [abs_mul]
    exact (mul_le_of_le_one_left (abs_nonneg _) (abs_cos_le_one θ)).trans hy
  rw [abs_le] at hx hz hmiddle ⊢
  rw [hsplit]
  constructor <;> linarith only [hx.1, hx.2, hz.1, hz.2, hmiddle.1, hmiddle.2]

/-- The samples near those of a tone. -/
theorem Near.getElem? (h : Near ε xs ys) {i : Nat} {y : ℝ} (hy : ys[i]? = some y) :
    ∃ x, xs[i]? = some x ∧ |x - y| ≤ ε := by
  induction h generalizing i with
  | nil => simp at hy
  | @cons x y' xs ys hx _ ih =>
      cases i with
      | zero =>
          cases hy
          exact ⟨x, rfl, hx⟩
      | succ i => exact ih hy

theorem Near.length_eq (h : Near ε xs ys) : xs.length = ys.length :=
  List.Forall₂.length_eq h

/-! ## The two tones -/

/-- A tone passes for itself. -/
theorem follows_of_near (h : Near ε xs (tone n θ φ)) : Follows ε θ xs := by
  intro i x y z hx hy hz
  have hlt : i + 2 < n := by
    have hlength := h.length_eq
    rw [length_tone] at hlength
    obtain ⟨hlt, _⟩ := List.getElem?_eq_some_iff.mp hz
    omega
  obtain ⟨x', hx', hxε⟩ := h.getElem? (getElem?_tone (show i < n by omega))
  obtain ⟨y', hy', hyε⟩ := h.getElem? (getElem?_tone (show i + 1 < n by omega))
  obtain ⟨z', hz', hzε⟩ := h.getElem? (getElem?_tone hlt)
  obtain rfl : x' = x := Option.some.inj (hx'.symm.trans hx)
  obtain rfl : y' = y := Option.some.inj (hy'.symm.trans hy)
  obtain rfl : z' = z := Option.some.inj (hz'.symm.trans hz)
  have hbetween : φ + ((i + 1 + 1 : Nat) : ℝ) * θ = φ + ((i + 1 : Nat) : ℝ) * θ + θ := by
    push_cast
    ring
  have hbehind : φ + ((i + 2 + 1 : Nat) : ℝ) * θ = φ + ((i + 1 : Nat) : ℝ) * θ + 2 * θ := by
    push_cast
    ring
  have hrule := abs_rule_sub_le θ hxε hyε hzε
  rwa [hbetween, hbehind, sin_add_sin, sub_self, sub_zero] at hrule

/-- Where the sample between is not small, another tone breaks the rule. -/
theorem rule_broken {i : Nat} (h : Near ε xs (tone n space φ)) (hi : i + 2 < n)
    (hapart : 4 * ε < |cos mark - cos space| * |sin (φ + (i + 2 : Nat) * space)|) :
    ¬ Follows ε mark xs := by
  intro hfollows
  obtain ⟨x, hx, hxε⟩ := h.getElem? (getElem?_tone (show i < n by omega))
  obtain ⟨y, hy, hyε⟩ := h.getElem? (getElem?_tone (show i + 1 < n by omega))
  obtain ⟨z, hz, hzε⟩ := h.getElem? (getElem?_tone hi)
  have hrule := abs_rule_sub_le mark hxε hyε hzε
  have hbetween : φ + ((i + 1 + 1 : Nat) : ℝ) * space =
      φ + ((i + 1 : Nat) : ℝ) * space + space := by
    push_cast
    ring
  have hbehind : φ + ((i + 2 + 1 : Nat) : ℝ) * space =
      φ + ((i + 1 : Nat) : ℝ) * space + 2 * space := by
    push_cast
    ring
  have hoff : sin (φ + ((i + 1 : Nat) : ℝ) * space) +
        sin (φ + ((i + 1 : Nat) : ℝ) * space + 2 * space) -
        2 * cos mark * sin (φ + ((i + 1 : Nat) : ℝ) * space + space) =
      2 * ((cos space - cos mark) * sin (φ + ((i + 1 : Nat) : ℝ) * space + space)) := by
    rw [sin_add_sin]
    ring
  rw [hbehind, hbetween, hoff] at hrule
  rw [show i + 2 = i + 1 + 1 from rfl, hbetween, abs_sub_comm, ← abs_mul] at hapart
  have hmark := hfollows i x y z hx hy hz
  rw [abs_le] at hrule hmark
  rcases lt_abs.mp hapart with hpos | hneg
  · linarith only [hrule.1, hmark.2, hpos]
  · linarith only [hrule.2, hmark.1, hneg]

/-- The other tone does not pass. -/
theorem not_follows_of_near (res : Resolves ε n mark space) (h : Near ε xs (tone n space φ)) :
    ¬ Follows ε mark xs := by
  have hfour := res.four_le
  have hsin := sin_le_abs_add_abs (φ + ((0 + 2 : Nat) : ℝ) * space) space
  have hnext : φ + ((0 + 2 : Nat) : ℝ) * space + space = φ + ((1 + 2 : Nat) : ℝ) * space := by
    push_cast
    ring
  rw [hnext] at hsin
  have hsum : 8 * ε < |cos mark - cos space| * |sin (φ + ((0 + 2 : Nat) : ℝ) * space)| +
      |cos mark - cos space| * |sin (φ + ((1 + 2 : Nat) : ℝ) * space)| := by
    rw [← mul_add]
    exact lt_of_lt_of_le res.apart (mul_le_mul_of_nonneg_left hsin (abs_nonneg _))
  rcases lt_or_ge (4 * ε) (|cos mark - cos space| * |sin (φ + ((0 + 2 : Nat) : ℝ) * space)|)
    with hfirst | hfirst
  · exact rule_broken h (by omega) hfirst
  · exact rule_broken h (show 1 + 2 < n by omega) (by linarith only [hsum, hfirst])

/-! ## Angles in turns -/

/-- The angle of `f` turns. -/
noncomputable def turns (f : ℝ) : ℝ := 2 * π * f

theorem turns_lt_pi {f : ℝ} : turns f < π ↔ f < 1 / 2 := by
  have hhalf : π = turns (1 / 2) := by
    rw [turns]
    ring
  nth_rewrite 1 [hhalf]
  exact mul_lt_mul_iff_right₀ two_pi_pos

/-- Up to a quarter turn, the sine is above the line to its maximum. -/
theorem le_sin_turns {f : ℝ} (hpos : 0 ≤ f) (hquarter : f ≤ 1 / 4) : 4 * f ≤ sin (turns f) := by
  have hle : turns f ≤ π / 2 := by
    have h := mul_le_mul_of_nonneg_left hquarter two_pi_pos.le
    rw [turns]
    linarith only [h]
  have hline := mul_le_sin (mul_nonneg two_pi_pos.le hpos) hle
  have hslope : 2 / π * (2 * π * f) = 4 * f := by
    field_simp
    ring
  rwa [hslope] at hline

/-- The difference of two cosines, by the sum and the difference of the angles. -/
theorem cos_turns_sub (f g : ℝ) : cos (turns f) - cos (turns g) =
    2 * (sin (turns ((f + g) / 2)) * sin (turns ((g - f) / 2))) := by
  have hsum : (turns f + turns g) / 2 = turns ((f + g) / 2) := by
    simp only [turns]
    ring
  have hdiff : (turns f - turns g) / 2 = -turns ((g - f) / 2) := by
    simp only [turns]
    ring
  rw [cos_sub_cos, hsum, hdiff, sin_neg]
  ring

/-- Tones up to a quarter turn are told apart up to errors of this size. -/
theorem resolves_of_turns {f g : ℝ} (hfour : 4 ≤ n) (hf : 0 < f) (hfg : f < g) (hg : g ≤ 1 / 4)
    (hε : ε < 4 * (g ^ 2 - f ^ 2) * g) : Resolves ε n (turns f) (turns g) := by
  have hpos : 0 < g := hf.trans hfg
  have hsum : 4 * ((f + g) / 2) ≤ sin (turns ((f + g) / 2)) :=
    le_sin_turns (by linarith only [hf, hpos]) (by linarith only [hfg, hg])
  have hdiff : 4 * ((g - f) / 2) ≤ sin (turns ((g - f) / 2)) :=
    le_sin_turns (by linarith only [hfg]) (by linarith only [hf, hg])
  have hspace : 4 * g ≤ sin (turns g) := le_sin_turns hpos.le hg
  have hsum0 : 0 ≤ 4 * ((f + g) / 2) := by linarith only [hf, hpos]
  have hdiff0 : 0 ≤ 4 * ((g - f) / 2) := by linarith only [hfg]
  have hspace0 : 0 ≤ 4 * g := by linarith only [hpos]
  refine ⟨hfour, mul_pos two_pi_pos hpos, turns_lt_pi.mpr (by linarith only [hg]), ?_⟩
  calc
    8 * ε < 2 * (4 * ((f + g) / 2) * (4 * ((g - f) / 2))) * (4 * g) := by linarith only [hε]
    _ ≤ 2 * (sin (turns ((f + g) / 2)) * sin (turns ((g - f) / 2))) * sin (turns g) := by
      refine mul_le_mul ?_ hspace hspace0 ?_
      · exact mul_le_mul_of_nonneg_left
          (mul_le_mul hsum hdiff hdiff0 (hsum0.trans hsum)) two_pos.le
      · exact mul_nonneg two_pos.le (mul_nonneg (hsum0.trans hsum) (hdiff0.trans hdiff))
    _ ≤ |cos (turns f) - cos (turns g)| * sin (turns g) := by
      rw [← cos_turns_sub]
      exact mul_le_mul_of_nonneg_right (le_abs_self _) (hspace0.trans hspace)

/-! ## Symbols -/

open Classical in
/-- The symbol of the first samples, and those behind. -/
theorem symbols_append (hn : 0 < n) (hlength : xs.length = n) (ys : List ℝ) :
    symbols ε θ n (xs ++ ys) = decide (Follows ε θ xs) :: symbols ε θ n ys := by
  have hcount : (xs ++ ys).length / n = ys.length / n + 1 := by
    rw [List.length_append, hlength, Nat.add_div_left _ hn]
  rw [symbols, hcount, List.range_succ_eq_map, List.map_cons, List.map_map, symbols]
  congr 1
  · rw [Chunks.chunk_append_zero hlength]
  · refine List.map_congr_left fun i _ => ?_
    rw [Function.comp_apply, Chunks.chunk_append_succ hlength]

/-- Samples near those of the two tones in any order have the symbols of that
order. -/
theorem symbols_of_near (res : Resolves ε n mark space) (bits : List Bool) :
    ∀ {φ : ℝ} {xs : List ℝ},
      Near ε xs ((Ramps.ramps n φ (bits.map fun bit => if bit then mark else space)).map sin) →
        symbols ε mark n xs = bits := by
  have hn : 0 < n := Nat.lt_of_lt_of_le (by decide) res.four_le
  induction bits with
  | nil =>
      intro φ xs h
      cases h
      rw [symbols, List.length_nil, Nat.zero_div]
      rfl
  | cons bit bits ih =>
      intro φ xs h
      rw [List.map_cons, Ramps.ramps, List.map_append, ← tone] at h
      have hfront := List.forall₂_take_append _ _ _ h
      have hrest := List.forall₂_drop_append _ _ _ h
      rw [length_tone] at hfront hrest
      have hlength : (xs.take n).length = n := hfront.length_eq.trans (length_tone _ _ _)
      rw [← List.take_append_drop n xs, symbols_append hn hlength, ih hrest]
      congr 1
      cases bit with
      | true => simpa using follows_of_near hfront
      | false => simpa using not_follows_of_near res hfront

end Tones
