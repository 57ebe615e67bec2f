import GsSDR.Doppler.Server
import GsSDR.Lib.Rounding

/-!
# The corrections as floating point numbers

`message_callback` converts the frequency to a `float`, subtracts it from the
base frequency, which is a `double`, and stores the difference in a `float`.  The
first conversion rounds a frequency of more than 24 significant bits, and its
error is in the difference (`publishesExact_iff`).
-/

namespace GsSDR

namespace Doppler

open Rounding

/-- The correction for a base frequency, with the rounding of `message_callback`. -/
def floatCorrection (baseFrequency freq : Int) : Int :=
  round 24 (round 53 (round 53 baseFrequency - round 24 freq))

/-- Both ports get the exact correction for this frequency. -/
def PublishesExact (baseFrequency freq : Int) : Prop :=
  ∀ (s : State Int) (other : Int),
    (s.messageCallback (floatCorrection baseFrequency) freq other).outRx =
        s.outRx ++ [exactCorrection baseFrequency freq] ∧
      (s.messageCallback (floatCorrection baseFrequency) other freq).outTx =
        s.outTx ++ [exactCorrection baseFrequency freq]

variable {baseFrequency freq : Int}

/-- The correction is exact exactly if the frequency has 24 significant bits. -/
theorem floatCorrection_eq_iff (hbase : baseFrequency.natAbs < 2 ^ 53)
    (hnear : (baseFrequency - freq).natAbs < 2 ^ 24) :
    floatCorrection baseFrequency freq = exactCorrection baseFrequency freq ↔
      Representable 24 freq := by
  rw [floatCorrection, exactCorrection, round_of_le (by omega) (Nat.le_of_lt hbase),
    round_round_eq_iff (by omega) (by omega) hnear, ← round_eq_self_iff (by omega)]
  constructor
  · intro h
    omega
  · intro h
    rw [h]

theorem publishesExact_iff (hbase : baseFrequency.natAbs < 2 ^ 53)
    (hnear : (baseFrequency - freq).natAbs < 2 ^ 24) :
    PublishesExact baseFrequency freq ↔ Representable 24 freq := by
  rw [← floatCorrection_eq_iff hbase hnear]
  constructor
  · intro hexact
    have hlast := (hexact initial 0).1
    exact List.singleton_inj.mp hlast
  · intro heq s other
    rw [← heq]
    exact ⟨rfl, rfl⟩

/-- A frequency of 437.5 MHz has few significant bits. -/
theorem publishesExact_iff_437500000 :
    PublishesExact 437505000 437500000 ↔ Representable 24 437500000 :=
  publishesExact_iff (by omega) (by omega)

/-- At a base frequency of 437505001 Hz the correction for this frequency is 9
and not 0. -/
theorem publishesExact_fails_437505001 :
    floatCorrection 437505001 437505001 = 9 ∧
      ¬ ∀ baseFrequency freq : Int, baseFrequency.natAbs < 2 ^ 53 →
        -0x80000000 ≤ freq → freq < 0x80000000 →
        (baseFrequency - freq).natAbs < 2 ^ 24 → PublishesExact baseFrequency freq := by
  have hnine : floatCorrection 437505001 437505001 = 9 := by decide
  refine ⟨hnine, fun hall => ?_⟩
  have hlast := (hall 437505001 437505001 (by omega) (by omega) (by omega) (by omega)
    initial 0).1
  have hzero : floatCorrection 437505001 437505001 = 0 := List.singleton_inj.mp hlast
  rw [hnine] at hzero
  cases hzero

end Doppler

end GsSDR
