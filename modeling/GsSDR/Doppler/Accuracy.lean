import GsSDR.Doppler.Correction
import GsSDR.Doppler.Directions
import GsSDR.Lib.LexicalCast
import Mathlib.Data.List.Forall2

/-!
# How accurate the corrections are

A frequency is an `int`, so its conversion to a `float` is off by at most 64 Hz.  Near the
base frequency the difference is then exact, and elsewhere its own conversion adds at
most 128 Hz.  So all that a run publishes is that near to the exact corrections
(`published_near`), and a higher frequency never gives a higher correction
(`floatCorrection_antitone`).
-/

namespace GsSDR

namespace Doppler

open Cxx Rounding

variable {baseFrequency freq : Int} {lexicalCast : Str → Option Int} {sourceType : SourceType}
  {h : List (State Int × Event)} {s : State Int} {e : Event}

/-! ## One correction -/

/-- A published value is near the correction for a frequency. -/
def NearCorrection (baseFrequency value freq : Int) : Prop :=
  (value - exactCorrection baseFrequency freq).natAbs ≤ 192 ∧
    ((baseFrequency - freq).natAbs + 64 ≤ 2 ^ 24 →
      (value - exactCorrection baseFrequency freq).natAbs ≤ 64)

/-- A `float` is off by at most 64 Hz for an `int`, and stays in its range. -/
theorem float_near (hfreq : InInt freq) :
    (round 24 freq - freq).natAbs ≤ 64 ∧ (round 24 freq).natAbs ≤ 2 ^ 31 := by
  obtain ⟨hlow, hhigh⟩ := hfreq
  have herror := natAbs_round_sub_le (p := 24) (e := 7) (n := freq) (by omega) (by omega)
  have hmin : round 24 (-0x80000000) = -0x80000000 :=
    (round_eq_self_iff (by omega) _).mpr ⟨-1, 31, by omega, by omega⟩
  have hmax : round 24 0x80000000 = 0x80000000 :=
    (round_eq_self_iff (by omega) _).mpr ⟨1, 31, by omega, by omega⟩
  have hge := round_mono (p := 24) (by omega) hlow
  have hle := round_mono (p := 24) (by omega) (Int.le_of_lt hhigh)
  rw [hmin] at hge
  rw [hmax] at hle
  omega

theorem floatCorrection_near (hbase : baseFrequency.natAbs ≤ 2 ^ 31) (hfreq : InInt freq) :
    NearCorrection baseFrequency (floatCorrection baseFrequency freq) freq := by
  obtain ⟨hfloat, hrange⟩ := float_near hfreq
  have hdouble : round 53 baseFrequency = baseFrequency := round_of_le (by omega) (by omega)
  have hdiff : round 53 (baseFrequency - round 24 freq) = baseFrequency - round 24 freq :=
    round_of_le (by omega) (by omega)
  rw [floatCorrection, hdouble, hdiff]
  refine ⟨?_, fun hnear => ?_⟩
  · have herror := natAbs_round_sub_le (p := 24) (e := 8) (n := baseFrequency - round 24 freq)
      (by omega) (by omega)
    rw [exactCorrection]
    omega
  · have hkept : round 24 (baseFrequency - round 24 freq) = baseFrequency - round 24 freq :=
      round_of_le (by omega) (by omega)
    rw [hkept, exactCorrection]
    omega

/-- A higher frequency does not give a higher correction. -/
theorem floatCorrection_antitone {freq' : Int} (hle : freq ≤ freq') :
    floatCorrection baseFrequency freq' ≤ floatCorrection baseFrequency freq := by
  have hfloat : round 24 freq ≤ round 24 freq' := round_mono (by omega) hle
  refine round_mono (by omega) (round_mono (by omega) ?_)
  omega

/-! ## All corrections -/

/-- The last of the numbers that texts set is an `int`. -/
theorem inInt_getLastD (hcast : IsIntCast lexicalCast) (field : Str → Option Str)
    (texts : List Str) :
    InInt ((texts.filterMap fun s => (field s).bind lexicalCast).getLastD 0) := by
  by_cases hempty : (texts.filterMap fun s => (field s).bind lexicalCast) = []
  · rw [hempty]
    exact ⟨by decide, by decide⟩
  · obtain ⟨s, _, hvalue⟩ := List.mem_filterMap.mp (getLastD_mem hempty 0)
    obtain ⟨text, _, hnumber⟩ := Option.bind_eq_some_iff.mp hvalue
    exact ((hcast.eq_some_iff _ _).mp hnumber).2

/-- What is handed over are `int`s. -/
theorem inInt_callback {correction : Int → Int} (hcast : IsIntCast lexicalCast)
    (run : Run lexicalCast sourceType correction h s) {t : State Int} {freqs : Int × Int}
    (hstep : step lexicalCast sourceType correction s e = some t)
    (hcallback : callbackOf (s, e) = some freqs) : InInt freqs.1 ∧ InInt freqs.2 := by
  cases e with
  | write id ok =>
      have hno : s.exitRequested = false := by
        by_contra hexit
        rw [callbackOf] at hcallback
        simp [hexit] at hcallback
      rw [callbackOf_eq run hno hstep] at hcallback
      split at hcallback
      next =>
        cases hcallback
        exact ⟨inInt_getLastD hcast (rxField sourceType) _,
          inInt_getLastD hcast (txField sourceType) _⟩
      next => cases hcallback
  | _ => cases hcallback

/-- All values that a run publishes are near the corrections for the frequencies that the
sessions hand over, in their order. -/
theorem published_near (hcast : IsIntCast lexicalCast) (hbase : baseFrequency.natAbs ≤ 2 ^ 31)
    (run : Run lexicalCast sourceType (floatCorrection baseFrequency) h s) :
    List.Forall₂ (fun value freqs => NearCorrection baseFrequency value freqs.1) s.outRx
        (h.filterMap callbackOf) ∧
      List.Forall₂ (fun value freqs => NearCorrection baseFrequency value freqs.2) s.outTx
        (h.filterMap callbackOf) := by
  have hints : ∀ freqs ∈ h.filterMap callbackOf, InInt freqs.1 ∧ InInt freqs.2 := by
    intro freqs hmem
    obtain ⟨p, hp, hcallback⟩ := List.mem_filterMap.mp hmem
    obtain ⟨h₁, h₂, hsplit⟩ := List.append_of_mem hp
    obtain ⟨before, t, hstep⟩ := run.before hsplit
    exact inInt_callback hcast before hstep hcallback
  obtain ⟨hrx, htx⟩ := run.ports
  rw [hrx, htx, List.forall₂_map_left_iff, List.forall₂_map_left_iff, List.forall₂_same,
    List.forall₂_same]
  exact ⟨fun freqs hmem => floatCorrection_near hbase (hints freqs hmem).1,
    fun freqs hmem => floatCorrection_near hbase (hints freqs hmem).2⟩

/-- A client sets 437505001 Hz, where the correction is 9 and not 0. -/
theorem published_near_437505001 :
    ∃ r, Transition.exec (step lexicalCastInt .gpredict (floatCorrection 437505001)) initial
        [.accept true,
          .read 0 (some ['F', '4', '3', '7', '5', '0', '5', '0', '0', '1', '\n']),
          .write 0 true] = some r ∧
      List.Forall₂ (fun value freqs => NearCorrection 437505001 value freqs.1) r.2.outRx
        (r.1.filterMap callbackOf) ∧
      List.Forall₂ (fun value freqs => NearCorrection 437505001 value freqs.2) r.2.outTx
        (r.1.filterMap callbackOf) := by
  obtain ⟨r, hr⟩ :
      ∃ r, Transition.exec (step lexicalCastInt .gpredict (floatCorrection 437505001)) initial
          [.accept true,
            .read 0 (some ['F', '4', '3', '7', '5', '0', '5', '0', '0', '1', '\n']),
            .write 0 true] = some r := ⟨_, rfl⟩
  exact ⟨r, hr, published_near isIntCast_lexicalCastInt (by omega) (Transition.exec_run hr)⟩

end Doppler

end GsSDR
