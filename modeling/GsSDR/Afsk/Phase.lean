import GsSDR.Afsk.Output
import GsSDR.Lib.Ramps
import GsSDR.Lib.Slots
import Mathlib.Algebra.Field.Rat
import Mathlib.Algebra.Order.Ring.Int

/-!
# The phase of the AFSK tone

`ax25_to_fsk` makes an array with `np.empty` and assigns the samples of a bit to
a slice of it.  `Modem.fill` is this array, and `Modem.modulate` is what it holds
in the end, since each item is assigned once (`fill_eq`).

The phases are what `sin` is applied to.  When numbers are exact, they are the
ramps of the bits of the preamble and of the message.  So the phase of a sample
is the sum of the increments up to there, and it is continuous at every bit
(`phase_continuous`).
-/

namespace GsSDR.Afsk

variable {R S M : Type}

/-! ## The array -/

section

variable [Add R] [Mul R] [Div R] [NatCast R] (fl : Floats R S)

/-- `msg_bits`. -/
def Modem.msgBits (m : Modem R) (msg : List UInt8) : List UInt8 :=
  if m.preambleLenBits ≠ 0 then preamble m.preambleLenBits ++ msg else msg

/-- `mark_pinc`. -/
def Modem.markPinc (m : Modem R) : R := ((2 : Nat) : R) * fl.pi * m.markFreq / m.sampRate

/-- `space_pinc`. -/
def Modem.spacePinc (m : Modem R) : R := ((2 : Nat) : R) * fl.pi * m.spaceFreq / m.sampRate

/-- `pinc`, for the bit. -/
def Modem.pinc (m : Modem R) (bit : UInt8) : R :=
  if bit = 1 then m.markPinc fl else m.spacePinc fl

/-- The loop of `ax25_to_fsk` from bit `i` on, with the array. -/
def fillLoop (sps : Int) (markPinc spacePinc : R) :
    R → Nat → List (Option R) → List UInt8 → Option (List (Option R))
  | _, _, opb, [] => some opb
  | phase, i, opb, bit :: bits =>
      let pinc := if bit = 1 then markPinc else spacePinc
      let phase := phase + pinc
      let tmp := (List.range sps.toNat).map fun (k : Nat) => (k : R) * pinc + phase
      match Slots.assign opb (i * sps.toNat) ((i + 1) * sps.toNat) (tmp.map fl.sin) with
      | none => none
      | some opb =>
          match tmp.getLast? with
          | none => none
          | some last => fillLoop sps markPinc spacePinc last (i + 1) opb bits

/-- `ax25_to_fsk`, with the array that it fills.  There is no array of a negative
length. -/
def Modem.fill (m : Modem R) (msg : List UInt8) : Option (List (Option R)) :=
  if (m.msgBits msg).length * m.sps < 0 then none
  else
    fillLoop fl m.sps (m.markPinc fl) (m.spacePinc fl) ((0 : Nat) : R) 0
      (Slots.empty ((m.msgBits msg).length * m.sps).toNat) (m.msgBits msg)

/-- What `ax25_to_fsk` applies `sin` to. -/
def Modem.phases (m : Modem R) (msg : List UInt8) : Option (List R) :=
  m.modulate { fl with sin := id } msg

end

section

variable [Add R] [Mul R] [NatCast R] {fl : Floats R S} {sps : Int} {markPinc spacePinc : R}

/-- Without samples there is no last phase of the first bit. -/
theorem fskLoop_none (hsps : sps ≤ 0) (phase : R) (bit : UInt8) (bits : List UInt8) :
    fskLoop fl sps markPinc spacePinc phase (bit :: bits) = none := by
  rw [fskLoop, Int.toNat_of_nonpos hsps]
  rfl

/-- The slices of the bits lie behind each other, and the last one ends with the
array. -/
theorem fillLoop_eq (bits : List UInt8) :
    ∀ (phase : R) (i : Nat) (done : List R), done.length = i * sps.toNat →
      fillLoop fl sps markPinc spacePinc phase i
          (done.map some ++ Slots.empty (bits.length * sps.toNat)) bits =
        (fskLoop fl sps markPinc spacePinc phase bits).map fun opb => (done ++ opb).map some := by
  induction bits with
  | nil =>
      intro phase i done _
      simp [fillLoop, fskLoop, Slots.empty]
  | cons bit bits ih =>
      intro phase i done hdone
      let pinc := if bit = 1 then markPinc else spacePinc
      let tmp := (List.range sps.toNat).map fun (k : Nat) => (k : R) * pinc + (phase + pinc)
      have hsamples : (tmp.map fl.sin).length = sps.toNat := by simp [tmp]
      have hstop : (i + 1) * sps.toNat = i * sps.toNat + (tmp.map fl.sin).length := by
        rw [hsamples, Nat.succ_mul]
      have hfits : (tmp.map fl.sin).length ≤ (bit :: bits).length * sps.toNat := by
        rw [hsamples, List.length_cons, Nat.succ_mul]
        exact Nat.le_add_left _ _
      have hassign := Slots.assign_next hdone.symm hstop hfits
      have hroom : (bit :: bits).length * sps.toNat - sps.toNat = bits.length * sps.toNat := by
        rw [List.length_cons, Nat.succ_mul, Nat.add_sub_cancel]
      rw [hsamples, hroom] at hassign
      rw [fillLoop, fskLoop, hassign]
      cases tmp.getLast? with
      | none => rfl
      | some last =>
          have hlength : (done ++ tmp.map fl.sin).length = (i + 1) * sps.toNat := by
            rw [List.length_append, hsamples, hdone, Nat.succ_mul]
          have hrest := ih last (i + 1) _ hlength
          dsimp only at hrest ⊢
          rw [hrest, Option.map_map]
          congr 1
          funext opb
          rw [List.append_assoc]
          rfl

theorem Modem.modulate_loop [Div R] (fl : Floats R S) (m : Modem R) (msg : List UInt8) :
    m.modulate fl msg =
      fskLoop fl m.sps (m.markPinc fl) (m.spacePinc fl) ((0 : Nat) : R) (m.msgBits msg) := rfl

/-- Every item of the array is assigned, and has the sample of `modulate`. -/
theorem Modem.fill_eq [Div R] (fl : Floats R S) (m : Modem R) (msg : List UInt8) :
    m.fill fl msg = (m.modulate fl msg).map (List.map some) := by
  have hloop : fillLoop fl m.sps (m.markPinc fl) (m.spacePinc fl) ((0 : Nat) : R) 0
        (Slots.empty ((m.msgBits msg).length * m.sps.toNat)) (m.msgBits msg) =
      (fskLoop fl m.sps (m.markPinc fl) (m.spacePinc fl) ((0 : Nat) : R) (m.msgBits msg)).map
        (List.map some) :=
    fillLoop_eq (m.msgBits msg) ((0 : Nat) : R) 0 [] (by simp)
  rw [Modem.fill, Modem.modulate_loop]
  split
  next hneg =>
    cases hbits : m.msgBits msg with
    | nil => simp [hbits] at hneg
    | cons bit bits =>
        have hsps : m.sps < 0 := by
          by_contra hpos
          exact absurd hneg (not_lt.mpr (mul_nonneg (Int.natCast_nonneg _) (not_lt.mp hpos)))
        rw [fskLoop_none (Int.le_of_lt hsps), Option.map_none]
  next hpos =>
    have hlength : ((m.msgBits msg).length * m.sps).toNat =
        (m.msgBits msg).length * m.sps.toNat := by
      rcases Int.lt_or_le m.sps 0 with hsps | hsps
      · rw [Int.toNat_of_nonpos (Int.le_of_lt hsps), Nat.mul_zero]
        exact Int.toNat_of_nonpos (mul_nonpos_of_nonneg_of_nonpos (Int.natCast_nonneg _)
          (Int.le_of_lt hsps))
      · rw [Int.toNat_mul (Int.natCast_nonneg _) hsps, Int.toNat_natCast]
    rw [hlength]
    exact hloop

end

/-! ## Exact arithmetic -/

section

variable [Field R] {fl : Floats R S} {m : Modem R}

/-- The increment of the bit that sample `j` belongs to. -/
def Modem.incAt (fl : Floats R S) (m : Modem R) (msg : List UInt8) (j : Nat) : R :=
  ((m.msgBits msg).map (m.pinc fl)).getD (j / m.sps.toNat) 0

/-- The loop makes a ramp for each bit. -/
theorem fskLoop_eq {sps : Int} (hsps : 1 ≤ sps) (markPinc spacePinc : R) (bits : List UInt8) :
    ∀ phase : R,
      fskLoop fl sps markPinc spacePinc phase bits =
        some ((Ramps.ramps sps.toNat phase
          (bits.map fun bit => if bit = 1 then markPinc else spacePinc)).map fl.sin) := by
  induction bits with
  | nil =>
      intro phase
      rfl
  | cons bit bits ih =>
      intro phase
      let pinc := if bit = 1 then markPinc else spacePinc
      have hlast : (Ramps.ramp sps.toNat pinc phase).getLast? = some (phase + sps.toNat * pinc) :=
        Ramps.getLast?_ramp (by omega)
      rw [Ramps.ramp] at hlast
      rw [fskLoop, hlast]
      dsimp only
      rw [ih, Option.map_some, List.map_cons, Ramps.ramps, List.map_append, Ramps.ramp]

theorem Modem.modulate_eq (hsps : 1 ≤ m.sps) (msg : List UInt8) :
    m.modulate fl msg =
      some ((Ramps.ramps m.sps.toNat 0 ((m.msgBits msg).map (m.pinc fl))).map fl.sin) := by
  rw [Modem.modulate_loop, fskLoop_eq hsps, Nat.cast_zero]
  rfl

theorem Modem.phases_eq (hsps : 1 ≤ m.sps) (msg : List UInt8) :
    m.phases fl msg =
      some (Ramps.ramps m.sps.toNat 0 ((m.msgBits msg).map (m.pinc fl))) := by
  have hloop : m.phases fl msg =
      some ((Ramps.ramps m.sps.toNat 0 ((m.msgBits msg).map (m.pinc fl))).map id) :=
    Modem.modulate_eq hsps msg
  rwa [List.map_id] at hloop

/-- The phase of each sample is the sum of the increments of the samples up to it,
so it is continuous, and all items of the array are written. -/
theorem phase_continuous (fl : Floats R S) (m : Modem R) (streamTag : String)
    (hsps : 1 ≤ m.sps) (msg : List UInt8) :
    ∃ phases, m.phases fl msg = some phases ∧
      phases.length = (m.msgBits msg).length * m.sps.toNat ∧
      m.fill fl msg = some (phases.map fun phase => some (fl.sin phase)) ∧
      Basic.ax25ToFsk fl ⟨m, streamTag⟩ msg = some (phases.map fl.sin) ∧
      Pdu.ax25ToFsk fl m msg = some (phases.map fl.sin) ∧
      (∀ t < phases.length,
        phases[t]? = some (∑ j ∈ Finset.range (t + 1), m.incAt fl msg j)) ∧
      ∀ t phase next, phases[t]? = some phase → phases[t + 1]? = some next →
        next - phase = m.incAt fl msg (t + 1) := by
  have hmodulate : m.modulate fl msg = some (List.map fl.sin _) := Modem.modulate_eq hsps msg
  have hlength := Ramps.length_ramps m.sps.toNat 0 ((m.msgBits msg).map (m.pinc fl))
  rw [List.length_map] at hlength
  refine ⟨_, Modem.phases_eq hsps msg, hlength, ?_, hmodulate, hmodulate, fun t ht => ?_,
    fun t phase next hphase hnext => ?_⟩
  · rw [Modem.fill_eq, hmodulate, Option.map_some, List.map_map]
    rfl
  · rw [Ramps.length_ramps] at ht
    rw [Ramps.getElem?_ramps ht, zero_add]
    rfl
  · rw [Ramps.getElem?_ramps_succ hphase hnext, add_sub_cancel_left]
    rfl

/-- A preamble of two bits and a message of two, with two samples for each. -/
theorem phase_continuous_preamble :
    ∃ phases, (⟨4, 1, 1 / 2, 2, 1, 2⟩ : Modem ℚ).phases rationalFloats [1, 0] = some phases ∧
      phases.length = 4 * 2 ∧
      (⟨4, 1, 1 / 2, 2, 1, 2⟩ : Modem ℚ).fill rationalFloats [1, 0] =
        some (phases.map fun phase => some (rationalFloats.sin phase)) ∧
      Basic.ax25ToFsk rationalFloats ⟨⟨4, 1, 1 / 2, 2, 1, 2⟩, ""⟩ [1, 0] =
        some (phases.map rationalFloats.sin) ∧
      Pdu.ax25ToFsk rationalFloats (⟨4, 1, 1 / 2, 2, 1, 2⟩ : Modem ℚ) [1, 0] =
        some (phases.map rationalFloats.sin) ∧
      (∀ t < phases.length, phases[t]? =
        some (∑ j ∈ Finset.range (t + 1),
          Modem.incAt rationalFloats ⟨4, 1, 1 / 2, 2, 1, 2⟩ [1, 0] j)) ∧
      ∀ t phase next, phases[t]? = some phase → phases[t + 1]? = some next →
        next - phase = Modem.incAt rationalFloats ⟨4, 1, 1 / 2, 2, 1, 2⟩ [1, 0] (t + 1) :=
  phase_continuous rationalFloats ⟨4, 1, 1 / 2, 2, 1, 2⟩ "" (by decide) [1, 0]

end

end GsSDR.Afsk
