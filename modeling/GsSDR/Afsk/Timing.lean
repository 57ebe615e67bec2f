import GsSDR.Afsk.Phase
import GsSDR.Lib.Binary64

/-!
# The bit timing of the AFSK tone

Each bit has `sps` samples, the samples per bit truncated to an integer.  So bit `k`
starts at sample `k * sps`, and where the rates do not divide evenly the start moves
away from the nominal one by the same part of a sample with each bit.  The message
decides how far it gets (`bit_timing`).

The numbers are those of Python, so `sps` is truncated from a rounded quotient.  For
rates of at most 53 bits this is the integer quotient.
-/

namespace GsSDR.Afsk

open Binary64 (Double)

variable {R S : Type}

/-! ## Where the bits start -/

/-- The sample at which the slice of bit `k` starts. -/
def Modem.bitStart (m : Modem R) (k : Nat) : Int := k * m.sps

/-- Where it would start if the time of a bit were exact. -/
def nominalStart (sampRate baudRate k : Nat) : ℚ := k * sampRate / baudRate

section

variable [Add R] [Mul R] [NatCast R] {fl : Floats R S} {sps : Int} {markPinc spacePinc : R}

/-- The samples of a bit come first, and then those of the other bits. -/
theorem fskLoop_cons {phase : R} {bit : UInt8} {bits : List UInt8} {opb : List R}
    (h : fskLoop fl sps markPinc spacePinc phase (bit :: bits) = some opb) :
    ∃ tone last rest, tone.length = sps.toNat ∧ opb = tone ++ rest ∧
      fskLoop fl sps markPinc spacePinc last bits = some rest := by
  rw [fskLoop] at h
  split at h
  next => cases h
  next last _ =>
    obtain ⟨rest, hrest, rfl⟩ := Option.map_eq_some_iff.mp h
    exact ⟨_, last, rest, by simp, rfl, hrest⟩

theorem fskLoop_length {bits : List UInt8} :
    ∀ {phase : R} {opb : List R}, fskLoop fl sps markPinc spacePinc phase bits = some opb →
      opb.length = bits.length * sps.toNat := by
  induction bits with
  | nil =>
      intro phase opb h
      cases h
      rw [List.length_nil, List.length_nil, Nat.zero_mul]
  | cons bit bits ih =>
      intro phase opb h
      obtain ⟨tone, last, rest, htone, rfl, hrest⟩ := fskLoop_cons h
      rw [List.length_append, htone, ih hrest, List.length_cons, Nat.succ_mul, Nat.add_comm]

/-- From the start of bit `k` on, the samples are those of the bits from there on. -/
theorem fskLoop_drop {bits : List UInt8} :
    ∀ {phase : R} {opb : List R} (k : Nat), k ≤ bits.length →
      fskLoop fl sps markPinc spacePinc phase bits = some opb →
      ∃ start, fskLoop fl sps markPinc spacePinc start (bits.drop k) =
        some (opb.drop (k * sps.toNat)) := by
  induction bits with
  | nil =>
      intro phase opb k hk h
      cases h
      refine ⟨phase, ?_⟩
      rw [List.drop_nil, List.drop_nil]
      rfl
  | cons bit bits ih =>
      intro phase opb k hk h
      cases k with
      | zero =>
          refine ⟨phase, ?_⟩
          rwa [Nat.zero_mul, List.drop_zero, List.drop_zero]
      | succ k =>
          obtain ⟨tone, last, rest, htone, rfl, hrest⟩ := fskLoop_cons h
          obtain ⟨start, hstart⟩ := ih k (Nat.le_of_succ_le_succ hk) hrest
          refine ⟨start, ?_⟩
          rw [List.drop_succ_cons, hstart, Nat.succ_mul, Nat.add_comm, ← List.drop_drop,
            ← htone, List.drop_left]

end

/-! ## Python's floats -/

section

variable {pi : Double} {sin : Double → Double} {float32 : Double → S}

/-- Python's floats.  An integer is converted by truncation. -/
def pythonFloats (pi : Double) (sin : Double → Double) (float32 : Double → S) :
    Floats Double S where
  pi
  sin
  int x := x.value.map fun q => if q < 0 then ⌈q⌉ else ⌊q⌋
  float32

theorem int_of_one_le {a : Double} {q : ℚ} (ha : a.value = some q) (h : 1 ≤ q) :
    (pythonFloats pi sin float32).int a = some ⌊q⌋ := by
  have hpos : ¬ q < 0 := not_lt.mpr (zero_le_one.trans h)
  change a.value.map (fun q => if q < 0 then ⌈q⌉ else ⌊q⌋) = some ⌊q⌋
  rw [ha, Option.map_some, if_neg hpos]

theorem pythonFloats_lawful : (pythonFloats pi sin float32).Lawful where
  one_mul := Double.natCast_one_mul
  one_le_int a b n hb hle hn := by
    obtain ⟨z, hz, y, hy, hpos⟩ := hb
    obtain ⟨y', hy', x, hx, hyx⟩ := hle
    rw [Double.value_natCast (by norm_num)] at hz
    cases hz
    cases hy.symm.trans hy'
    rw [Nat.cast_zero] at hpos
    obtain ⟨q, hq, _⟩ := Option.map_eq_some_iff.mp hn
    obtain ⟨x', y', hx', hy', _, rfl⟩ := Double.value_div hq
    cases hx.symm.trans hx'
    cases hy.symm.trans hy'
    have hone : 1 ≤ Binary64.round (x / y) :=
      Binary64.one_le_round ((one_le_div hpos).mpr hyx)
    rw [int_of_one_le hq hone] at hn
    cases hn
    exact Int.le_floor.mpr (by exact_mod_cast hone)

variable {sampRate baudRate : Nat} {preambleLenMs markFreq spaceFreq : Double} {m : Modem Double}

/-- The samples per bit, from the conversions of the rates. -/
theorem Modem.make_sps (hmake : Modem.make (pythonFloats pi sin float32) (sampRate : Double)
    preambleLenMs markFreq spaceFreq (baudRate : Double) = some m) :
    (pythonFloats pi sin float32).int ((sampRate : Double) / (baudRate : Double)) = some m.sps := by
  obtain ⟨_, _, hmake⟩ := Option.bind_eq_some_iff.mp hmake
  obtain ⟨sps, hsps, hmake⟩ := Option.bind_eq_some_iff.mp hmake
  cases hmake
  rwa [Double.natCast_one_mul] at hsps

/-- A modem for integer rates has samples for each bit. -/
theorem Modem.one_le_sps_natCast (hbaud : 0 < baudRate) (hle : baudRate ≤ sampRate)
    (hmake : Modem.make (pythonFloats pi sin float32) (sampRate : Double)
      preambleLenMs markFreq spaceFreq (baudRate : Double) = some m) : 1 ≤ m.sps := by
  obtain ⟨_, hvalue, _⟩ := Option.map_eq_some_iff.mp (Modem.make_sps hmake)
  obtain ⟨x, y, hx, hy, _, _⟩ := Double.value_div hvalue
  have hzero : ((0 : Nat) : Double).value = some ((0 : Nat) : ℚ) :=
    Double.value_natCast (by norm_num)
  have hpos : ((0 : Nat) : Double) < (baudRate : Double) := by
    refine ⟨_, hzero, y, hy, ?_⟩
    rw [Nat.cast_zero]
    exact zero_lt_one.trans_le (Double.one_le_natCast hbaud hy)
  have hrates : (baudRate : Double) ≤ (sampRate : Double) :=
    ⟨y, hy, x, hx, Double.natCast_mono hle hy hx⟩
  exact Modem.one_le_sps pythonFloats_lawful hmake hpos hrates

/-- Of rates of 53 bits it is the integer quotient. -/
theorem Modem.sps_eq_div (hbaud : 0 < baudRate) (hle : baudRate ≤ sampRate)
    (hbits : sampRate < 2 ^ 53)
    (hmake : Modem.make (pythonFloats pi sin float32) (sampRate : Double)
      preambleLenMs markFreq spaceFreq (baudRate : Double) = some m) :
    m.sps = (sampRate / baudRate : Nat) := by
  have hsps := Modem.make_sps hmake
  obtain ⟨_, hvalue, _⟩ := Option.map_eq_some_iff.mp hsps
  obtain ⟨x, y, hx, hy, _, rfl⟩ := Double.value_div hvalue
  rw [Double.value_natCast hbits.le] at hx
  rw [Double.value_natCast (hle.trans hbits.le)] at hy
  cases hx
  cases hy
  have hquot : 1 ≤ (sampRate : ℚ) / baudRate :=
    (one_le_div (by exact_mod_cast hbaud)).mpr (by exact_mod_cast hle)
  rw [int_of_one_le hvalue (Binary64.one_le_round hquot),
    Binary64.floor_round_div hbaud hle hbits] at hsps
  exact (Option.some.inj hsps).symm

end

/-! ## How far the starts are off -/

/-- Bit `k` starts `k` times the error of one bit away from its nominal start. -/
theorem abs_bitStart_sub {m : Modem R} {sampRate baudRate : Nat} (hbaud : 0 < baudRate)
    (k : Nat) :
    |(m.bitStart k : ℚ) - nominalStart sampRate baudRate k| =
      k * |m.sps * baudRate - sampRate| / baudRate := by
  have hpos : (0 : ℚ) < baudRate := by exact_mod_cast hbaud
  have hsplit : (m.bitStart k : ℚ) - nominalStart sampRate baudRate k =
      k * (m.sps * baudRate - sampRate) / baudRate := by
    rw [Modem.bitStart, nominalStart]
    push_cast
    field_simp
  rw [hsplit, abs_div, abs_mul, abs_of_pos hpos, abs_of_nonneg (Nat.cast_nonneg k : (0 : ℚ) ≤ k)]
  push_cast
  rfl

/-- All starts are less than a sample off exactly if the last one is. -/
theorem timely_iff {m : Modem R} {sampRate baudRate n : Nat} (hbaud : 0 < baudRate) :
    (∀ k ≤ n, |(m.bitStart k : ℚ) - nominalStart sampRate baudRate k| < 1) ↔
      n * |m.sps * baudRate - sampRate| < baudRate := by
  have hpos : (0 : ℚ) < baudRate := by exact_mod_cast hbaud
  have hstart : ∀ k : Nat, |(m.bitStart k : ℚ) - nominalStart sampRate baudRate k| < 1 ↔
      k * |m.sps * baudRate - sampRate| < baudRate := by
    intro k
    rw [abs_bitStart_sub hbaud, div_lt_one hpos]
    exact_mod_cast Iff.rfl
  constructor
  · intro hall
    exact (hstart n).mp (hall n (Nat.le_refl n))
  · intro hlast k hk
    refine (hstart k).mpr (lt_of_le_of_lt ?_ hlast)
    exact mul_le_mul_of_nonneg_right (by exact_mod_cast hk) (abs_nonneg _)

/-- Bit `k` starts at sample `k * sps` of the burst, and the burst is as long as its
bits.  The starts stay within a sample of the nominal ones exactly if the error of a
bit, times the number of bits, is less than a sample.  For rates of 53 bits `sps` is
their integer quotient, so for rates that divide evenly there is no error. -/
theorem bit_timing (pi : Double) (sin : Double → Double) (float32 : Double → S)
    {sampRate baudRate : Nat} (hbaud : 0 < baudRate) (hle : baudRate ≤ sampRate)
    {preambleLenMs markFreq spaceFreq : Double} {m : Modem Double}
    (hmake : Modem.make (pythonFloats pi sin float32) (sampRate : Double)
      preambleLenMs markFreq spaceFreq (baudRate : Double) = some m)
    (streamTag : String) (msg : List UInt8) :
    ∃ opb,
      Basic.ax25ToFsk (pythonFloats pi sin float32) ⟨m, streamTag⟩ msg = some opb ∧
      Pdu.ax25ToFsk (pythonFloats pi sin float32) m msg = some opb ∧
      (opb.length : Int) = m.bitStart (m.msgBits msg).length ∧
      (∀ k ≤ (m.msgBits msg).length, ∃ phase,
        fskLoop (pythonFloats pi sin float32) m.sps
            (m.markPinc (pythonFloats pi sin float32)) (m.spacePinc (pythonFloats pi sin float32))
            phase ((m.msgBits msg).drop k) = some (opb.drop (m.bitStart k).toNat)) ∧
      (∀ k : Nat, |(m.bitStart k : ℚ) - nominalStart sampRate baudRate k| =
        k * |m.sps * baudRate - sampRate| / baudRate) ∧
      ((∀ k ≤ (m.msgBits msg).length,
          |(m.bitStart k : ℚ) - nominalStart sampRate baudRate k| < 1) ↔
        (m.msgBits msg).length * |m.sps * baudRate - sampRate| < baudRate) ∧
      (sampRate < 2 ^ 53 → m.sps = (sampRate / baudRate : Nat)) := by
  have hsps := Modem.one_le_sps_natCast hbaud hle hmake
  have hstart : ∀ k : Nat, m.bitStart k = (k * m.sps.toNat : Nat) := by
    intro k
    rw [Modem.bitStart, Nat.cast_mul, Int.toNat_of_nonneg (by omega)]
  obtain ⟨opb, hopb⟩ := Modem.modulate_isSome (pythonFloats pi sin float32) hsps msg
  rw [Modem.modulate_loop] at hopb
  refine ⟨opb, hopb, hopb, ?_, fun k hk => ?_, abs_bitStart_sub hbaud, timely_iff hbaud,
    fun hbits => Modem.sps_eq_div hbaud hle hbits hmake⟩
  · rw [hstart, fskLoop_length hopb]
  · rw [hstart, Int.toNat_natCast]
    exact fskLoop_drop k hk hopb

/-- Rates of 53 bits make a modem. -/
theorem Modem.make_natCast (pi : Double) (sin : Double → Double) (float32 : Double → S)
    {sampRate baudRate : Nat} (hbaud : 0 < baudRate) (hle : baudRate ≤ sampRate)
    (hbits : sampRate < 2 ^ 53) (markFreq spaceFreq : Double) :
    Modem.make (pythonFloats pi sin float32) (sampRate : Double) ((0 : Nat) : Double) markFreq
        spaceFreq (baudRate : Double) =
      some ⟨(sampRate : Double), markFreq, spaceFreq, (baudRate : Double), 0,
        (sampRate / baudRate : Nat)⟩ := by
  have hbpos : (0 : ℚ) < baudRate := by exact_mod_cast hbaud
  have hquot : 1 ≤ (sampRate : ℚ) / baudRate := (one_le_div hbpos).mpr (by exact_mod_cast hle)
  have hvalue := Double.value_natCast_div hbits.le (hle.trans hbits.le) hbaud
  have hint : (pythonFloats pi sin float32).int ((sampRate : Double) / (baudRate : Double)) = _ :=
    int_of_one_le hvalue (Binary64.one_le_round hquot)
  rw [Binary64.floor_round_div hbaud hle hbits] at hint
  have hzero : (((0 : Nat) : Double) == ((0 : Nat) : Double)) = true :=
    Double.beq_self (Double.value_natCast (by norm_num))
  rw [Modem.make, if_pos hzero, Double.natCast_one_mul, hint]
  rfl

/-- Python's floats for the runs here.  The sine has no part in the timing. -/
def timingFloats : Floats Double Double :=
  pythonFloats (Double.ofRat (884279719003555 / 281474976710656)) id id

/-- 40 samples per bit, with no error. -/
theorem bit_timing_even :
    ∃ m, Modem.make timingFloats ((48000 : Nat) : Double) ((0 : Nat) : Double)
        ((1200 : Nat) : Double) ((2200 : Nat) : Double) ((1200 : Nat) : Double) = some m ∧
      ∃ opb,
        Basic.ax25ToFsk timingFloats ⟨m, ""⟩ [1, 0, 1] = some opb ∧
        Pdu.ax25ToFsk timingFloats m [1, 0, 1] = some opb ∧
        (opb.length : Int) = m.bitStart (m.msgBits [1, 0, 1]).length ∧
        (∀ k ≤ (m.msgBits [1, 0, 1]).length, ∃ phase,
          fskLoop timingFloats m.sps (m.markPinc timingFloats) (m.spacePinc timingFloats) phase
              ((m.msgBits [1, 0, 1]).drop k) = some (opb.drop (m.bitStart k).toNat)) ∧
        (∀ k : Nat, |(m.bitStart k : ℚ) - nominalStart 48000 1200 k| =
          k * |m.sps * (1200 : Nat) - (48000 : Nat)| / (1200 : Nat)) ∧
        ((∀ k ≤ (m.msgBits [1, 0, 1]).length,
            |(m.bitStart k : ℚ) - nominalStart 48000 1200 k| < 1) ↔
          (m.msgBits [1, 0, 1]).length * |m.sps * (1200 : Nat) - (48000 : Nat)| < (1200 : Nat)) ∧
        (48000 < 2 ^ 53 → m.sps = (48000 / 1200 : Nat)) := by
  have hmake : Modem.make timingFloats ((48000 : Nat) : Double) ((0 : Nat) : Double)
      ((1200 : Nat) : Double) ((2200 : Nat) : Double) ((1200 : Nat) : Double) = some _ :=
    Modem.make_natCast _ _ _ (by norm_num) (by norm_num) (by norm_num) _ _
  exact ⟨_, hmake, bit_timing _ _ _ (by norm_num) (by norm_num) hmake "" [1, 0, 1]⟩

/-- 36.75 samples per bit become 36, and the end of the second bit is one and a half
samples early. -/
theorem bit_timing_fails :
    ∃ m, Modem.make timingFloats ((44100 : Nat) : Double) ((0 : Nat) : Double)
        ((1200 : Nat) : Double) ((2200 : Nat) : Double) ((1200 : Nat) : Double) = some m ∧
      m.bitStart 2 = 72 ∧ nominalStart 44100 1200 2 = 147 / 2 ∧
      ¬ ∀ k ≤ (m.msgBits [1, 0]).length,
        |(m.bitStart k : ℚ) - nominalStart 44100 1200 k| < 1 := by
  have hmake : Modem.make timingFloats ((44100 : Nat) : Double) ((0 : Nat) : Double)
      ((1200 : Nat) : Double) ((2200 : Nat) : Double) ((1200 : Nat) : Double) = some _ :=
    Modem.make_natCast _ _ _ (by norm_num) (by norm_num) (by norm_num) _ _
  refine ⟨_, hmake, rfl, by norm_num [nominalStart], fun hall => ?_⟩
  have hlast := hall 2 (by decide)
  norm_num [nominalStart, Modem.bitStart] at hlast

end GsSDR.Afsk
