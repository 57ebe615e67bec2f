import GsSDR.Lib.Runs

/-!
# The AFSK modulator

`afsk_basic` and `afsk_basic_pdu` turn the bits of a message into samples of a
tone whose frequency depends on the bit and whose phase is continuous.  The two
classes have copies of one constructor and one `ax25_to_fsk`.  This file has
both, and the message handler of `afsk_basic_pdu`, which publishes the samples
of a message at once.

The samples are Python floats, and so are the parameters of the block wherever
the code computes with them.  The operations are parameters here (`Floats`), so
nothing depends on how they round.  Of the operations only the two facts in
`Floats.Lawful` are used.
-/

namespace GsSDR.Afsk

variable {R S M : Type}

/-- What the modulator uses of floats besides the operators.  `R` are the
floats, `S` are the floats of single precision that the blocks put out. -/
structure Floats (R S : Type) where
  /-- `np.pi`. -/
  pi : R
  /-- `np.sin`. -/
  sin : R → R
  /-- `int(x)`, which raises for infinities and for what is not a number. -/
  int : R → Option Int
  /-- A float in single precision. -/
  float32 : R → S

/-- A factor of one changes nothing, and a quotient of at least one is at least
one when it is truncated. -/
structure Floats.Lawful [Mul R] [Div R] [NatCast R] [LE R] [LT R] (fl : Floats R S) : Prop where
  one_mul : ∀ x : R, ((1 : Nat) : R) * x = x
  one_le_int : ∀ (a b : R) (n : Int),
    ((0 : Nat) : R) < b → b ≤ a → fl.int (a / b) = some n → 1 ≤ n

/-- A message of the port `in`: a pair of a dictionary and bytes. -/
structure Msg (M : Type) where
  dict : M
  data : List UInt8

/-- The members that both classes set up. -/
structure Modem (R : Type) where
  sampRate : R
  markFreq : R
  spaceFreq : R
  baudRate : R
  preambleLenBits : Int
  sps : Int

section

variable [Add R] [Mul R] [Div R] [NatCast R] [BEq R]
variable (fl : Floats R S)

/-- The code that both constructors have. -/
def Modem.make (sampRate preambleLenMs markFreq spaceFreq baudRate : R) : Option (Modem R) := do
  let preambleLenBits ←
    (if preambleLenMs == ((0 : Nat) : R) then some 0
    else fl.int (preambleLenMs / ((1000 : Nat) : R) * baudRate / ((2 : Nat) : R)))
  let sps ← fl.int (((1 : Nat) : R) * sampRate / baudRate)
  some { sampRate, markFreq, spaceFreq, baudRate, preambleLenBits, sps }

/-- The loop of `ax25_to_fsk`, with the samples of the bits from here on.  A bit
without samples has no last phase. -/
def fskLoop (sps : Int) (markPinc spacePinc : R) : R → List UInt8 → Option (List R)
  | _, [] => some []
  | phase, bit :: bits =>
      -- The code tests `bit is 1`, and small integers are the same object.
      let pinc := if bit = 1 then markPinc else spacePinc
      let phase := phase + pinc
      let tmp := (List.range sps.toNat).map fun (k : Nat) => (k : R) * pinc + phase
      match tmp.getLast? with
      | none => none
      | some last => (fskLoop sps markPinc spacePinc last bits).map (tmp.map fl.sin ++ ·)

/-- `[0, 1] * preamble_len_bits`. -/
def preamble (preambleLenBits : Int) : List UInt8 :=
  (List.replicate preambleLenBits.toNat [0, 1]).flatten

/-- The code that `ax25_to_fsk` has in both classes. -/
def Modem.modulate (m : Modem R) (msg : List UInt8) : Option (List R) :=
  let msgBits := if m.preambleLenBits ≠ 0 then preamble m.preambleLenBits ++ msg else msg
  let markPinc := ((2 : Nat) : R) * fl.pi * m.markFreq / m.sampRate
  let spacePinc := ((2 : Nat) : R) * fl.pi * m.spaceFreq / m.sampRate
  fskLoop fl m.sps markPinc spacePinc ((0 : Nat) : R) msgBits

/-! ## The block that publishes bursts -/

/-- The members of `afsk_basic_pdu` that its handler changes, and what it has
published on `pdus`. -/
structure Pdu (R S M : Type) where
  outbox : List (List UInt8)
  outputBuffer : Option (List R)
  published : List (M × List S)

namespace Pdu

def initial : Pdu R S M where
  outbox := []
  outputBuffer := none
  published := []

/-- The constructor of `afsk_basic_pdu`. -/
def make (sampRate preambleLenMs markFreq spaceFreq baudRate : R) : Option (Modem R) :=
  Modem.make fl sampRate preambleLenMs markFreq spaceFreq baudRate

/-- `afsk_basic_pdu.ax25_to_fsk`. -/
def ax25ToFsk (m : Modem R) (msg : List UInt8) : Option (List R) := m.modulate fl msg

/-- `afsk_basic_pdu.handle_msg`.  With nothing in the outbox, `get` would
wait. -/
def handleMsg (m : Modem R) (s : Pdu R S M) (msg : Msg M) : Option (Pdu R S M) :=
  match s.outbox ++ [msg.data] with
  | [] => none
  | data :: outbox =>
      match ax25ToFsk fl m data with
      | none => none
      | some opb =>
          some
            { outbox
              outputBuffer := some opb
              published := s.published ++ [(msg.dict, opb.map fl.float32)] }

end Pdu

end

/-! ## All messages can be modulated -/

variable [Mul R] [NatCast R] {fl : Floats R S} {m : Modem R}

/-- The constructors make a modem with samples for each bit. -/
theorem Modem.one_le_sps [Div R] [BEq R] [LE R] [LT R] (law : fl.Lawful)
    {sampRate preambleLenMs markFreq spaceFreq baudRate : R}
    (hmake : Modem.make fl sampRate preambleLenMs markFreq spaceFreq baudRate = some m)
    (hbaud : ((0 : Nat) : R) < baudRate) (hsamp : baudRate ≤ sampRate) : 1 ≤ m.sps := by
  obtain ⟨bits, _, hmake⟩ := Option.bind_eq_some_iff.mp hmake
  obtain ⟨sps, hsps, hmake⟩ := Option.bind_eq_some_iff.mp hmake
  cases hmake
  rw [law.one_mul] at hsps
  exact law.one_le_int sampRate baudRate sps hbaud hsamp hsps

variable [Add R]

/-- With a sample for each bit, all bits can be modulated. -/
theorem fskLoop_isSome {sps : Int} (hsps : 1 ≤ sps) (markPinc spacePinc : R) (bits : List UInt8) :
    ∀ phase : R, ∃ opb, fskLoop fl sps markPinc spacePinc phase bits = some opb := by
  obtain ⟨k, hk⟩ : ∃ k, sps.toNat = k + 1 := ⟨sps.toNat - 1, by omega⟩
  have hlast : ∀ f : Nat → R, ((List.range sps.toNat).map f).getLast? = some (f k) := by
    intro f
    rw [hk, List.range_succ, List.map_append, List.map_singleton, List.getLast?_concat]
  induction bits with
  | nil =>
      intro phase
      exact ⟨[], rfl⟩
  | cons bit bits ih =>
      intro phase
      simp only [fskLoop, hlast]
      obtain ⟨opb, hopb⟩ := ih
        ((k : R) * (if bit = 1 then markPinc else spacePinc) +
          (phase + if bit = 1 then markPinc else spacePinc))
      rw [hopb]
      exact ⟨_, rfl⟩

theorem Modem.modulate_isSome [Div R] (fl : Floats R S) (hsps : 1 ≤ m.sps) (msg : List UInt8) :
    ∃ opb, m.modulate fl msg = some opb :=
  fskLoop_isSome hsps _ _ _ _

end GsSDR.Afsk
