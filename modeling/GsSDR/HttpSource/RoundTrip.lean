import GsSDR.HttpSource.Decode

/-!
# What becomes of a rendered payload

A payload of `n` bytes is `0x` and `2 * n` digits.  The size formula gives it
`n - 1` bytes and the loop writes `n`.  So a published PDU lacks the last byte
(`publish_renderBytes`).  For a single byte the vector is empty, for no byte at
all the size wraps, and either ends the process.  No payload arrives as it was
sent (`publish_never_exact`).
-/

namespace GsSDR

namespace HttpSource

open Cxx

/-- The payload field for these bytes. -/
def payloadOf (bs : List UInt8) : Str := '0' :: 'x' :: renderBytes bs

/-- Exactly one PDU is published, and its vector is `bs`. -/
def PublishesExactly (v : RecordVars) (bs : List UInt8) : Prop :=
  ∃ pdu, (publish v).map Prod.fst = some [pdu] ∧ pdu.u8vector = bs

theorem length_payloadOf (bs : List UInt8) :
    (payloadOf bs).length = 2 * (bs.length + 1) := by
  simp only [payloadOf, List.length_cons, length_renderBytes]
  omega

/-- The vector gets one byte less than the payload has. -/
theorem vectorSize_payloadOf (bs : List UInt8) :
    vectorSize (payloadOf bs).length =
      (bs.length + 0xFFFFFFFFFFFFFFFF) % 0x10000000000000000 := by
  rw [vectorSize, length_payloadOf]
  omega

/-- The loop on a rendered payload. -/
theorem decodeLoop_payloadOf (f : Filling) (bs : List UInt8) :
    decodeLoop f (payloadOf bs) = f.putAll bs := by
  rw [payloadOf, decodeLoop, if_neg (by simp [substr])]
  exact decodePairs_renderBytes f bs

/-- A payload of at least two bytes is published without its last byte, which is
written past the vector. -/
theorem publish_renderBytes {v : RecordVars} {bs : List UInt8} (hv : v.complete = true)
    (hp : v.packetPayload = payloadOf bs) (htwo : 2 ≤ bs.length) (hmax : bs.length ≤ vectorMax) :
    publish v = some
        ([⟨v.timestamp, v.spacecraftId, v.radioId, bs.dropLast⟩], .reset) ∧
      (decode v.packetPayload).map Filling.outOfRange = some [bs.length - 1] := by
  have hsize : vectorSize (payloadOf bs).length = bs.length - 1 := by
    rw [vectorSize_payloadOf]
    rw [vectorMax] at hmax
    omega
  have hfill : fill v.packetPayload =
      some ((⟨0, true, List.replicate (bs.length - 1) 0, []⟩ : Filling).putAll bs) := by
    rw [hp, fill, hsize, if_pos (by omega), decodeLoop_payloadOf]
  have hvector := putAll_pmtPayload (f := ⟨0, true, List.replicate (bs.length - 1) 0, []⟩) bs
    (Nat.zero_le _)
  have hpast := putAll_outOfRange ⟨0, true, List.replicate (bs.length - 1) 0, []⟩ bs
  have hok : ∀ (f : Filling), (f.putAll bs).ok = f.ok := by
    intro f
    rw [← decodePairs_renderBytes]
    exact (decodePairs_keeps f _).1
  have hdecode : decode v.packetPayload =
      some ((⟨0, true, List.replicate (bs.length - 1) 0, []⟩ : Filling).putAll bs) := by
    refine Option.filter_eq_some_iff.mpr ⟨hfill, ?_⟩
    have hroom : ((⟨0, true, List.replicate (bs.length - 1) 0, []⟩ : Filling).putAll
        bs).pmtPayload ≠ [] := by
      rw [← decodePairs_renderBytes, ← List.length_pos_iff, (decodePairs_keeps _ _).2,
        List.length_replicate]
      omega
    simp [Filling.survives, hroom]
  constructor
  · rw [publish, if_pos hv, hdecode, Option.map_some, hok, hvector, if_pos rfl]
    simp [List.dropLast_eq_take]
  · rw [hdecode, Option.map_some, hpast]
    have hone : bs.length - (bs.length - 1) = 1 := by omega
    simp [hone]

/-- No complete telecommand with a rendered payload is published with exactly
the bytes that were rendered. -/
theorem publish_never_exact (v : RecordVars) (bs : List UInt8) (hv : v.complete = true)
    (hp : v.packetPayload = payloadOf bs) : ¬ PublishesExactly v bs := by
  rintro ⟨pdu, hpub, hbytes⟩
  rcases publish_cases v with ⟨hno, _⟩ | ⟨_, _, hnone | hempty⟩ | ⟨_, hsend, f, hf, hone⟩
  · rw [hv] at hno
    cases hno
  · rw [hnone] at hpub
    cases hpub
  · rw [hempty] at hpub
    cases hpub
  · rw [hone] at hpub
    cases hpub
    obtain ⟨_, _, hmax⟩ := hsend
    obtain ⟨f', hf', hlength, _⟩ := fill_of_size hmax
    rw [fill_of_decode hf] at hf'
    cases hf'
    have hbs : f.pmtPayload = bs := hbytes
    rw [hbs, hp, vectorSize_payloadOf] at hlength
    rw [hp, vectorSize_payloadOf, vectorMax] at hmax
    omega

theorem publish_never_exact_oneByte :
    ¬ PublishesExactly ⟨['T', 'C'], payloadOf [0xAB], 1, 1, 0⟩ [0xAB] :=
  publish_never_exact ⟨['T', 'C'], payloadOf [0xAB], 1, 1, 0⟩ [0xAB] (by decide) rfl

/-- The payload `0x01AB` is published as the single byte `0x01`. -/
theorem publish_loses_lastByte :
    (publish ⟨['T', 'C'], ['0', 'x', '0', '1', 'A', 'B'], 1, 1, 0⟩).map Prod.fst =
        some [⟨1, 1, 0, [0x01]⟩] ∧
      ¬ ∀ (v : RecordVars) (bs : List UInt8), v.complete = true →
        v.packetPayload = payloadOf bs → PublishesExactly v bs := by
  refine ⟨rfl, fun hall => ?_⟩
  obtain ⟨pdu, hpub, hbytes⟩ :=
    hall ⟨['T', 'C'], payloadOf [0x01, 0xAB], 1, 1, 0⟩ [0x01, 0xAB] rfl rfl
  rw [(publish_renderBytes rfl rfl (by simp) (by decide)).1] at hpub
  cases hpub
  cases hbytes

end HttpSource

end GsSDR
