import GsSDR.BuildPacket.Handler
import GsSDR.Lib.Bits

/-!
# Packed to unpacked

`packed_to_unpacked` publishes the bits of a packet as bytes, most significant
bit first, behind an empty dictionary.  It has a copy of the loop of
`build_packet_1` and counts the bits in an `int`.
-/

namespace GsSDR

namespace PackedToUnpacked

open BuildPacket

/-- The vector that `packet_handler` publishes for that of a packet.  An overflow
has no meaning, and no vector has a negative length. -/
def packetHandler (dataPacket : List UInt8) : Option (List UInt8) :=
  let packetLength : Int := (dataPacket.length : Int).bmod 0x100000000
  let unpackedLength := packetLength * 8
  if 0 ≤ unpackedLength ∧ unpackedLength < 0x80000000 then
    (List.range unpackedLength.toNat).mapM (bitAt dataPacket)
  else none

end PackedToUnpacked

namespace BuildPacket

variable {data : List UInt8} {n : Nat}

/-- The loop of both blocks. -/
theorem mapM_bitAt (data : List UInt8) (n : Nat) :
    (List.range (n * 8)).mapM (bitAt data) =
      if n ≤ data.length then some (Bits.unpack (data.take n)) else none := by
  have hbit : bitAt data = fun i => (data[i / 8]?).map fun b => Bits.bit b (7 - i % 8) := by
    funext i
    simp only [bitAt, Bits.bit_of_mask]
  rw [hbit, Bits.mapM_bits]

end BuildPacket

namespace PackedToUnpacked

variable {data : List UInt8}

theorem bmod_eq {n : Nat} (h : n < 2 ^ 31) : (n : Int).bmod 0x100000000 = n := by
  rw [Int.bmod_def]
  omega

/-- A packet whose bits an `int` can count. -/
theorem packetHandler_eq (h : data.length < 2 ^ 28) :
    packetHandler data = some (Bits.unpack data) := by
  have hcount : ((data.length : Int) * 8).toNat = data.length * 8 := by omega
  have hfits : 0 ≤ (data.length : Int) * 8 ∧ (data.length : Int) * 8 < 0x80000000 := by omega
  unfold packetHandler
  simp only [bmod_eq (Nat.lt_trans h (by omega))]
  rw [if_pos hfits, hcount, BuildPacket.mapM_bitAt, if_pos (Nat.le_refl _), List.take_length]

/-- Of the packets that fit an `int`, others have no bits published. -/
theorem packetHandler_none (hle : 2 ^ 28 ≤ data.length) (hlt : data.length < 2 ^ 31) :
    packetHandler data = none := by
  have hlong : ¬ (0 ≤ (data.length : Int) * 8 ∧ (data.length : Int) * 8 < 0x80000000) := by omega
  unfold packetHandler
  simp only [bmod_eq hlt]
  rw [if_neg hlong]

end PackedToUnpacked

end GsSDR
