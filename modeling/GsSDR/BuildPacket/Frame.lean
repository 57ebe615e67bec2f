import GsSDR.BuildPacket.Handler

/-!
# Packets with a header

A packet with a header is `frame`: the header with the length of the payload
and its checksum, the payload, its checksum, and zeros up to the packet length.
The handler builds this in place, whatever the payload leaves of its room
(`headerPost_frame`).  A reader of the frame finds its way by the length in it
(`decodes_frame`).
-/

namespace GsSDR.BuildPacket

open ByteBuffer

section

variable (crc32 : List UInt8 → UInt32)

/-- The first word of a header. -/
def preamble (length : Nat) : List UInt8 := leBytes 2 0x1337 ++ leBytes 2 length

/-- The header of a payload of `length` bytes. -/
def header (length : Nat) : List UInt8 :=
  preamble length ++ leBytes 4 (crc32 (preamble length)).toNat

/-- A packet with a header. -/
def frame (packetLength : Nat) (payload : List UInt8) : List UInt8 :=
  header crc32 payload.length ++ payload ++ leBytes 4 (crc32 payload).toNat ++
    List.replicate (packetLength - 12 - payload.length) 0

/-- What a reader finds in a packet that carries `payload`. -/
structure Decodes (vector payload : List UInt8) : Prop where
  magic : word vector 0 2 = 0x1337
  /-- The length field stays within the packet. -/
  fits : 12 + word vector 2 2 ≤ vector.length
  header_crc : word vector 4 4 = (crc32 (vector.take 4)).toNat
  payload_eq : (vector.drop 8).take (word vector 2 2) = payload
  payload_crc : word vector (8 + word vector 2 2) 4 = (crc32 payload).toNat
  zeros : ∀ b ∈ vector.drop (12 + word vector 2 2), b = 0

end

variable {crc32 : List UInt8 → UInt32}

theorem length_preamble (n : Nat) : (preamble n).length = 4 := by
  rw [preamble, List.length_append, length_leBytes, length_leBytes]

theorem length_header (n : Nat) : (header crc32 n).length = 8 := by
  rw [header, List.length_append, length_preamble, length_leBytes]

theorem length_frame {packetLength : Nat} {payload : List UInt8}
    (h : payload.length + 12 ≤ packetLength) :
    (frame crc32 packetLength payload).length = packetLength := by
  simp only [frame, List.length_append, length_header, length_leBytes, List.length_replicate]
  omega

theorem uint16_natCast {n : Nat} (h : n < 2 ^ 16) : uint16 n = n := by
  rw [uint16]
  omega

/-! ## Building a frame in place -/

/-- The checksum goes behind the first word. -/
theorem headerPre_crc {length : Nat} {old rest : List UInt8} (hold : old.length = 4) :
    (do let head ← load (preamble length ++ old ++ rest) 0 4
        store (preamble length ++ old ++ rest) 4 (leBytes 4 (crc32 head).toNat)) =
      some (header crc32 length ++ rest) := by
  have hload : load (preamble length ++ old ++ rest) 0 4 = some (preamble length) := by
    have h := load_part (a := []) (b := preamble length) (c := old ++ rest) (i := 0) (n := 4)
      rfl (length_preamble length).symm
    rwa [List.nil_append, ← List.append_assoc] at h
  rw [hload]
  exact store_part (length_preamble length).symm (by rw [length_leBytes, hold])

/-- The header for a full payload. -/
theorem headerPre_zeros {packetLength : Nat} (h12 : 12 ≤ packetLength)
    (hfit : packetLength ≤ 65547) :
    headerPre crc32 packetLength (List.replicate packetLength 0) =
      some (header crc32 (packetLength - 12) ++ List.replicate (packetLength - 8) 0) := by
  have hzeros : List.replicate packetLength (0 : UInt8) =
      [] ++ [0, 0] ++ ([0, 0] ++ ([0, 0, 0, 0] ++ List.replicate (packetLength - 8) 0)) := by
    obtain ⟨k, rfl⟩ := Nat.exists_eq_add_of_le h12
    have hk : 12 + k - 8 = k + 4 := by omega
    rw [hk, Nat.add_comm 12 k]
    rfl
  have hlength : uint16 ((packetLength : Int) - 2 - 2 - 4 - 4) = packetLength - 12 := by
    rw [← uint16_natCast (show packetLength - 12 < 2 ^ 16 by omega)]
    congr 1
    omega
  have hmagic : store (List.replicate packetLength 0) 0 (leBytes 2 0x1337) =
      some (leBytes 2 0x1337 ++ [0, 0] ++
        ([0, 0, 0, 0] ++ List.replicate (packetLength - 8) 0)) := by
    rw [hzeros, store_part (a := []) (i := 0) rfl (by simp), List.nil_append, ← List.append_assoc]
  have hword : store (leBytes 2 0x1337 ++ [0, 0] ++
        ([0, 0, 0, 0] ++ List.replicate (packetLength - 8) 0)) 2
        (leBytes 2 (packetLength - 12)) =
      some (preamble (packetLength - 12) ++ [0, 0, 0, 0] ++
        List.replicate (packetLength - 8) 0) := by
    rw [store_part (by simp) (by simp), preamble]
    simp only [List.append_assoc]
  simp only [headerPre, hlength, hmagic, Option.bind_eq_bind, Option.bind_some, hword]
  exact headerPre_crc rfl

/-- A short read takes the missing bytes off the length. -/
theorem headerPatch_header {length extraOffset : Nat} {rest : List UInt8}
    (hle : extraOffset ≤ length) (hlt : length < 2 ^ 16) :
    headerPatch crc32 extraOffset (header crc32 length ++ rest) =
      some (header crc32 (length - extraOffset) ++ rest) := by
  have hparts : header crc32 length ++ rest = leBytes 2 0x1337 ++ leBytes 2 length ++
      (leBytes 4 (crc32 (preamble length)).toNat ++ rest) := by
    simp only [header, preamble, List.append_assoc]
  have hload : load (header crc32 length ++ rest) 2 2 = some (leBytes 2 length) := by
    rw [hparts, load_part (by simp) (by simp)]
  have hlength : uint16 ((leNat (leBytes 2 length) : Int) - extraOffset) =
      length - extraOffset := by
    rw [leNat_leBytes_of_lt hlt, ← Int.ofNat_sub hle]
    exact uint16_natCast (by omega)
  have hword : store (header crc32 length ++ rest) 2 (leBytes 2 (length - extraOffset)) =
      some (preamble (length - extraOffset) ++
        leBytes 4 (crc32 (preamble length)).toNat ++ rest) := by
    rw [hparts, store_part (by simp) (by simp), ← List.append_assoc]
    rfl
  simp only [headerPatch, hload, Option.bind_eq_bind, Option.bind_some, hlength, hword]
  exact headerPre_crc (by simp)

/-- After the payload the header has its length, whether the read was short or
not. -/
theorem headerPatch_payload {packetLength : Nat} {payload rest : List UInt8}
    (h12 : payload.length + 12 ≤ packetLength) (hfit : packetLength ≤ 65547) :
    (if packetLength - 12 - payload.length ≠ 0 then
        headerPatch crc32 (packetLength - 12 - payload.length)
          (header crc32 (packetLength - 12) ++ payload ++ rest)
      else some (header crc32 (packetLength - 12) ++ payload ++ rest)) =
      some (header crc32 payload.length ++ payload ++ rest) := by
  split
  next =>
    have hlength : packetLength - 12 - (packetLength - 12 - payload.length) = payload.length := by
      omega
    rw [List.append_assoc, headerPatch_header (by omega) (by omega), hlength, ← List.append_assoc]
  next hfull =>
    have hlength : packetLength - 12 = payload.length := by
      omega
    rw [hlength]

/-- The checksum follows the payload. -/
theorem headerPost_frame {packetLength : Nat} {payload : List UInt8}
    (h12 : payload.length + 12 ≤ packetLength) (hfit : packetLength ≤ 65547) :
    headerPost crc32 8 (packetLength - 4) (packetLength - 12 - payload.length)
        (header crc32 (packetLength - 12) ++ payload ++
          List.replicate (packetLength - 8 - payload.length) 0) =
      some (frame crc32 packetLength payload) := by
  have hload : load (header crc32 payload.length ++ payload ++
        List.replicate (packetLength - 8 - payload.length) 0) 8
        (packetLength - 4 - 8 - (packetLength - 12 - payload.length)) = some payload :=
    load_part (length_header _).symm (by omega)
  have hzeros : packetLength - 8 - payload.length - 4 = packetLength - 12 - payload.length := by
    omega
  have hstore : store (header crc32 payload.length ++ payload ++
        List.replicate (packetLength - 8 - payload.length) 0)
        (packetLength - 4 - (packetLength - 12 - payload.length))
        (leBytes 4 (crc32 payload).toNat) = some (frame crc32 packetLength payload) := by
    rw [zeros_split (show 4 ≤ packetLength - 8 - payload.length by omega), hzeros,
      ← List.append_assoc, store_part (by simp [length_header]; omega) (by simp), frame]
  have hroom : ¬ packetLength - 4 < 8 + (packetLength - 12 - payload.length) := by omega
  simp only [headerPost, headerPatch_payload h12 hfit, Option.bind_eq_bind, Option.bind_some,
    if_neg hroom, hload]
  exact hstore

/-! ## Reading a frame -/

/-- The reader finds the payload. -/
theorem decodes_frame {packetLength : Nat} {payload : List UInt8}
    (h12 : payload.length + 12 ≤ packetLength) (hfit : packetLength ≤ 65547) :
    Decodes crc32 (frame crc32 packetLength payload) payload := by
  have hcrc : ∀ l : List UInt8, (crc32 l).toNat < 256 ^ 4 := by
    intro l
    exact (crc32 l).toNat_lt
  have hmagic : word (frame crc32 packetLength payload) 0 2 = 0x1337 := by
    have h := word_part (a := []) (i := 0) (k := 2) (n := 0x1337)
      (c := leBytes 2 payload.length ++ leBytes 4 (crc32 (preamble payload.length)).toNat ++
        payload ++ leBytes 4 (crc32 payload).toNat ++
        List.replicate (packetLength - 12 - payload.length) 0) rfl (by omega)
    simpa only [frame, header, preamble, List.append_assoc, List.nil_append] using h
  have hword : word (frame crc32 packetLength payload) 2 2 = payload.length := by
    have h := word_part (a := leBytes 2 0x1337) (i := 2) (k := 2) (n := payload.length)
      (c := leBytes 4 (crc32 (preamble payload.length)).toNat ++
        payload ++ leBytes 4 (crc32 payload).toNat ++
        List.replicate (packetLength - 12 - payload.length) 0) (by simp) (by omega)
    simpa only [frame, header, preamble, List.append_assoc] using h
  have hhead : (frame crc32 packetLength payload).take 4 = preamble payload.length := by
    rw [frame, header]
    simp only [List.append_assoc]
    exact List.take_left' (length_preamble _)
  refine ⟨hmagic, ?_, ?_, ?_, ?_, ?_⟩
  · rw [hword, length_frame h12]
    omega
  · have h := word_part (a := preamble payload.length) (i := 4) (k := 4)
      (n := (crc32 (preamble payload.length)).toNat)
      (c := payload ++ leBytes 4 (crc32 payload).toNat ++
        List.replicate (packetLength - 12 - payload.length) 0) (length_preamble _).symm (hcrc _)
    rw [hhead]
    simpa only [frame, header, List.append_assoc] using h
  · rw [hword, frame]
    simp only [List.append_assoc]
    rw [List.drop_left' (length_header _), List.take_left]
  · have h := word_part (a := header crc32 payload.length ++ payload) (i := 8 + payload.length)
      (k := 4) (n := (crc32 payload).toNat)
      (c := List.replicate (packetLength - 12 - payload.length) 0)
      (by rw [List.length_append, length_header]) (hcrc _)
    rw [hword]
    exact h
  · rw [hword, frame, List.drop_left']
    · intro b hb
      exact List.eq_of_mem_replicate hb
    · simp only [List.length_append, length_header, length_leBytes]
      omega

end GsSDR.BuildPacket
