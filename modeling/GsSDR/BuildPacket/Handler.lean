import GsSDR.Lib.Bytes

/-!
# Building packets

`build_packet_1` publishes one packet for each message it gets.  The payload
comes from a random generator, from a file that is read one stretch at a time,
or from the command line.  A random or a file packet may get a header in front
of the payload and a checksum behind it.

The packet is built in a vector.  The header is written before the payload,
with the length of a full payload, and is patched when the read from the file
was short.  The writes go through pointers, so a write outside the vector has
no meaning and the handler is `none` for it.  The same holds for an array or a
checksum of negative length and for an `int` that overflows.

`crc32` is the library's checksum.
-/

namespace GsSDR.BuildPacket

open ByteBuffer

/-- `dataType`. -/
inductive DataType where
  | packed
  | unpacked
deriving DecidableEq, Repr

/-- `dataFrom`. -/
inductive DataFrom where
  | randomGenerator
  | file
  | cmdLine
deriving DecidableEq, Repr

/-- The value of `f_errors`. -/
inductive FileRead where
  | ok
  | failed
deriving DecidableEq, Repr

/-- The value of `f_transfer`. -/
inductive Transfer where
  | inProgress
  | ready
deriving DecidableEq, Repr

/-- The dictionary `meta` of a file transfer. -/
structure Meta where
  fErrors : FileRead
  fTransfer : Transfer
deriving DecidableEq, Repr

/-- What the handler publishes.  The dictionary of a packet is empty unless it
comes from a file. -/
inductive Message where
  /-- On `stat_pdus`. -/
  | stat (dict : Meta)
  /-- On `out_pdus`. -/
  | out (dict : Option Meta) (vector : List UInt8)
deriving DecidableEq, Repr

/-- The members of the block. -/
structure State where
  appendHeader : Bool
  packetLength : Nat
  dataType : DataType
  dataFrom : DataFrom
  packetBytes : List UInt8
  fileSize : Nat
  fileIncrement : Nat
  /-- `fileToTransfer.is_open()`. -/
  fileToTransfer : Bool
deriving DecidableEq, Repr

/-- The constructor, for a length that is not negative.  `stat` is the size that
`stat` finds and `opened` tells if the open after it succeeds.  The default of
64 for the length 0 goes to the parameter, when the member has its value.  The
members of the transfer keep no value that is read when there is no file. -/
def make (appendHeader : Bool) (packetLength : Nat) (dataType : DataType) (dataFrom : DataFrom)
    (stat : Option Nat) (opened : Bool) (packetBytes : List UInt8) : Option State :=
  match dataFrom with
  | .file =>
      stat.map fun size =>
        { appendHeader, packetLength, dataType, dataFrom, packetBytes
          fileSize := size, fileIncrement := 0, fileToTransfer := opened }
  | _ =>
      some
        { appendHeader, packetLength, dataType, dataFrom, packetBytes
          fileSize := 0, fileIncrement := 0, fileToTransfer := false }

/-- CRC-32 with the reflected polynomial, as the library computes it for each byte.
The model takes any checksum, so this one is for runs of it. -/
def crc32Ieee (bytes : List UInt8) : UInt32 :=
  let bit (crc : UInt32) : UInt32 :=
    if crc &&& 1 = 1 then (crc >>> 1) ^^^ 0xEDB88320 else crc >>> 1
  let byte (crc : UInt32) (b : UInt8) : UInt32 :=
    (List.range 8).foldl (fun crc _ => bit crc) (crc ^^^ b.toUInt32)
  bytes.foldl byte 0xFFFFFFFF ^^^ 0xFFFFFFFF

/-- The usual check value. -/
example : crc32Ieee [0x31, 0x32, 0x33, 0x34, 0x35, 0x36, 0x37, 0x38, 0x39] = 0xCBF43926 := by
  decide +kernel

/-- An `int` stored in a `uint16_t`. -/
def uint16 (x : Int) : Nat := (x % 0x10000).toNat

section

variable (crc32 : List UInt8 → UInt32)

/-- The header, before the payload is known. -/
def headerPre (packetLength : Nat) (dataPacket : List UInt8) : Option (List UInt8) := do
  let dataPacket ← store dataPacket 0 (leBytes 2 0x1337)
  let length : Int := (packetLength : Int) - 2 - 2 - 4 - 4
  let dataPacket ← store dataPacket 2 (leBytes 2 (uint16 length))
  let head ← load dataPacket 0 4
  store dataPacket 4 (leBytes 4 (crc32 head).toNat)

/-- The length and the checksum of the header, after a short read. -/
def headerPatch (extraOffset : Nat) (dataPacket : List UInt8) : Option (List UInt8) := do
  let length ← load dataPacket 2 2
  let dataPacket ← store dataPacket 2 (leBytes 2 (uint16 ((leNat length : Int) - extraOffset)))
  let head ← load dataPacket 0 4
  store dataPacket 4 (leBytes 4 (crc32 head).toNat)

/-- The end of the header, after the payload. -/
def headerPost (offset payloadLength extraOffset : Nat) (dataPacket : List UInt8) :
    Option (List UInt8) := do
  let dataPacket ←
    (if extraOffset ≠ 0 then headerPatch crc32 extraOffset dataPacket else some dataPacket)
  if payloadLength < offset + extraOffset then none
  else
    let payload ← load dataPacket 8 (payloadLength - offset - extraOffset)
    store dataPacket (payloadLength - extraOffset) (leBytes 4 (crc32 payload).toNat)

/-- `dataPacket.resize(n)`. -/
def resize (dataPacket : List UInt8) (n : Nat) : List UInt8 :=
  dataPacket.take n ++ List.replicate (n - dataPacket.length) 0x00

/-- Bit `7 - i % 8` of byte `i / 8`. -/
def bitAt (data : List UInt8) (i : Nat) : Option UInt8 :=
  data[i / 8]?.map fun b => if b.toNat &&& (1 <<< (7 - i % 8)) ≠ 0 then 1 else 0

/-- The bytes of the vector, or their bits. -/
def outVector (dataType : DataType) (packetLength : Nat) (dataPacket : List UInt8) :
    Option (List UInt8) :=
  match dataType with
  | .packed => load dataPacket 0 packetLength
  | .unpacked =>
      if packetLength * 8 < 2 ^ 31 then
        (List.range (packetLength * 8)).mapM (bitAt dataPacket)
      else none

end

/-- A packet gets a header. -/
def State.headed (s : State) : Bool := s.appendHeader && s.dataFrom != .cmdLine

/-- `offset`, behind the header. -/
def State.offset (s : State) : Nat := if s.headed then 8 else 0

/-- `payload_length`, behind the header.  It is not negative there, since the
header has been written. -/
def State.payloadLength (s : State) : Nat :=
  if s.headed then s.packetLength - 4 else s.packetLength

section

variable (crc32 : List UInt8 → UInt32)

/-- From the end of the header on. -/
def State.finish (s : State) (extraOffset : Nat) (dataPacket : List UInt8) :
    Option (List UInt8) := do
  let dataPacket ←
    (if s.headed then headerPost crc32 s.offset s.payloadLength extraOffset dataPacket
    else some dataPacket)
  outVector s.dataType s.packetLength dataPacket

/-- `packet_handler`.  `rand` gives the numbers of the generator in the order of
the calls and `content` is what the file holds.  A read gets what is there, up
to the length of the array. -/
def packetHandler (rand : Nat → Nat) (content : List UInt8) (s : State) :
    Option (List Message × State) := do
  let dataPacket := List.replicate s.packetLength 0x00
  let dataPacket ←
    (if s.headed then headerPre crc32 s.packetLength dataPacket else some dataPacket)
  match s.dataFrom with
  | .randomGenerator =>
      let bytes :=
        (List.range (s.payloadLength - s.offset)).map fun k => UInt8.ofNat (rand k % 256)
      let dataPacket ← assign dataPacket s.offset bytes
      let vector ← s.finish crc32 0 dataPacket
      some ([.out none vector], s)
  | .file =>
      if s.fileIncrement < s.fileSize then
        if s.fileToTransfer then
          if s.payloadLength < s.offset then none
          else
            let room := s.payloadLength - s.offset
            let read2file := (content.drop s.fileIncrement).take room
            let extraOffset := room - read2file.length
            let dataPacket ← assign dataPacket s.offset read2file
            let vector ← s.finish crc32 extraOffset dataPacket
            let dict : Meta := { fErrors := .ok, fTransfer := .inProgress }
            some ([.stat dict, .out (some dict) vector],
              { s with fileIncrement := s.fileIncrement + (room - extraOffset) })
        else some ([.stat { fErrors := .ok, fTransfer := .ready }], s)
      else some ([.stat { fErrors := .ok, fTransfer := .ready }], s)
  | .cmdLine =>
      if s.packetBytes.length < 2 ^ 31 then
        let t := { s with packetLength := s.packetBytes.length }
        let dataPacket ← assign (resize dataPacket t.packetLength) 0 s.packetBytes
        let vector ← t.finish crc32 0 dataPacket
        some ([.out none vector], t)
      else none

end

/-! ## What a call does -/

variable {crc32 : List UInt8 → UInt32} {rand : Nat → Nat} {content : List UInt8} {s t : State}
  {ms : List Message}

/-- A vector that is made from some packet. -/
def State.Outputs (s : State) (vector : List UInt8) : Prop :=
  ∃ dataPacket, outVector s.dataType s.packetLength dataPacket = some vector

theorem outputs_of_finish {extraOffset : Nat} {dataPacket vector : List UInt8}
    (h : s.finish crc32 extraOffset dataPacket = some vector) : s.Outputs vector := by
  obtain ⟨d, _, h⟩ := Option.bind_eq_some_iff.mp h
  exact ⟨d, h⟩

/-- All that `packet_handler` can do: a packet of random bytes, a packet or the end of
a file, or the packet of the command line, whose length is that of its bytes. -/
theorem packetHandler_cases (h : packetHandler crc32 rand content s = some (ms, t)) :
    (s.dataFrom = .randomGenerator ∧ t = s ∧ ∃ vector, s.Outputs vector ∧ ms = [.out none vector]) ∨
    (s.dataFrom = .file ∧ ∃ dict vector n, s.Outputs vector ∧
      ms = [.stat dict, .out (some dict) vector] ∧ t = { s with fileIncrement := n }) ∨
    (s.dataFrom = .file ∧ ∃ dict, ms = [.stat dict] ∧ t = s) ∨
    (s.dataFrom = .cmdLine ∧ t = { s with packetLength := s.packetBytes.length } ∧
      s.packetBytes.length < 2 ^ 31 ∧ ∃ vector, t.Outputs vector ∧ ms = [.out none vector]) := by
  obtain ⟨d, _, h⟩ := Option.bind_eq_some_iff.mp h
  cases hfrom : s.dataFrom with
  | randomGenerator =>
      rw [hfrom] at h
      obtain ⟨d, _, h⟩ := Option.bind_eq_some_iff.mp h
      obtain ⟨vector, hvector, h⟩ := Option.bind_eq_some_iff.mp h
      cases h
      exact .inl ⟨rfl, rfl, vector, outputs_of_finish hvector, rfl⟩
  | file =>
      rw [hfrom] at h
      dsimp only at h
      split at h
      next =>
        split at h
        next =>
          split at h
          next => cases h
          next =>
            obtain ⟨d, _, h⟩ := Option.bind_eq_some_iff.mp h
            obtain ⟨vector, hvector, h⟩ := Option.bind_eq_some_iff.mp h
            cases h
            exact .inr (.inl ⟨rfl, _, vector, _, outputs_of_finish hvector, rfl, rfl⟩)
        next =>
          cases h
          exact .inr (.inr (.inl ⟨rfl, _, rfl, rfl⟩))
      next =>
        cases h
        exact .inr (.inr (.inl ⟨rfl, _, rfl, rfl⟩))
  | cmdLine =>
      rw [hfrom] at h
      dsimp only at h
      split at h
      next hcount =>
        obtain ⟨d, _, h⟩ := Option.bind_eq_some_iff.mp h
        obtain ⟨vector, hvector, h⟩ := Option.bind_eq_some_iff.mp h
        cases h
        exact .inr (.inr (.inr ⟨rfl, rfl, hcount, vector, outputs_of_finish hvector, rfl⟩))
      next => cases h

end GsSDR.BuildPacket
