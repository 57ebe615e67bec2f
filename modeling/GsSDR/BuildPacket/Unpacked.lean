import GsSDR.BuildPacket.Published
import GsSDR.PackedToUnpacked

/-!
# Packets as bits

`build_packet_1` publishes the bits of a packet itself when its data type is
unpacked.  They are those that `packed_to_unpacked` publishes for the packet, and
nothing else depends on the data type (`packetHandler_unpacked`).  The dictionaries
are the same only for packets that do not come from a file, since
`packed_to_unpacked` puts an empty one in front of the bits
(`unpacking_agrees`).
-/

namespace GsSDR.BuildPacket

open ByteBuffer

/-- The message with the bits of its vector. -/
def Message.withBits : Message → Option Message
  | .stat dict => some (.stat dict)
  | .out dict vector => (PackedToUnpacked.packetHandler vector).map (.out dict)

/-- What comes out when `packed_to_unpacked` follows the block.  A status goes to
another port. -/
def Message.unpack : Message → Option Message
  | .stat dict => some (.stat dict)
  | .out _ vector => (PackedToUnpacked.packetHandler vector).map (.out none)

variable {crc32 : List UInt8 → UInt32} {rand : Nat → Nat} {content : List UInt8} {s : State}

/-! ## The two data types -/

/-- The state, but for its data type. -/
def State.as (s : State) (dataType : DataType) : State := { s with dataType }

theorem outVector_unpacked {packetLength : Nat} (hint : packetLength < 2 ^ 31)
    (dataPacket : List UInt8) :
    outVector .unpacked packetLength dataPacket =
      (outVector .packed packetLength dataPacket).bind PackedToUnpacked.packetHandler := by
  simp only [outVector, load, Nat.zero_add, List.drop_zero, mapM_bitAt]
  by_cases hin : packetLength ≤ dataPacket.length
  · have hlength : (dataPacket.take packetLength).length = packetLength :=
      List.length_take_of_le hin
    rw [if_pos hin, if_pos hin, Option.bind_some]
    by_cases hcount : packetLength * 8 < 2 ^ 31
    · rw [if_pos hcount, PackedToUnpacked.packetHandler_eq (by rw [hlength]; omega)]
    · rw [if_neg hcount, PackedToUnpacked.packetHandler_none (by rw [hlength]; omega)
        (by rw [hlength]; exact hint)]
  · rw [if_neg hin, if_neg hin, ite_self]
    rfl

/-- Two calls go on in the same way behind the same first part. -/
theorem bind_through {α β γ : Type} {x : Option α} {f : α → Option γ} {g : α → Option β}
    {k : β → Option γ} (h : ∀ a, f a = (g a).bind k) : x.bind f = (x.bind g).bind k := by
  rw [Option.bind_assoc]
  exact Option.bind_congr fun a _ => h a

theorem finish_unpacked (hint : s.packetLength < 2 ^ 31) (extraOffset : Nat)
    (dataPacket : List UInt8) :
    (s.as .unpacked).finish crc32 extraOffset dataPacket =
      ((s.as .packed).finish crc32 extraOffset dataPacket).bind
        PackedToUnpacked.packetHandler :=
  bind_through fun d => outVector_unpacked hint d

/-- What follows a packed packet. -/
def State.publishBits (r : List Message × State) : Option (List Message × State) :=
  (r.1.mapM Message.withBits).map fun ms => (ms, r.2.as .unpacked)

/-- A status has no bits. -/
theorem mapM_stat (dicts : List Meta) :
    (dicts.map Message.stat).mapM Message.withBits = some (dicts.map Message.stat) := by
  induction dicts with
  | nil => rfl
  | cons dict dicts ih =>
      rw [List.map_cons, List.mapM_cons, ih]
      rfl

/-- A packet behind the statuses of the call. -/
theorem publishBits_out (dicts : List Meta) (dict : Option Meta) (vector : List UInt8) (t : State) :
    State.publishBits (dicts.map .stat ++ [.out dict vector], t) =
      (PackedToUnpacked.packetHandler vector).bind fun bits =>
        some (dicts.map .stat ++ [.out dict bits], t.as .unpacked) := by
  rw [State.publishBits, List.mapM_append, mapM_stat, List.mapM_cons, Message.withBits]
  cases PackedToUnpacked.packetHandler vector with
  | none => rfl
  | some bits => rfl

/-- The end of a call that publishes a packet. -/
theorem finish_publish {t : State} (hint : t.packetLength < 2 ^ 31) (extraOffset : Nat)
    (dataPacket : List UInt8) (dicts : List Meta) (dict : Option Meta) (u : State) :
    (((t.as .unpacked).finish crc32 extraOffset dataPacket).bind fun vector =>
        some (dicts.map Message.stat ++ [.out dict vector], u.as .unpacked)) =
      (((t.as .packed).finish crc32 extraOffset dataPacket).bind fun vector =>
        some (dicts.map Message.stat ++ [.out dict vector], u.as .packed)).bind
          State.publishBits := by
  rw [finish_unpacked hint, Option.bind_assoc, Option.bind_assoc]
  refine Option.bind_congr fun vector _ => ?_
  rw [Option.bind_some, publishBits_out]
  rfl

theorem unpacked_random (hint : s.packetLength < 2 ^ 31) (h : s.dataFrom = .randomGenerator) :
    packetHandler crc32 rand content (s.as .unpacked) =
      (packetHandler crc32 rand content (s.as .packed)).bind State.publishBits := by
  have hsource : ∀ dataType, (s.as dataType).dataFrom = .randomGenerator := fun _ => h
  unfold packetHandler
  rw [hsource, hsource]
  refine bind_through fun d => ?_
  exact bind_through fun d => finish_publish hint 0 d [] none s

theorem unpacked_file (hint : s.packetLength < 2 ^ 31) (h : s.dataFrom = .file) :
    packetHandler crc32 rand content (s.as .unpacked) =
      (packetHandler crc32 rand content (s.as .packed)).bind State.publishBits := by
  have hsource : ∀ dataType, (s.as dataType).dataFrom = .file := fun _ => h
  unfold packetHandler
  rw [hsource, hsource]
  refine bind_through fun d => ?_
  show ite (s.fileIncrement < s.fileSize) _ _ =
    Option.bind (ite (s.fileIncrement < s.fileSize) _ _) _
  split
  next hmore =>
    show ite (s.fileToTransfer = true) _ _ = Option.bind (ite (s.fileToTransfer = true) _ _) _
    split
    next hopen =>
      show ite (s.payloadLength < s.offset) _ _ =
        Option.bind (ite (s.payloadLength < s.offset) _ _) _
      split
      next => rfl
      next hroom =>
        let room := s.payloadLength - s.offset
        let extraOffset := room - ((content.drop s.fileIncrement).take room).length
        let u : State :=
          { s with dataFrom := .file, fileIncrement := s.fileIncrement + (room - extraOffset) }
        let dict : Meta := ⟨.ok, .inProgress⟩
        exact bind_through fun d => finish_publish hint extraOffset d [dict] (some dict) u
    next => rfl
  next => rfl

theorem unpacked_cmdLine (h : s.dataFrom = .cmdLine) :
    packetHandler crc32 rand content (s.as .unpacked) =
      (packetHandler crc32 rand content (s.as .packed)).bind State.publishBits := by
  have hsource : ∀ dataType, (s.as dataType).dataFrom = .cmdLine := fun _ => h
  unfold packetHandler
  rw [hsource, hsource]
  refine bind_through fun d => ?_
  show ite (s.packetBytes.length < 2 ^ 31) _ _ =
    Option.bind (ite (s.packetBytes.length < 2 ^ 31) _ _) _
  split
  next hcount =>
    -- the handler goes on with the new packet length
    let t : State := { s with packetLength := s.packetBytes.length, dataFrom := .cmdLine }
    have ht : t.packetLength < 2 ^ 31 := hcount
    exact bind_through fun d => finish_publish ht 0 d [] none t
  next => rfl

/-- With the same state but for the data type, the handler does the same but for
the bits. -/
theorem packetHandler_unpacked (hint : s.packetLength < 2 ^ 31) :
    packetHandler crc32 rand content (s.as .unpacked) =
      (packetHandler crc32 rand content (s.as .packed)).bind State.publishBits := by
  cases h : s.dataFrom with
  | randomGenerator => exact unpacked_random hint h
  | file => exact unpacked_file hint h
  | cmdLine => exact unpacked_cmdLine h

/-! ## Results -/

/-- `packed_to_unpacked` publishes eight bits for each byte of a packet, and they
can be packed again. -/
def Lossless (data : List UInt8) : Prop :=
  ∃ bits, PackedToUnpacked.packetHandler data = some bits ∧ bits.length = 8 * data.length ∧
    (∀ b ∈ bits, b = 0 ∨ b = 1) ∧ Bits.pack bits = data

/-- The block publishes for the unpacked data type what `packed_to_unpacked`
publishes behind it for the packed one, and goes on in the same state. -/
def Agrees (crc32 : List UInt8 → UInt32) (rand : Nat → Nat) (content : List UInt8)
    (s : State) : Prop :=
  packetHandler crc32 rand content (s.as .unpacked) =
    (packetHandler crc32 rand content (s.as .packed)).bind fun r =>
      (r.1.mapM Message.unpack).map fun ms => (ms, r.2.as .unpacked)

theorem lossless_of_length {data : List UInt8} (h : data.length < 2 ^ 28) : Lossless data :=
  ⟨Bits.unpack data, PackedToUnpacked.packetHandler_eq h, Bits.length_unpack data,
    fun _ => Bits.mem_unpack, Bits.pack_unpack data⟩

/-- The dictionary of a packet is empty unless it comes from a file. -/
theorem packetHandler_dict {r : List Message × State} (hsource : s.dataFrom ≠ .file)
    (hr : packetHandler crc32 rand content s = some r) : ∃ vector, r.1 = [.out none vector] := by
  obtain ⟨ms, t⟩ := r
  rcases packetHandler_cases hr with
    ⟨_, _, vector, _, hms⟩ | ⟨hfile, _⟩ | ⟨hfile, _⟩ | ⟨_, _, _, vector, _, hms⟩
  · exact ⟨vector, hms⟩
  · exact absurd hfile hsource
  · exact absurd hfile hsource
  · exact ⟨vector, hms⟩

/-- Bytes of which an `int` can count the bits are unpacked without loss, and in
every state the two data types differ in the bits only.  So `packed_to_unpacked`
publishes the same as the block, but for the dictionary of a file transfer, which
it replaces by an empty one. -/
theorem unpacking_agrees :
    (∀ data : List UInt8, data.length < 2 ^ 28 → Lossless data) ∧
      ∀ (crc32 : List UInt8 → UInt32) (rand : Nat → Nat) (content : List UInt8) (s : State),
        s.packetLength < 2 ^ 31 →
          packetHandler crc32 rand content (s.as .unpacked) =
              (packetHandler crc32 rand content (s.as .packed)).bind State.publishBits ∧
            (s.dataFrom ≠ .file → Agrees crc32 rand content s) := by
  refine ⟨fun data => lossless_of_length, fun crc32 rand content s hint => ?_⟩
  refine ⟨packetHandler_unpacked hint, fun hsource => ?_⟩
  refine (packetHandler_unpacked hint).trans (Option.bind_congr fun r hr => ?_)
  obtain ⟨vector, hvector⟩ := packetHandler_dict (s := s.as .packed) hsource hr
  have hsame : Message.withBits (.out none vector) = Message.unpack (.out none vector) := by
    rw [Message.withBits, Message.unpack]
  rw [State.publishBits, hvector, List.mapM_cons, List.mapM_cons, hsame, List.mapM_nil,
    List.mapM_nil]

/-- A byte, and a random packet of two bytes. -/
theorem unpacking_agrees_twoBytes :
    Lossless [0xA5] ∧
      Agrees crc32Ieee (fun k => k) [] ⟨false, 2, .packed, .randomGenerator, [], 0, 0, false⟩ :=
  ⟨unpacking_agrees.1 [0xA5] (by decide),
    (unpacking_agrees.2 crc32Ieee (fun k => k) []
      ⟨false, 2, .packed, .randomGenerator, [], 0, 0, false⟩ (by decide)).2 (by decide)⟩

/-- The dictionary of the byte of a file is lost.  Of 2^28 bytes no bits are published,
as their number is no `int`. -/
theorem unpacking_agrees_fails :
    ¬ Agrees crc32Ieee (fun _ => 0) [10] ⟨false, 1, .packed, .file, [], 1, 0, true⟩ ∧
      ¬ Lossless (List.replicate (2 ^ 28) 0) := by
  constructor
  · intro hfile
    have hbits : PackedToUnpacked.packetHandler [10] = some (Bits.unpack [10]) :=
      PackedToUnpacked.packetHandler_eq (by decide)
    have hpacked : packetHandler crc32Ieee (fun _ => 0) [10]
        ⟨false, 1, .packed, .file, [], 1, 0, true⟩ =
        some ([.stat ⟨.ok, .inProgress⟩, .out (some ⟨.ok, .inProgress⟩) [10]],
          ⟨false, 1, .packed, .file, [], 1, 1, true⟩) := rfl
    have hunpacked := (packetHandler_unpacked (by decide)).symm.trans hfile
    have hbehind := publishBits_out [⟨.ok, .inProgress⟩] (some ⟨.ok, .inProgress⟩) [10]
      ⟨false, 1, .packed, .file, [], 1, 1, true⟩
    simp only [List.map_cons, List.map_nil, List.singleton_append] at hbehind
    simp [State.as, hpacked, hbehind, Message.unpack, hbits] at hunpacked
  · rintro ⟨bits, hbits, _⟩
    have hlength : (List.replicate (2 ^ 28) (0 : UInt8)).length = 2 ^ 28 := List.length_replicate
    rw [PackedToUnpacked.packetHandler_none (by rw [hlength]) (by rw [hlength]; omega)] at hbits
    cases hbits

end GsSDR.BuildPacket
