import GsSDR.BuildPacket.Unpacked
import GsSDR.Lib.Runs

/-!
# Which packet lengths the block can work with

Nothing checks the packet length.  With a header it has to leave room for the
header and the two checksums, or the header is written outside the vector or the
payload gets a negative length.  And the length of the payload has to fit the 16
bits of its field.  The length 0 stays 0, as the default goes to the parameter of
the constructor.

So from 12 to 65547 bytes all goes well in every call, and with no other length
does it in any (`inBuffer_iff`).
-/

namespace GsSDR.BuildPacket

open ByteBuffer

/-- A call of `packet_handler`, with the random numbers that it gets and what is in
the file. -/
def call (crc32 : List UInt8 → UInt32) (s : State) (e : (Nat → Nat) × List UInt8) :
    Option State :=
  (packetHandler crc32 e.1 e.2 s).map Prod.snd

/-- `payload_length - offset`. -/
def State.arraySize (s : State) : Int :=
  (if s.headed then (s.packetLength : Int) - 4 else s.packetLength) - s.offset

/-- The bytes of the packet that a vector holds. -/
def State.packedVector (s : State) (vector : List UInt8) : List UInt8 :=
  match s.dataType with
  | .packed => vector
  | .unpacked => Bits.pack vector

/-- A call writes nothing outside its vectors and reads into no array of negative
size, and the length in the header is that of the payload. -/
structure InBuffer (crc32 : List UInt8 → UInt32) (rand : Nat → Nat) (content : List UInt8)
    (s : State) : Prop where
  inside : ∃ r, packetHandler crc32 rand content s = some r
  array : 0 ≤ s.arraySize
  /-- What is stored in the 16 bits first, for a full payload. -/
  stored : (uint16 ((s.packetLength : Int) - 2 - 2 - 4 - 4) : Int) =
    (s.packetLength : Int) - 2 - 2 - 4 - 4
  /-- What is in them at the end. -/
  published : ∀ r dict vector, packetHandler crc32 rand content s = some r →
    Message.out dict vector ∈ r.1 →
      word (s.packedVector vector) 2 2 = (s.nextPayload rand content).length

variable {crc32 : List UInt8 → UInt32} {rand : Nat → Nat} {content : List UInt8} {s t : State}
  {vector payload : List UInt8}

/-! ## One call -/

theorem Decodes.length_eq (h : Decodes crc32 vector payload) :
    word vector 2 2 = payload.length := by
  have hfits := h.fits
  rw [← h.payload_eq, List.length_take, List.length_drop]
  omega

/-- The bits of a packet of this length make the packet again. -/
theorem withBits_out {dict dict' : Option Meta} {bits : List UInt8}
    (hlength : vector.length < 2 ^ 28)
    (h : Message.withBits (.out dict vector) = some (.out dict' bits)) :
    Bits.pack bits = vector := by
  rw [Message.withBits, PackedToUnpacked.packetHandler_eq hlength] at h
  cases h
  exact Bits.pack_unpack vector

theorem mapM_of_forall {α β : Type} {f : α → Option β} {l : List α}
    (h : ∀ a ∈ l, ∃ b, f a = some b) :
    ∃ bs, l.mapM f = some bs ∧ ∀ b ∈ bs, ∃ a ∈ l, f a = some b := by
  induction l with
  | nil =>
      refine ⟨[], rfl, fun b hb => ?_⟩
      cases hb
  | cons a l ih =>
      obtain ⟨b, hb⟩ := h a List.mem_cons_self
      obtain ⟨bs, hbs, hmem⟩ := ih fun x hx => h x (List.mem_cons_of_mem _ hx)
      refine ⟨b :: bs, ?_, fun c hc => ?_⟩
      · rw [List.mapM_cons, hb, hbs]
        rfl
      · rcases List.mem_cons.mp hc with rfl | hc
        · exact ⟨a, List.mem_cons_self, hb⟩
        · obtain ⟨x, hx, hfx⟩ := hmem c hc
          exact ⟨x, List.mem_cons_of_mem _ hx, hfx⟩

/-- Packets with a header, of any data type. -/
theorem published_length (hheader : s.appendHeader = true) (hsource : s.dataFrom ≠ .cmdLine)
    (h12 : 12 ≤ s.packetLength) (hfit : s.packetLength ≤ 65547) :
    ∃ r, packetHandler crc32 rand content s = some r ∧
      ∀ dict vector, Message.out dict vector ∈ r.1 →
        word (s.packedVector vector) 2 2 = (s.nextPayload rand content).length := by
  obtain ⟨r, hr, hpackets, _⟩ := @packetHandler_packet crc32 (s.as .packed) rand content
    (fun _ => ⟨h12, hfit⟩) hsource rfl
  have hdecodes : ∀ dict vector, Message.out dict vector ∈ r.1 →
      vector.length = s.packetLength ∧ Decodes crc32 vector (s.nextPayload rand content) := by
    intro dict vector hmem
    rw [hpackets dict vector hmem]
    exact @decodes_packet crc32 (s.as .packed) rand content hheader hsource h12 hfit
  cases htype : s.dataType with
  | packed =>
      have hs : s.as .packed = s := by rw [State.as, ← htype]
      rw [hs] at hr
      refine ⟨r, hr, fun dict vector hmem => ?_⟩
      rw [State.packedVector, htype]
      exact (hdecodes dict vector hmem).2.length_eq
  | unpacked =>
      have hs : s.as .unpacked = s := by rw [State.as, ← htype]
      have hbits : ∀ m ∈ r.1, ∃ m', Message.withBits m = some m' := by
        intro m hm
        cases m with
        | stat dict => exact ⟨_, rfl⟩
        | out dict vector =>
            have hlength := (hdecodes dict vector hm).1
            rw [Message.withBits, PackedToUnpacked.packetHandler_eq (by omega)]
            exact ⟨_, rfl⟩
      obtain ⟨ms, hms, hmem⟩ := mapM_of_forall hbits
      refine ⟨(ms, r.2.as .unpacked), ?_, fun dict bits hout => ?_⟩
      · rw [← hs, packetHandler_unpacked (by omega), hr, Option.bind_some, State.publishBits, hms]
        rfl
      · obtain ⟨m, hm, hwith⟩ := hmem _ hout
        cases m with
        | stat dict => cases hwith
        | out dict' vector =>
            obtain ⟨hlength, hvector⟩ := hdecodes dict' vector hm
            rw [State.packedVector, htype]
            dsimp only
            rw [withBits_out (by omega) hwith]
            exact hvector.length_eq

theorem inBuffer_of_length (hheader : s.appendHeader = true) (hsource : s.dataFrom ≠ .cmdLine)
    (h12 : 12 ≤ s.packetLength) (hfit : s.packetLength ≤ 65547) :
    InBuffer crc32 rand content s := by
  have hheaded := headed_of_source hheader hsource
  obtain ⟨r, hr, hpublished⟩ : ∃ r, packetHandler crc32 rand content s = some r ∧
      ∀ dict vector, Message.out dict vector ∈ r.1 →
        word (s.packedVector vector) 2 2 = (s.nextPayload rand content).length :=
    published_length hheader hsource h12 hfit
  refine ⟨⟨r, hr⟩, ?_, ?_, fun r' dict vector hr' hmem => ?_⟩
  · rw [State.arraySize, State.offset, if_pos hheaded, if_pos hheaded]
    omega
  · rw [uint16]
    omega
  · cases hr.symm.trans hr'
    exact hpublished dict vector hmem

theorem InBuffer.length (h : InBuffer crc32 rand content s) (hheaded : s.headed = true) :
    12 ≤ s.packetLength ∧ s.packetLength ≤ 65547 := by
  have harray := h.array
  have hstored := h.stored
  rw [State.arraySize, State.offset, if_pos hheaded, if_pos hheaded] at harray
  rw [uint16] at hstored
  omega

/-! ## Every call -/

/-- A call keeps what the constructor has set, but the length for the command line. -/
theorem call_config {e : (Nat → Nat) × List UInt8} (hsource : s.dataFrom ≠ .cmdLine)
    (h : call crc32 s e = some t) :
    t.appendHeader = s.appendHeader ∧ t.packetLength = s.packetLength ∧
      t.dataFrom = s.dataFrom := by
  obtain ⟨⟨ms, t'⟩, hr, rfl⟩ := Option.map_eq_some_iff.mp h
  rcases packetHandler_cases hr with
    ⟨_, rfl, _⟩ | ⟨_, _, _, _, _, _, rfl⟩ | ⟨_, _, _, rfl⟩ | ⟨hcmd, _⟩
  · exact ⟨rfl, rfl, rfl⟩
  · exact ⟨rfl, rfl, rfl⟩
  · exact ⟨rfl, rfl, rfl⟩
  · exact absurd hcmd hsource

theorem make_config {appendHeader : Bool} {packetLength : Nat} {dataType : DataType}
    {dataFrom : DataFrom} {stat : Option Nat} {opened : Bool} {packetBytes : List UInt8}
    (h : make appendHeader packetLength dataType dataFrom stat opened packetBytes = some s) :
    s.appendHeader = appendHeader ∧ s.packetLength = packetLength ∧ s.dataFrom = dataFrom := by
  cases dataFrom with
  | file =>
      obtain ⟨size, _, rfl⟩ := Option.map_eq_some_iff.mp h
      exact ⟨rfl, rfl, rfl⟩
  | randomGenerator =>
      cases h
      exact ⟨rfl, rfl, rfl⟩
  | cmdLine =>
      cases h
      exact ⟨rfl, rfl, rfl⟩

/-- A block with a header works in its buffers in every call exactly with the lengths
from 12 to 65547. -/
theorem inBuffer_iff (crc32 : List UInt8 → UInt32) {packetLength : Nat} {dataType : DataType}
    {dataFrom : DataFrom} {stat : Option Nat} {opened : Bool} {packetBytes : List UInt8}
    {s : State} (hmake : make true packetLength dataType dataFrom stat opened packetBytes = some s)
    (hsource : dataFrom ≠ .cmdLine) :
    (∀ h t, Transition.Run (call crc32) s h t →
        ∀ rand content, InBuffer crc32 rand content t) ↔
      12 ≤ packetLength ∧ packetLength ≤ 65547 := by
  obtain ⟨hheader, hlength, hfrom⟩ := make_config hmake
  constructor
  · intro hall
    have hin := hall [] s .nil (fun _ => 0) []
    have hheaded : s.headed = true := headed_of_source hheader (by rw [hfrom]; exact hsource)
    rw [← hlength]
    exact hin.length hheaded
  · rintro ⟨h12, hfit⟩ h t run rand content
    -- The configuration is kept from call to call, so each call is as good as the first.
    obtain ⟨hheader', hlength', hfrom'⟩ :=
      run.invariant (P := fun u =>
          u.appendHeader = true ∧ u.packetLength = packetLength ∧ u.dataFrom = dataFrom)
        ⟨hheader, hlength, hfrom⟩ fun {u e v} hu hstep => by
          obtain ⟨hu1, hu2, hu3⟩ := hu
          obtain ⟨hv1, hv2, hv3⟩ := call_config (by rw [hu3]; exact hsource) hstep
          exact ⟨hv1.trans hu1, hv2.trans hu2, hv3.trans hu3⟩
    exact inBuffer_of_length hheader' (by rw [hfrom']; exact hsource) (by omega) (by omega)

/-- With 64 bytes, and with 11, where the payload has a length of -1. -/
theorem inBuffer_random :
    ∃ s64 s11, make true 64 .unpacked .randomGenerator none false [] = some s64 ∧
      make true 11 .unpacked .randomGenerator none false [] = some s11 ∧
      (∀ h t, Transition.Run (call crc32Ieee) s64 h t →
        ∀ rand content, InBuffer crc32Ieee rand content t) ∧
      ¬ ∀ h t, Transition.Run (call crc32Ieee) s11 h t →
        ∀ rand content, InBuffer crc32Ieee rand content t := by
  refine ⟨_, _, rfl, rfl, ?_, fun hall => ?_⟩
  · have hmake : make true 64 .unpacked .randomGenerator none false [] = some _ := rfl
    exact (inBuffer_iff crc32Ieee hmake (by decide)).mpr ⟨by decide, by decide⟩
  · have hmake : make true 11 .unpacked .randomGenerator none false [] = some _ := rfl
    have h11 := ((inBuffer_iff crc32Ieee hmake (by decide)).mp hall).1
    omega

/-- With the length 0 the vector is empty and the header goes outside it. -/
theorem inBuffer_fails_zero :
    ∃ s, make true 0 .packed .randomGenerator none false [] = some s ∧
      s.packetLength = 0 ∧ packetHandler crc32Ieee (fun _ => 0) [] s = none ∧
      ¬ ∀ rand content, InBuffer crc32Ieee rand content s := by
  have hnone : packetHandler crc32Ieee (fun _ => 0) []
      { appendHeader := true, packetLength := 0, dataType := .packed
        dataFrom := .randomGenerator, packetBytes := [], fileSize := 0, fileIncrement := 0
        fileToTransfer := false } = none := rfl
  refine ⟨_, rfl, rfl, hnone, fun hall => ?_⟩
  obtain ⟨r, hr⟩ := (hall (fun _ => 0) []).inside
  rw [hnone] at hr
  cases hr

end GsSDR.BuildPacket
