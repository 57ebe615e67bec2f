import GsSDR.BuildPacket.Frame

/-!
# What the packet builder publishes

A trigger of the block publishes a status, a packet or both.  What they are
depends on where the payload comes from, and is one equation for each source
(`packetHandler_random`, `packetHandler_file`, `packetHandler_ready`).  All
packets with a header decode to the payload put into them, and none is missing
(`published_decodes`).
-/

namespace GsSDR.BuildPacket

open ByteBuffer

variable {crc32 : List UInt8 → UInt32}

/-- The room for the payload. -/
def State.room (s : State) : Nat := s.payloadLength - s.offset

/-- A packed packet that carries `payload`. -/
def State.packet (crc32 : List UInt8 → UInt32) (s : State) (payload : List UInt8) : List UInt8 :=
  if s.headed then frame crc32 s.packetLength payload
  else payload ++ List.replicate (s.packetLength - payload.length) 0

/-- The vector before the payload is put in. -/
def State.blank (crc32 : List UInt8 → UInt32) (s : State) : List UInt8 :=
  if s.headed then
    header crc32 (s.packetLength - 12) ++ List.replicate (s.packetLength - 8) 0
  else List.replicate s.packetLength 0

/-- The packet length leaves room for a header, and the length of the payload
fits its field. -/
def State.Fits (s : State) : Prop :=
  s.headed = true → 12 ≤ s.packetLength ∧ s.packetLength ≤ 65547

variable {s : State} {payload : List UInt8}

theorem headed_of_source (hheader : s.appendHeader = true) (hsource : s.dataFrom ≠ .cmdLine) :
    s.headed = true := by
  simp [State.headed, hheader, hsource]

theorem room_of_headed (h : s.headed = true) : s.room = s.packetLength - 12 := by
  simp only [State.room, State.payloadLength, State.offset, if_pos h]
  omega

theorem room_of_not_headed (h : ¬ s.headed = true) : s.room = s.packetLength := by
  simp only [State.room, State.payloadLength, State.offset, if_neg h, Nat.sub_zero]

theorem pre_blank (hfits : s.Fits) :
    (if s.headed then headerPre crc32 s.packetLength (List.replicate s.packetLength 0)
      else some (List.replicate s.packetLength 0)) = some (s.blank crc32) := by
  rw [State.blank]
  split
  next h => exact headerPre_zeros (hfits h).1 (hfits h).2
  next => rfl

/-- A payload behind a header. -/
theorem finish_headed (h : s.headed = true) (h12 : payload.length + 12 ≤ s.packetLength)
    (hfit : s.packetLength ≤ 65547) (hpacked : s.dataType = .packed) :
    (assign (s.blank crc32) s.offset payload).bind
        (s.finish crc32 (s.packetLength - 12 - payload.length)) =
      some (frame crc32 s.packetLength payload) := by
  have hassign : assign (s.blank crc32) 8 payload =
      some (header crc32 (s.packetLength - 12) ++ payload ++
        List.replicate (s.packetLength - 8 - payload.length) 0) := by
    rw [State.blank, if_pos h, zeros_split (show payload.length ≤ s.packetLength - 8 by omega),
      ← List.append_assoc]
    exact assign_part (length_header _).symm (by simp)
  have hpost : _ = some (frame crc32 s.packetLength payload) := headerPost_frame h12 hfit
  have hload : load (frame crc32 s.packetLength payload) 0 s.packetLength =
      some (frame crc32 s.packetLength payload) := load_all (length_frame h12)
  simp only [State.offset, State.payloadLength, State.finish, if_pos h, hassign,
    Option.bind_eq_bind, Option.bind_some, hpost, outVector, hpacked, hload]

/-- A payload without a header. -/
theorem finish_plain (h : ¬ s.headed = true) (hfit : payload.length ≤ s.packetLength)
    (hpacked : s.dataType = .packed) (extraOffset : Nat) :
    (assign (s.blank crc32) s.offset payload).bind (s.finish crc32 extraOffset) =
      some (payload ++ List.replicate (s.packetLength - payload.length) 0) := by
  have hassign : assign (s.blank crc32) 0 payload =
      some (payload ++ List.replicate (s.packetLength - payload.length) 0) := by
    rw [State.blank, if_neg h, zeros_split hfit]
    exact assign_part (a := []) rfl (by simp)
  have hload : load (payload ++ List.replicate (s.packetLength - payload.length) 0) 0
      s.packetLength = some (payload ++ List.replicate (s.packetLength - payload.length) 0) := by
    apply load_all
    rw [List.length_append, List.length_replicate, Nat.add_sub_cancel' hfit]
  simp only [State.offset, State.finish, if_neg h, hassign, Option.bind_eq_bind,
    Option.bind_some, outVector, hpacked, hload]

/-- A payload that fits the room makes a packet. -/
theorem finish_packet (hfits : s.Fits) (hpacked : s.dataType = .packed)
    (hroom : payload.length ≤ s.room) :
    (assign (s.blank crc32) s.offset payload).bind
        (s.finish crc32 (s.room - payload.length)) = some (s.packet crc32 payload) := by
  rw [State.packet]
  split
  next h =>
    obtain ⟨h12, hfit⟩ := hfits h
    rw [room_of_headed h] at hroom ⊢
    exact finish_headed h (by omega) hfit hpacked
  next h =>
    rw [room_of_not_headed h] at hroom
    exact finish_plain h hroom hpacked _

/-- The payload that the handler puts into its next packet. -/
def State.nextPayload (rand : Nat → Nat) (content : List UInt8) (s : State) : List UInt8 :=
  match s.dataFrom with
  | .randomGenerator => (List.range s.room).map fun k => UInt8.ofNat (rand k % 256)
  | .file => (content.drop s.fileIncrement).take s.room
  | .cmdLine => s.packetBytes

variable {rand : Nat → Nat} {content : List UInt8}

theorem length_nextPayload_le (hsource : s.dataFrom ≠ .cmdLine) :
    (s.nextPayload rand content).length ≤ s.room := by
  cases h : s.dataFrom with
  | randomGenerator => simp [State.nextPayload, h]
  | file =>
      rw [State.nextPayload, h]
      exact List.length_take_le _ _
  | cmdLine => exact absurd h hsource

/-- A random packet. -/
theorem packetHandler_random (hfits : s.Fits) (hpacked : s.dataType = .packed)
    (hsource : s.dataFrom = .randomGenerator) :
    packetHandler crc32 rand content s =
      some ([.out none (s.packet crc32 (s.nextPayload rand content))], s) := by
  have hlen : (s.nextPayload rand content).length = s.room := by
    simp [State.nextPayload, hsource]
  have hfinish : _ = some (s.packet crc32 (s.nextPayload rand content)) :=
    finish_packet hfits hpacked (Nat.le_of_eq hlen)
  obtain ⟨vector, hassign, hvector⟩ := Option.bind_eq_some_iff.mp hfinish
  rw [hlen, Nat.sub_self] at hvector
  rw [State.nextPayload, hsource, State.room] at hassign
  simp only [packetHandler, pre_blank hfits, hsource, Option.bind_eq_bind, Option.bind_some,
    hassign, hvector]

/-- A packet of the file, while there is more of it. -/
theorem packetHandler_file (hfits : s.Fits) (hpacked : s.dataType = .packed)
    (hsource : s.dataFrom = .file) (hmore : s.fileIncrement < s.fileSize)
    (hopen : s.fileToTransfer = true) :
    packetHandler crc32 rand content s =
      some ([.stat ⟨.ok, .inProgress⟩,
          .out (some ⟨.ok, .inProgress⟩) (s.packet crc32 (s.nextPayload rand content))],
        { s with fileIncrement := s.fileIncrement + (s.nextPayload rand content).length }) := by
  have hle : (s.nextPayload rand content).length ≤ s.room :=
    length_nextPayload_le (by rw [hsource]; exact DataFrom.noConfusion)
  have hfinish : _ = some (s.packet crc32 (s.nextPayload rand content)) :=
    finish_packet hfits hpacked hle
  obtain ⟨vector, hassign, hvector⟩ := Option.bind_eq_some_iff.mp hfinish
  have hread : s.nextPayload rand content =
      (content.drop s.fileIncrement).take (s.payloadLength - s.offset) := by
    rw [State.nextPayload, hsource, State.room]
  have hsize : ¬ s.payloadLength < s.offset := by
    by_cases h : s.headed = true
    · have h12 := (hfits h).1
      simp only [State.payloadLength, State.offset, if_pos h]
      omega
    · simp only [State.offset, if_neg h, Nat.not_lt_zero, not_false_eq_true]
  have hcount : s.room - (s.room - (s.nextPayload rand content).length) =
      (s.nextPayload rand content).length := by
    omega
  rw [hread] at hassign hvector hcount ⊢
  rw [State.room] at hvector hcount
  simp only [packetHandler, pre_blank hfits, hsource, Option.bind_eq_bind, Option.bind_some,
    if_pos hmore, if_pos hopen, if_neg hsize, hassign, hvector, hcount]

/-- The transfer is over, or the file is not open. -/
theorem packetHandler_ready (hfits : s.Fits) (hsource : s.dataFrom = .file)
    (hdone : ¬ (s.fileIncrement < s.fileSize ∧ s.fileToTransfer = true)) :
    packetHandler crc32 rand content s = some ([.stat ⟨.ok, .ready⟩], s) := by
  simp only [packetHandler, pre_blank hfits, hsource, Option.bind_eq_bind, Option.bind_some]
  split
  next hmore =>
    rw [if_neg]
    intro hopen
    exact hdone ⟨hmore, hopen⟩
  next => rfl

/-- What the handler publishes, and when. -/
theorem packetHandler_packet (hfits : s.Fits) (hsource : s.dataFrom ≠ .cmdLine)
    (hpacked : s.dataType = .packed) :
    ∃ r, packetHandler crc32 rand content s = some r ∧
      (∀ dict vector, Message.out dict vector ∈ r.1 →
        vector = s.packet crc32 (s.nextPayload rand content)) ∧
      ((s.dataFrom = .file → s.fileIncrement < s.fileSize ∧ s.fileToTransfer = true) →
        ∃ dict vector, Message.out dict vector ∈ r.1) := by
  cases h : s.dataFrom with
  | randomGenerator =>
      refine ⟨_, packetHandler_random hfits hpacked h, ?_, fun _ => ⟨_, _, List.mem_cons_self⟩⟩
      intro dict vector hmem
      cases List.mem_singleton.mp hmem
      rfl
  | file =>
      by_cases hmore : s.fileIncrement < s.fileSize ∧ s.fileToTransfer = true
      · refine ⟨_, packetHandler_file hfits hpacked h hmore.1 hmore.2, ?_,
          fun _ => ⟨_, _, List.mem_cons_of_mem _ List.mem_cons_self⟩⟩
        intro dict vector hmem
        rcases List.mem_cons.mp hmem with hstat | hout
        · cases hstat
        · cases List.mem_singleton.mp hout
          rfl
      · refine ⟨_, packetHandler_ready hfits h hmore, ?_, fun hmore' => absurd (hmore' rfl) hmore⟩
        intro dict vector hmem
        cases List.mem_singleton.mp hmem
  | cmdLine => exact absurd h hsource

/-- A packet with a header decodes to its payload. -/
theorem decodes_packet (hheader : s.appendHeader = true) (hsource : s.dataFrom ≠ .cmdLine)
    (h12 : 12 ≤ s.packetLength) (hfit : s.packetLength ≤ 65547) :
    (s.packet crc32 (s.nextPayload rand content)).length = s.packetLength ∧
      Decodes crc32 (s.packet crc32 (s.nextPayload rand content))
        (s.nextPayload rand content) := by
  have hheaded := headed_of_source hheader hsource
  have hroom : (s.nextPayload rand content).length + 12 ≤ s.packetLength := by
    have hle : (s.nextPayload rand content).length ≤ s.room := length_nextPayload_le hsource
    rw [room_of_headed hheaded] at hle
    omega
  rw [State.packet, if_pos hheaded]
  exact ⟨length_frame hroom, decodes_frame hroom hfit⟩

/-- Every packet with a header that the handler publishes decodes to the payload
that was put into it.  There is one for each trigger with the random source, and for
each with a file while there is more of it. -/
theorem published_decodes (crc32 : List UInt8 → UInt32) (rand : Nat → Nat)
    (content : List UInt8) (s : State) (hheader : s.appendHeader = true)
    (hsource : s.dataFrom ≠ .cmdLine) (hpacked : s.dataType = .packed)
    (h12 : 12 ≤ s.packetLength) (hfit : s.packetLength ≤ 65547) :
    ∃ r, packetHandler crc32 rand content s = some r ∧
      (∀ dict vector, Message.out dict vector ∈ r.1 →
        vector.length = s.packetLength ∧ Decodes crc32 vector (s.nextPayload rand content)) ∧
      ((s.dataFrom = .file → s.fileIncrement < s.fileSize ∧ s.fileToTransfer = true) →
        ∃ dict vector, Message.out dict vector ∈ r.1) := by
  obtain ⟨r, hr, hpackets, hsent⟩ := packetHandler_packet (fun _ => ⟨h12, hfit⟩) hsource hpacked
  refine ⟨r, hr, ?_, hsent⟩
  intro dict vector hmem
  rw [hpackets dict vector hmem]
  exact decodes_packet hheader hsource h12 hfit

/-- The last packet of a file, two bytes short. -/
theorem published_decodes_shortRead :
    ∃ r, packetHandler crc32Ieee (fun _ => 0) [10, 11, 12, 13, 14, 15]
        ⟨true, 16, .packed, .file, [], 6, 4, true⟩ = some r ∧
      ∃ dict vector, Message.out dict vector ∈ r.1 ∧
        vector.length = 16 ∧ Decodes crc32Ieee vector [14, 15] := by
  obtain ⟨r, hr, hdecodes, hsent⟩ := published_decodes crc32Ieee (fun _ => 0)
    [10, 11, 12, 13, 14, 15] ⟨true, 16, .packed, .file, [], 6, 4, true⟩ rfl (by simp) rfl
    (by simp) (by simp)
  obtain ⟨dict, vector, hmem⟩ := hsent fun _ => ⟨by simp, rfl⟩
  exact ⟨r, hr, dict, vector, hmem, hdecodes dict vector hmem⟩

end GsSDR.BuildPacket
