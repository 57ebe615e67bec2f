import GsSDR.BuildPacket.Published
import GsSDR.Lib.Chunks

/-!
# A file transfer

The packets of a file transfer carry the chunks of the file, one after the
other (`triggers_chunks`).  After the last one the block only tells that it is
ready (`triggers_ready`).  So the packets together are the file (`transfer`).
-/

namespace GsSDR.BuildPacket

open ByteBuffer Chunks

section

variable (crc32 : List UInt8 → UInt32) (content : List UInt8)

/-- Trigger the block once for each sequence of random numbers, and collect what
it publishes. -/
def triggers : List (Nat → Nat) → State → Option (List Message × State)
  | [], s => some ([], s)
  | rand :: rands, s =>
      match packetHandler crc32 rand content s with
      | none => none
      | some r => (triggers rands r.2).map fun r' => (r.1 ++ r'.1, r'.2)

end

/-- A packet of a transfer, behind its status. -/
def inProgress (vector : List UInt8) : List Message :=
  [.stat ⟨.ok, .inProgress⟩, .out (some ⟨.ok, .inProgress⟩) vector]

/-- The payload of a packet with a header, by the length in it. -/
def payloadField (vector : List UInt8) : List UInt8 := (vector.drop 8).take (word vector 2 2)

variable {crc32 : List UInt8 → UInt32} {content : List UInt8} {s : State}

/-- The state in which `i` chunks of the file have been sent. -/
def State.afterChunks (content : List UInt8) (s : State) (i : Nat) : State :=
  { s with fileIncrement := min (i * s.room) content.length }

/-- A trigger in the middle of a transfer sends the next chunk. -/
theorem packetHandler_chunk (hfits : s.Fits) (hpacked : s.dataType = .packed)
    (hsource : s.dataFrom = .file) (hopen : s.fileToTransfer = true)
    (hsize : s.fileSize = content.length) (hroom : 0 < s.room) (rand : Nat → Nat) {i : Nat}
    (hi : i < chunkCount s.room content) :
    packetHandler crc32 rand content (s.afterChunks content i) =
      some (inProgress (s.packet crc32 (chunk s.room content i)),
        s.afterChunks content (i + 1)) := by
  have hstart : i * s.room < content.length := (lt_chunkCount_iff hroom).mp hi
  have hmin : min (i * s.room) content.length = i * s.room :=
    Nat.min_eq_left (Nat.le_of_lt hstart)
  have hmore : (s.afterChunks content i).fileIncrement < (s.afterChunks content i).fileSize := by
    show min (i * s.room) content.length < s.fileSize
    rw [hmin, hsize]
    exact hstart
  have hpayload : (s.afterChunks content i).nextPayload rand content =
      chunk s.room content i := by
    have hsource' : (s.afterChunks content i).dataFrom = .file := hsource
    rw [State.nextPayload, hsource']
    show (content.drop (min (i * s.room) content.length)).take s.room = _
    rw [hmin, chunk]
  have hstep : packetHandler crc32 rand content (s.afterChunks content i) = _ :=
    packetHandler_file hfits hpacked hsource hmore hopen
  have hnext : (s.afterChunks content i).fileIncrement + (chunk s.room content i).length =
      min ((i + 1) * s.room) content.length := min_add_length_chunk s.room content i
  rw [hstep, hpayload, hnext]
  rfl

/-- Triggers send the chunks from there on. -/
theorem triggers_chunks (hfits : s.Fits) (hpacked : s.dataType = .packed)
    (hsource : s.dataFrom = .file) (hopen : s.fileToTransfer = true)
    (hsize : s.fileSize = content.length) (hroom : 0 < s.room) (rands : List (Nat → Nat)) :
    ∀ i, i + rands.length ≤ chunkCount s.room content →
      triggers crc32 content rands (s.afterChunks content i) =
        some
          (((List.range' i rands.length).map fun j =>
              s.packet crc32 (chunk s.room content j)).flatMap inProgress,
            s.afterChunks content (i + rands.length)) := by
  induction rands with
  | nil =>
      intro i _
      rfl
  | cons rand rands ih =>
      intro i hi
      rw [List.length_cons] at hi
      have hlen : i + (rands.length + 1) = i + 1 + rands.length := by omega
      rw [triggers, packetHandler_chunk hfits hpacked hsource hopen hsize hroom rand (by omega)]
      simp only [ih (i + 1) (by omega), List.length_cons, List.range'_succ, List.map_cons,
        List.flatMap_cons, hlen, Option.map_some]

/-- After a transfer, triggers change nothing. -/
theorem triggers_ready (hfits : s.Fits) (hsource : s.dataFrom = .file)
    (hdone : s.fileSize ≤ s.fileIncrement) (rands : List (Nat → Nat)) :
    triggers crc32 content rands s =
      some (rands.map fun _ => .stat ⟨.ok, .ready⟩, s) := by
  induction rands with
  | nil => rfl
  | cons rand rands ih =>
      have hover : ¬ (s.fileIncrement < s.fileSize ∧ s.fileToTransfer = true) := by
        intro h
        exact Nat.not_lt.mpr hdone h.1
      rw [triggers, packetHandler_ready hfits hsource hover]
      simp only [ih, Option.map_some, List.map_cons, List.singleton_append]

/-- The payloads of packets with a header. -/
theorem payloadField_packet (hheaded : s.headed = true) (hfits : s.Fits) {payload : List UInt8}
    (hroom : payload.length ≤ s.room) : payloadField (s.packet crc32 payload) = payload := by
  obtain ⟨h12, hfit⟩ := hfits hheaded
  rw [room_of_headed hheaded] at hroom
  rw [State.packet, if_pos hheaded]
  exact (decodes_frame (by omega) hfit).payload_eq

/-- The packets of a transfer. -/
def State.packets (crc32 : List UInt8 → UInt32) (content : List UInt8) (s : State) :
    List (List UInt8) :=
  (List.range (chunkCount s.room content)).map fun i => s.packet crc32 (chunk s.room content i)

/-- A whole transfer. -/
theorem triggers_packets (hfits : s.Fits) (hpacked : s.dataType = .packed)
    (hsource : s.dataFrom = .file) (hopen : s.fileToTransfer = true)
    (hsize : s.fileSize = content.length) (hstart : s.fileIncrement = 0) (hroom : 0 < s.room)
    {rands : List (Nat → Nat)} (hrands : rands.length = (s.packets crc32 content).length) :
    triggers crc32 content rands s =
      some ((s.packets crc32 content).flatMap inProgress,
        { s with fileIncrement := content.length }) := by
  rw [State.packets, List.length_map, List.length_range] at hrands
  have hstate : s.afterChunks content 0 = s := by
    rw [State.afterChunks, Nat.zero_mul, Nat.zero_min, ← hstart]
  have hend : s.afterChunks content (chunkCount s.room content) =
      { s with fileIncrement := content.length } := by
    rw [State.afterChunks, Nat.min_eq_right (length_le_chunkCount hroom)]
  have hrun : triggers crc32 content rands (s.afterChunks content 0) = _ :=
    triggers_chunks hfits hpacked hsource hopen hsize hroom rands 0 (by rw [hrands, Nat.zero_add])
  rw [hstate, Nat.zero_add, hrands, hend] at hrun
  rw [hrun, State.packets, List.range_eq_range']

/-- The payload fields are the file. -/
theorem flatten_payloadField (hheaded : s.headed = true) (hfits : s.Fits) (hroom : 0 < s.room) :
    ((s.packets crc32 content).map payloadField).flatten = content := by
  have hmap : (s.packets crc32 content).map payloadField =
      (List.range (chunkCount s.room content)).map (chunk s.room content) := by
    rw [State.packets, List.map_map]
    apply List.map_congr_left
    intro i _
    exact payloadField_packet hheaded hfits (length_chunk_le _ _ _)
  rw [hmap, flatten_chunks hroom]

/-- Packets without a header are the file, filled up. -/
theorem flatten_packets (hheaded : s.headed = false) (hroom : 0 < s.room) :
    ∃ k < s.packetLength,
      (s.packets crc32 content).flatten = content ++ List.replicate k 0 := by
  have hnot : ¬ s.headed = true := by
    rw [hheaded]
    exact Bool.false_ne_true
  have hpackets : s.packets crc32 content =
      (List.range (chunkCount s.room content)).map fun i =>
        filled 0 s.room (chunk s.room content i) := by
    rw [State.packets]
    apply List.map_congr_left
    intro i _
    rw [State.packet, if_neg hnot, filled, room_of_not_headed hnot]
  obtain ⟨k, hk, hflatten⟩ := flatten_filled (0 : UInt8) (l := content) hroom
  rw [room_of_not_headed hnot] at hk
  exact ⟨k, hk, by rw [hpackets, hflatten]⟩

/-- A file of any size is transferred by as many packets as it has chunks, each
behind a status, and all later triggers only tell that the transfer is ready.
The packets together are the file, by their length fields or, without a header,
up to the zeros that fill the last one. -/
theorem transfer (crc32 : List UInt8 → UInt32) (content packetBytes : List UInt8)
    (appendHeader : Bool) (packetLength : Nat)
    (hlength : if appendHeader then 13 ≤ packetLength ∧ packetLength ≤ 65547
      else 1 ≤ packetLength) :
    ∃ (s t : State) (vectors : List (List UInt8)),
      make appendHeader packetLength .packed .file (some content.length) true packetBytes =
        some s ∧
      vectors.length =
        chunkCount (if appendHeader then packetLength - 12 else packetLength) content ∧
      (∀ rands, rands.length = vectors.length →
        triggers crc32 content rands s = some (vectors.flatMap inProgress, t)) ∧
      (∀ rands, triggers crc32 content rands t =
        some (rands.map fun _ => .stat ⟨.ok, .ready⟩, t)) ∧
      (appendHeader = true → (vectors.map payloadField).flatten = content) ∧
      (appendHeader = false → ∃ k < packetLength,
        vectors.flatten = content ++ List.replicate k 0) := by
  let s : State :=
    ⟨appendHeader, packetLength, .packed, .file, packetBytes, content.length, 0, true⟩
  have hheaded : s.headed = appendHeader := Bool.and_true appendHeader
  have hfits : s.Fits := by
    intro h
    rw [← hheaded, if_pos h] at hlength
    exact ⟨Nat.le_of_succ_le hlength.1, hlength.2⟩
  have hroom : s.room = (if appendHeader then packetLength - 12 else packetLength) := by
    cases happend : appendHeader with
    | false => exact room_of_not_headed (by rw [hheaded, happend]; exact Bool.false_ne_true)
    | true => exact room_of_headed (by rw [hheaded, happend])
  have hpos : 0 < s.room := by
    rw [hroom]
    split at hlength
    next h =>
      rw [if_pos h]
      omega
    next h =>
      rw [if_neg h]
      exact hlength
  refine ⟨s, { s with fileIncrement := content.length }, s.packets crc32 content, rfl, ?_, ?_, ?_,
    ?_, ?_⟩
  · rw [State.packets, List.length_map, List.length_range, hroom]
  · intro rands hrands
    exact triggers_packets hfits rfl rfl rfl rfl rfl hpos hrands
  · intro rands
    exact triggers_ready (s := { s with fileIncrement := content.length }) hfits rfl
      (Nat.le_refl _) rands
  · intro h
    exact flatten_payloadField (by rw [hheaded, h]) hfits hpos
  · intro h
    exact flatten_packets (by rw [hheaded, h]) hpos

/-- Five bytes in packets with room for four. -/
theorem transfer_shortEnd :
    ∃ (s t : State) (vectors : List (List UInt8)),
      make true 16 .packed .file (some 5) true [] = some s ∧
      vectors.length = chunkCount 4 [10, 11, 12, 13, (14 : UInt8)] ∧
      (∀ rands, rands.length = vectors.length →
        triggers crc32Ieee [10, 11, 12, 13, 14] rands s =
          some (vectors.flatMap inProgress, t)) ∧
      (∀ rands, triggers crc32Ieee [10, 11, 12, 13, 14] rands t =
        some (rands.map fun _ => .stat ⟨.ok, .ready⟩, t)) ∧
      (true = true → (vectors.map payloadField).flatten = [10, 11, 12, 13, 14]) ∧
      (true = false → ∃ k < 16, vectors.flatten = [10, 11, 12, 13, 14] ++ List.replicate k 0) :=
  transfer crc32Ieee [10, 11, 12, 13, 14] [] true 16 (by simp)

end GsSDR.BuildPacket
