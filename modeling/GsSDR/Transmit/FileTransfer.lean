import GsSDR.BuildPacket.Unpacked
import GsSDR.Transmit.Reception

/-!
# A file on the air

The builder sends a file as the bits of packets with a header, one packet for a
strobe (`triggers_file`).  A receiver of the stream demodulates the bursts, packs the
bits and takes the payloads out by their length fields.  At any time this gives a
front of the file, and the file when as many bursts are finished as it has chunks
(`file_received`).
-/

namespace GsSDR.Transmit

open Afsk Tones Bursts BuildPacket Chunks

variable {crc32 : List UInt8 → UInt32} {content : List UInt8} {s : BuildPacket.State}

/-! ## The builder -/

/-- The message for a packet of the transfer. -/
def chunkMsg (crc32 : List UInt8 → UInt32) (content : List UInt8) (s : BuildPacket.State)
    (j : Nat) : Msg Dict :=
  ⟨.packet (some ⟨.ok, .inProgress⟩), Bits.unpack (s.packet crc32 (chunk s.room content j))⟩

theorem length_packet (hheaded : s.headed = true) (hfits : s.Fits) {payload : List UInt8}
    (hroom : payload.length ≤ s.room) : (s.packet crc32 payload).length = s.packetLength := by
  obtain ⟨h12, _⟩ := hfits hheaded
  rw [room_of_headed hheaded] at hroom
  rw [State.packet, if_pos hheaded, length_frame (by omega)]

/-- A strobe before the end of the file publishes the bits of the next packet. -/
theorem packetHandler_bits (hheaded : s.headed = true) (hfits : s.Fits)
    (hpacked : s.dataType = .packed) (hsource : s.dataFrom = .file)
    (hopen : s.fileToTransfer = true) (hsize : s.fileSize = content.length) (hroom : 0 < s.room)
    (rand : Nat → Nat) {i : Nat} (hi : i < chunkCount s.room content) :
    ∃ ms, packetHandler crc32 rand content ((s.afterChunks content i).as .unpacked) =
        some (ms, (s.afterChunks content (i + 1)).as .unpacked) ∧
      ms.filterMap packetMsg = [chunkMsg crc32 content s i] := by
  have hfit := (hfits hheaded).2
  have hint : (s.afterChunks content i).packetLength < 2 ^ 31 :=
    Nat.lt_of_le_of_lt hfit (by decide)
  have hsame : (s.afterChunks content i).as .packed = s.afterChunks content i := by
    rw [BuildPacket.State.as, BuildPacket.State.afterChunks, ← hpacked]
  have hbits : PackedToUnpacked.packetHandler (s.packet crc32 (chunk s.room content i)) =
      some (Bits.unpack (s.packet crc32 (chunk s.room content i))) := by
    refine PackedToUnpacked.packetHandler_eq ?_
    rw [length_packet hheaded hfits (length_chunk_le _ _ _)]
    exact Nat.lt_of_le_of_lt hfit (by decide)
  have hpublish := publishBits_out [⟨.ok, .inProgress⟩] (some ⟨.ok, .inProgress⟩)
    (s.packet crc32 (chunk s.room content i)) (s.afterChunks content (i + 1))
  rw [hbits, Option.bind_some] at hpublish
  refine ⟨[.stat ⟨.ok, .inProgress⟩, .out (some ⟨.ok, .inProgress⟩)
    (Bits.unpack (s.packet crc32 (chunk s.room content i)))], ?_, rfl⟩
  rw [packetHandler_unpacked hint, hsame,
    packetHandler_chunk hfits hpacked hsource hopen hsize hroom rand hi, Option.bind_some]
  exact hpublish

/-- What the builder has published after any number of strobes. -/
theorem triggers_file (hheaded : s.headed = true) (hfits : s.Fits)
    (hpacked : s.dataType = .packed) (hsource : s.dataFrom = .file)
    (hopen : s.fileToTransfer = true) (hsize : s.fileSize = content.length) (hroom : 0 < s.room)
    (rands : List (Nat → Nat)) :
    ∃ ms, triggers crc32 content rands ((s.afterChunks content 0).as .unpacked) =
        some (ms, (s.afterChunks content rands.length).as .unpacked) ∧
      ms.filterMap packetMsg =
        (List.range (min rands.length (chunkCount s.room content))).map
          (chunkMsg crc32 content s) := by
  induction rands using List.reverseRecOn with
  | nil => exact ⟨[], rfl, by rw [List.length_nil, Nat.zero_min]; rfl⟩
  | append_singleton rands rand ih =>
      obtain ⟨ms, hms, hpackets⟩ := ih
      rw [List.length_append, List.length_singleton]
      rcases Nat.lt_or_ge rands.length (chunkCount s.room content) with hmore | hdone
      · obtain ⟨ms', hms', hpacket⟩ :=
          packetHandler_bits hheaded hfits hpacked hsource hopen hsize hroom rand hmore
        refine ⟨ms ++ ms', triggers_concat hms hms', ?_⟩
        rw [List.filterMap_append, hpackets, hpacket, Nat.min_eq_left (Nat.le_of_lt hmore),
          Nat.min_eq_left hmore, List.range_succ, List.map_append, List.map_singleton]
      · -- The file has been sent.
        have hend : ∀ n, chunkCount s.room content ≤ n →
            s.afterChunks content n = { s with fileIncrement := content.length } := by
          intro n hn
          rw [BuildPacket.State.afterChunks, Nat.min_eq_right]
          exact Nat.le_trans (length_le_chunkCount hroom) (Nat.mul_le_mul_right _ hn)
        have hover : ¬ (content.length < s.fileSize ∧ s.fileToTransfer = true) := by
          intro h
          rw [hsize] at h
          exact Nat.lt_irrefl _ h.1
        have hready : packetHandler crc32 rand content
            ((s.afterChunks content rands.length).as .unpacked) =
            some ([.stat ⟨.ok, .ready⟩], (s.afterChunks content rands.length).as .unpacked) := by
          rw [hend _ hdone]
          exact packetHandler_ready hfits hsource hover
        refine ⟨ms ++ [.stat ⟨.ok, .ready⟩], triggers_concat hms ?_, ?_⟩
        · rw [hend _ (Nat.le_succ_of_le hdone), ← hend _ hdone]
          exact hready
        · rw [List.filterMap_append, hpackets, Nat.min_eq_right hdone,
            Nat.min_eq_right (Nat.le_succ_of_le hdone)]
          exact List.append_nil _

/-! ## The receiver -/

/-- What a receiver takes from the bits of the packets. -/
def fileOf (bursts : List (List UInt8)) : List UInt8 :=
  (bursts.map fun bits => payloadField (Bits.pack bits)).flatten

/-- The bits of the first packets are a front of the file. -/
theorem fileOf_chunks (hheaded : s.headed = true) (hfits : s.Fits) (n : Nat) :
    fileOf (((List.range n).map (chunkMsg crc32 content s)).map fun msg => msg.data.map heard) =
      content.take (n * s.room) := by
  have hchunk : ∀ j, payloadField (Bits.pack ((chunkMsg crc32 content s j).data.map heard)) =
      chunk s.room content j := by
    intro j
    rw [chunkMsg, map_heard fun _ => Bits.mem_unpack, Bits.pack_unpack]
    exact payloadField_packet hheaded hfits (length_chunk_le _ _ _)
  rw [fileOf, List.map_map, List.map_map, ← flatten_take]
  congr 1
  exact List.map_congr_left fun j _ => hchunk j

/-- In every order of events, what is heard of a file while there are no telecommands
is a front of it, and the file when as many bursts are finished as it has chunks. -/
theorem file_received {ε : ℝ} {xs : List ℝ} {g : Flowgraph ℝ ℝ} {builder : BuildPacket.State}
    {connected : Bool} {packetLength : Nat} {packetBytes : List UInt8}
    {h : List (Transmit.State ℝ ℝ × Event)} {t : Transmit.State ℝ ℝ}
    (hlength : 13 ≤ packetLength ∧ packetLength ≤ 65547)
    (hmake : make true packetLength .unpacked .file (some g.content.length) true packetBytes =
      some builder)
    (run : Run g builder connected h t) (hfl : g.fl = realFloats)
    (htag : g.modulator.streamTag.length ≠ 0) (res : g.modulator.modem.Resolved ε)
    (hnear : Near ε xs t.modulator.stream) (hno : t.source.published = []) :
    ∃ k, t.modulator.finished ≤ k ∧
      (hear ε g.modulator.modem t.modulator.tags xs).length = k ∧
      fileOf (hear ε g.modulator.modem t.modulator.tags xs) =
        g.content.take (k * (packetLength - 12)) ∧
      (chunkCount (packetLength - 12) g.content ≤ t.modulator.finished →
        fileOf (hear ε g.modulator.modem t.modulator.tags xs) = g.content) := by
  let s : BuildPacket.State :=
    ⟨true, packetLength, .packed, .file, packetBytes, g.content.length, 0, true⟩
  have hheaded : s.headed = true := rfl
  have hfits : s.Fits := fun _ => ⟨Nat.le_of_succ_le hlength.1, hlength.2⟩
  have hroom : s.room = packetLength - 12 := room_of_headed hheaded
  have hbuilder : builder = (s.afterChunks g.content 0).as .unpacked := by
    rw [BuildPacket.State.afterChunks, Nat.zero_mul, Nat.zero_min]
    exact (Option.some.inj hmake).symm
  -- All that was published are packets of the file.
  obtain ⟨ms, hms, hpackets⟩ := run.wired.packets
  obtain ⟨ms', hms', hchunks⟩ := @triggers_file g.crc32 g.content s hheaded hfits rfl rfl rfl rfl
    (by rw [hroom]; omega) (strobes h)
  rw [hbuilder, hms'] at hms
  obtain ⟨rfl, _⟩ := Prod.mk.inj (Option.some.inj hms)
  have hall : t.sent.filter (fun msg => msg.dict.isPacket) = t.sent := by
    have hothers := run.wired.telecommands
    rw [hno, List.map_nil, List.filter_eq_nil_iff] at hothers
    rw [List.filter_eq_self]
    intro msg hmsg
    simpa using hothers msg hmsg
  rw [hall, hchunks] at hpackets
  obtain ⟨k, hfinished, hk, hheard⟩ := run.hear_front hfl htag res hnear
  have hcount := congrArg List.length hheard
  rw [List.length_map, List.length_take_of_le hk] at hcount
  have hfront : fileOf (hear ε g.modulator.modem t.modulator.tags xs) =
      g.content.take (k * (packetLength - 12)) := by
    rw [hpackets, List.length_map, List.length_range] at hk
    rw [hheard, hpackets, ← List.map_take, List.take_range, Nat.min_eq_left hk,
      fileOf_chunks hheaded hfits, hroom]
  refine ⟨k, hfinished, hcount, hfront, fun hdone => ?_⟩
  rw [hfront, List.take_of_length_le]
  have hpos : 0 < packetLength - 12 := by omega
  exact Nat.le_trans (length_le_chunkCount hpos)
    (Nat.mul_le_mul_right _ (Nat.le_trans hdone hfinished))

/-- A file of one byte, in a packet of 13. -/
noncomputable def fileFlowgraph : Flowgraph ℝ ℝ := { sampleFlowgraph with content := [0x41] }

def fileBuilder : BuildPacket.State := ⟨true, 13, .unpacked, .file, [], 1, 0, true⟩

/-- Its burst of 104 bits with 40 samples for each, by a receiver without errors. -/
theorem file_received_oneByte :
    ∃ h t, Run fileFlowgraph fileBuilder true h t ∧
      fileOf (hear (1 / 10000) streamModem t.modulator.tags t.modulator.stream) = [0x41] := by
  obtain ⟨r, hr, hcount, hno⟩ :
      ∃ r, Transition.exec (step fileFlowgraph) (initial fileBuilder true)
          [.strobe fun _ => 0, .deliver] = some r ∧
        r.2.modulator.received.map (fun msg => msg.data.length) = [104] ∧
        r.2.source.published = [] := ⟨_, rfl, rfl, rfl⟩
  obtain ⟨h, t, go, hcalls, hsource⟩ := exists_calls (g := fileFlowgraph)
    sampleFlowgraph_resolved.one_le_sps 4161 r.2
  have run := (Transition.exec_run hr).trans go
  obtain ⟨msg, hreceived, hbits⟩ := List.map_eq_singleton_iff.mp hcount
  have hnone : streamModem.msgBits msg.data = msg.data := if_neg (not_not.mpr rfl)
  have hcost : fileFlowgraph.modulator.modem.cost (r.2.modulator.received.take (0 + 1)) ≤
      r.2.modulator.spent + Transition.calls Event.asks h := by
    have hlength : streamModem.burstLength msg.data = 4160 := by
      rw [Modem.burstLength, hnone, hbits]
      rfl
    rw [hreceived, hcalls]
    show streamModem.burstLength msg.data + 1 + 0 ≤ _
    rw [hlength]
    exact Nat.le_add_left 4161 _
  have hfinished := finished_of_calls (Transition.exec_run hr) (by decide)
    sampleFlowgraph_resolved.one_le_sps (by rw [hreceived]; exact Nat.one_pos) go hcost
  obtain ⟨k, _, _, _, hfile⟩ := file_received ⟨Nat.le_refl 13, by decide⟩ rfl run rfl (by decide)
    sampleFlowgraph_resolved (near_refl (by norm_num) _) (by rw [hsource]; exact hno)
  exact ⟨_, t, run, hfile hfinished⟩

end GsSDR.Transmit
