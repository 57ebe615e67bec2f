import GsSDR.HttpSink.Worker
import Mathlib.Data.List.Nodup

/-!
# Packets in the order of their acceptance

A sink numbers the packets that its FIFO accepts.  What has been read out of the
FIFO and what is still in it are together the accepted packets, in that order.
-/

namespace GsSDR

namespace HttpSink

variable {accepted taken : List Packet} {fifo : FifoBuffer Packet}

/-- The packets taken out of a FIFO, then those in it, are the accepted ones. -/
structure InOrder (accepted taken : List Packet) (fifo : FifoBuffer Packet) : Prop where
  conserve : accepted = taken ++ fifo.queue
  seqs : accepted.map Packet.seq = List.range accepted.length

namespace InOrder

/-- No packet is accepted twice. -/
theorem nodup (c : InOrder accepted taken fifo) : accepted.Nodup := by
  have h : (accepted.map Packet.seq).Nodup := c.seqs ▸ List.nodup_range
  exact List.Nodup.of_map Packet.seq h

theorem taken_nodup (c : InOrder accepted taken fifo) : taken.Nodup :=
  (List.nodup_append.mp (c.conserve ▸ c.nodup)).1

/-- What is in the FIFO has not been read. -/
theorem queue_not_taken (c : InOrder accepted taken fifo) {p : Packet} (hp : p ∈ fifo.queue) :
    p ∉ taken := by
  intro ht
  exact (List.nodup_append.mp (c.conserve ▸ c.nodup)).2.2 p ht p hp rfl

/-- A packet offered to the FIFO is accepted with the next number, or dropped. -/
theorem write (c : InOrder accepted taken fifo) (storage : GrStorageWeb) :
    InOrder
      (if (fifo.write [⟨accepted.length, storage⟩]).1 = 1 then
        accepted ++ [⟨accepted.length, storage⟩] else accepted)
      taken (fifo.write [⟨accepted.length, storage⟩]).2 := by
  rcases fifo.write_singleton ⟨accepted.length, storage⟩ with ⟨h1, hq⟩ | ⟨h0, hq⟩
  · rw [if_pos h1]
    constructor
    · rw [hq, ← List.append_assoc, ← c.conserve]
    · simp only [List.map_append, List.map_cons, List.map_nil, List.length_append,
        List.length_singleton, List.range_succ, c.seqs]
  · rw [if_neg (by omega)]
    constructor
    · rw [hq]
      exact c.conserve
    · exact c.seqs

/-- Packets read out of the FIFO. -/
theorem read (c : InOrder accepted taken fifo) (n : Nat) :
    InOrder accepted (taken ++ (fifo.read n).2.1) (fifo.read n).2.2 where
  conserve := by
    obtain ⟨_, hitems, hqueue⟩ := fifo.read_spec n
    rw [hitems, hqueue, List.append_assoc, List.take_append_drop]
    exact c.conserve
  seqs := c.seqs

end InOrder

/-- A packet offered to the FIFO is dropped exactly if it is full. -/
theorem write_packet (fifo : FifoBuffer Packet) (p : Packet) :
    (fifo.write [p]).2.queue.length =
        (if fifo.queue.length < fifo.fifo.fifoSize - 1 then fifo.queue.length + 1
          else fifo.queue.length) ∧
      ((fifo.write [p]).1 = 1 ↔ fifo.queue.length < fifo.fifo.fifoSize - 1) := by
  obtain ⟨hcount, hqueue⟩ := fifo.write_spec [p]
  rw [List.length_singleton] at hcount
  rw [hqueue, hcount, List.length_append, List.length_take, List.length_singleton]
  constructor
  · split <;> omega
  · omega

end HttpSink

end GsSDR
