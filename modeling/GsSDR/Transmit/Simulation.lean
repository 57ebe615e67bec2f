import GsSDR.PackedToUnpacked
import GsSDR.Transmit.Reception

/-!
# The simulation flowgraph

In the simulation flowgraph strobes trigger `build_packet_1`, and `packed_to_unpacked`
is wired between it and `afsk_basic`, but bypassed: in the program that is generated the
builder publishes unpacked packets to the modulator itself.  Here `bypassed` says which.
Strobes, the blocks that handle messages and the calls of `work` come in any order.

With the block, a receiver that packs the bits that it hears gets what the builder has
published, byte for byte and in order.  Without it, the receiver hears the unpacked
packets as they are (`packets_received`).
-/

namespace GsSDR.Transmit.Simulation

open Afsk Tones Bursts BuildPacket

variable {R S : Type}

/-- What the blocks are made with, and what is outside of them. -/
structure Flowgraph (R S : Type) where
  fl : Floats R S
  modulator : Basic R
  crc32 : List UInt8 → UInt32
  /-- What the file holds. -/
  content : List UInt8
  /-- The builder publishes to the modulator, past `packed_to_unpacked`. -/
  bypassed : Bool

/-- The blocks and the messages that wait for the last two. -/
structure State (R S : Type) where
  builder : BuildPacket.State
  packed : List (Msg (Option Meta))
  unpacked : List (Msg (Option Meta))
  modulator : Basic.State R S (Option Meta)
  /-- What the builder has published. -/
  published : List (Msg (Option Meta))

def initial (builder : BuildPacket.State) : State R S where
  builder
  packed := []
  unpacked := []
  modulator := Basic.initial
  published := []

inductive Event where
  /-- The strobe triggers the builder, with these random numbers. -/
  | strobe (rand : Nat → Nat)
  /-- `packed_to_unpacked` handles a message. -/
  | unpack
  /-- The modulator handles a message. -/
  | deliver
  /-- The modulator is asked for samples. -/
  | work (length : Nat)

/-- What the builder publishes on `out_pdus`. -/
def pduOf : Message → Option (Msg (Option Meta))
  | .stat _ => none
  | .out dict vector => some ⟨dict, vector⟩

/-- Messages of the builder go to the block behind it. -/
def State.post (s : State R S) (bypassed : Bool) (msgs : List (Msg (Option Meta))) :
    State R S :=
  if bypassed then { s with unpacked := s.unpacked ++ msgs, published := s.published ++ msgs }
  else { s with packed := s.packed ++ msgs, published := s.published ++ msgs }

/-- The vector that comes to the modulator. -/
def Flowgraph.passed (g : Flowgraph R S) (vector : List UInt8) : List UInt8 :=
  if g.bypassed then vector else Bits.unpack vector

section

variable [Add R] [Mul R] [Div R] [NatCast R] (g : Flowgraph R S)

def step (s : State R S) : Event → Option (State R S)
  | .strobe rand =>
      (packetHandler g.crc32 rand g.content s.builder).map fun r =>
        { s.post g.bypassed (r.1.filterMap pduOf) with builder := r.2 }
  | .unpack =>
      match s.packed with
      | [] => none
      | msg :: packed =>
          -- the dictionary of the message is replaced by an empty one
          (PackedToUnpacked.packetHandler msg.data).map fun bits =>
            { s with packed, unpacked := s.unpacked ++ [⟨none, bits⟩] }
  | .deliver =>
      match s.unpacked with
      | [] => none
      | msg :: unpacked =>
          (Basic.step g.fl g.modulator s.modulator (.handleMsg msg)).map fun t =>
            { s with unpacked, modulator := t }
  | .work length =>
      (Basic.step g.fl g.modulator s.modulator (.work length)).map fun t =>
        { s with modulator := t }

abbrev Run (builder : BuildPacket.State) (h : List (State R S × Event)) (s : State R S) : Prop :=
  Transition.Run (step g) (initial builder) h s

/-- The random numbers of the strobes. -/
def Event.rand : Event → Option (Nat → Nat)
  | .strobe rand => some rand
  | _ => none

def strobes (h : List (State R S × Event)) : List (Nat → Nat) := h.filterMap fun p => p.2.rand

/-- What the order of events does not change. -/
structure Wired (builder : BuildPacket.State) (rands : List (Nat → Nat)) (s : State R S) :
    Prop where
  builder : ∃ ms, triggers g.crc32 g.content rands builder = some (ms, s.builder) ∧
    s.published = ms.filterMap pduOf
  /-- What has not come to the modulator yet waits in front of `packed_to_unpacked`. -/
  handled : ∃ done, s.published = done ++ s.packed ∧
    (s.modulator.received ++ s.unpacked).map Msg.data = done.map fun msg => g.passed msg.data
  idle : g.bypassed = true → s.packed = []
  streaming : Basic.Streaming g.fl g.modulator s.modulator

end

/-! ## The packets -/

section

variable {crc32 : List UInt8 → UInt32} {rand : Nat → Nat} {rands : List (Nat → Nat)}
  {content vector : List UInt8} {s t : BuildPacket.State} {ms : List Message}

/-- An `int` holds the length of a packet. -/
theorem length_lt_of_outputs (hint : s.packetLength < 2 ^ 31) (h : s.Outputs vector) :
    vector.length < 2 ^ 31 := by
  obtain ⟨dataPacket, h⟩ := h
  cases htype : s.dataType with
  | packed =>
      rw [htype, outVector, ByteBuffer.load] at h
      split at h
      next =>
        cases h
        exact Nat.lt_of_le_of_lt (List.length_take_le _ _) hint
      next => cases h
  | unpacked =>
      rw [htype, outVector, mapM_bitAt] at h
      split at h
      next hcount =>
        split at h
        next hin =>
          cases h
          rw [Bits.length_unpack, List.length_take_of_le hin]
          omega
        next => cases h
      next => cases h

/-- An unpacked packet has bits only. -/
theorem bits_of_outputs (hunpacked : s.dataType = .unpacked) (h : s.Outputs vector) :
    ∀ b ∈ vector, b = 0 ∨ b = 1 := by
  obtain ⟨dataPacket, h⟩ := h
  rw [hunpacked, outVector, mapM_bitAt] at h
  split at h
  next =>
    split at h
    next =>
      cases h
      exact fun _ => Bits.mem_unpack
    next => cases h
  next => cases h

theorem packetHandler_outputs (hint : s.packetLength < 2 ^ 31)
    (h : packetHandler crc32 rand content s = some (ms, t)) :
    t.dataType = s.dataType ∧ t.packetLength < 2 ^ 31 ∧
      ∀ msg ∈ ms.filterMap pduOf, t.Outputs msg.data := by
  rcases packetHandler_cases h with ⟨_, rfl, vector, hvector, rfl⟩ |
    ⟨_, dict, vector, n, hvector, rfl, rfl⟩ | ⟨_, dict, rfl, rfl⟩ |
    ⟨_, rfl, hcount, vector, hvector, rfl⟩
  · refine ⟨rfl, hint, fun msg hmsg => ?_⟩
    cases List.mem_singleton.mp hmsg
    exact hvector
  · refine ⟨rfl, hint, fun msg hmsg => ?_⟩
    cases List.mem_singleton.mp hmsg
    exact hvector
  · refine ⟨rfl, hint, fun msg hmsg => ?_⟩
    cases hmsg
  · refine ⟨rfl, hcount, fun msg hmsg => ?_⟩
    cases List.mem_singleton.mp hmsg
    exact hvector

/-- The packets of all triggers. -/
theorem triggers_outputs (hint : s.packetLength < 2 ^ 31)
    (h : triggers crc32 content rands s = some (ms, t)) :
    ∀ msg ∈ ms.filterMap pduOf, msg.data.length < 2 ^ 31 ∧
      (s.dataType = .unpacked → ∀ b ∈ msg.data, b = 0 ∨ b = 1) := by
  induction rands generalizing s ms with
  | nil =>
      cases h
      intro msg hmsg
      cases hmsg
  | cons rand rands ih =>
      rw [triggers] at h
      split at h
      next => cases h
      next r hr =>
        obtain ⟨r', hrest, heq⟩ := Option.map_eq_some_iff.mp h
        cases heq
        obtain ⟨htype, hlength, houtputs⟩ := packetHandler_outputs hint hr
        intro msg hmsg
        rw [List.filterMap_append] at hmsg
        rcases List.mem_append.mp hmsg with hmsg | hmsg
        · have hout := houtputs msg hmsg
          exact ⟨length_lt_of_outputs hlength hout,
            fun hunpacked => bits_of_outputs (htype.trans hunpacked) hout⟩
        · obtain ⟨hshort, hbits⟩ := ih hlength hrest msg hmsg
          exact ⟨hshort, fun hunpacked => hbits (htype.trans hunpacked)⟩

end

/-! ## The invariant -/

theorem strobes_concat (h : List (State R S × Event)) (s : State R S) (e : Event) :
    strobes (h ++ [(s, e)]) = strobes h ++ e.rand.toList := by
  rw [strobes, List.filterMap_append]
  cases e <;> rfl

variable [Add R] [Mul R] [Div R] [NatCast R] {g : Flowgraph R S}
variable {builder : BuildPacket.State} {rands : List (Nat → Nat)}
variable {h : List (State R S × Event)} {s t : State R S}

theorem wired_initial : Wired g builder [] (initial builder : State R S) where
  builder := ⟨[], rfl, rfl⟩
  handled := ⟨[], rfl, rfl⟩
  idle _ := rfl
  streaming := Basic.streaming_initial

/-- Packets of a strobe go to the first block in use. -/
theorem Wired.strobe {rand : Nat → Nat} {r : List Message × BuildPacket.State}
    (hs : Wired g builder rands s)
    (hr : packetHandler g.crc32 rand g.content s.builder = some r) :
    Wired g builder (rands ++ [rand])
      { s.post g.bypassed (r.1.filterMap pduOf) with builder := r.2 } := by
  obtain ⟨⟨ms, hms, hpublished⟩, ⟨done, hdone, hpassed⟩, hidle, hstreaming⟩ := hs
  have hmore : triggers g.crc32 g.content (rands ++ [rand]) builder = some (ms ++ r.1, r.2) :=
    triggers_concat hms hr
  have hnew : s.published ++ r.1.filterMap pduOf = (ms ++ r.1).filterMap pduOf := by
    rw [List.filterMap_append, ← hpublished]
  cases hbypassed : g.bypassed with
  | true =>
      have hempty := hidle hbypassed
      refine ⟨⟨_, hmore, hnew⟩, ⟨done ++ r.1.filterMap pduOf, ?_, ?_⟩, fun _ => hempty, hstreaming⟩
      · show s.published ++ _ = _ ++ s.packed
        rw [hdone, hempty, List.append_nil, List.append_nil]
      · show (s.modulator.received ++ (s.unpacked ++ _)).map Msg.data = _
        rw [← List.append_assoc, List.map_append, hpassed, List.map_append]
        simp [Flowgraph.passed, hbypassed]
  | false =>
      refine ⟨⟨_, hmore, hnew⟩, ⟨done, ?_, hpassed⟩, fun htrue => ?_, hstreaming⟩
      · show s.published ++ _ = done ++ (s.packed ++ _)
        rw [hdone, List.append_assoc]
      · rw [hbypassed] at htrue
        cases htrue

/-- The packet in front goes to the modulator as bits. -/
theorem Wired.unpack {msg : Msg (Option Meta)} {packed : List (Msg (Option Meta))}
    {bits : List UInt8} (hint : builder.packetLength < 2 ^ 31) (hs : Wired g builder rands s)
    (hpacked : s.packed = msg :: packed)
    (hbits : PackedToUnpacked.packetHandler msg.data = some bits) :
    Wired g builder rands { s with packed, unpacked := s.unpacked ++ [⟨none, bits⟩] } := by
  obtain ⟨⟨ms, hms, hpublished⟩, ⟨done, hdone, hpassed⟩, hidle, hstreaming⟩ := hs
  rw [hpacked] at hdone
  have hactive : g.bypassed = false := by
    rw [Bool.eq_false_iff]
    intro hbypassed
    rw [hidle hbypassed] at hpacked
    cases hpacked
  have hmem : msg ∈ ms.filterMap pduOf := by
    rw [← hpublished, hdone]
    exact List.mem_append_right done List.mem_cons_self
  have hshort : msg.data.length < 2 ^ 28 := by
    by_contra hlong
    rw [PackedToUnpacked.packetHandler_none (Nat.le_of_not_lt hlong)
      (triggers_outputs hint hms msg hmem).1] at hbits
    cases hbits
  rw [PackedToUnpacked.packetHandler_eq hshort] at hbits
  refine ⟨⟨ms, hms, hpublished⟩, ⟨done ++ [msg], ?_, ?_⟩, fun hbypassed => ?_, hstreaming⟩
  · rw [hdone, List.append_assoc]
    rfl
  · rw [← List.append_assoc, List.map_append, hpassed, List.map_append, ← Option.some.inj hbits]
    simp [Flowgraph.passed, hactive]
  · rw [hactive] at hbypassed
    cases hbypassed

/-- Every event keeps the blocks wired. -/
theorem Wired.step {e : Event} (hint : builder.packetLength < 2 ^ 31)
    (hs : Wired g builder rands s) (hstep : Simulation.step g s e = some t) :
    Wired g builder (rands ++ e.rand.toList) t := by
  cases e with
  | strobe rand =>
      obtain ⟨r, hr, rfl⟩ := Option.map_eq_some_iff.mp hstep
      exact hs.strobe hr
  | unpack =>
      show Wired g builder (rands ++ []) t
      rw [List.append_nil]
      rw [Simulation.step] at hstep
      split at hstep
      next => cases hstep
      next msg packed hpacked =>
        obtain ⟨bits, hbits, rfl⟩ := Option.map_eq_some_iff.mp hstep
        exact hs.unpack hint hpacked hbits
  | deliver =>
      obtain ⟨hbuilder, ⟨done, hdone, hpassed⟩, hidle, hstreaming⟩ := hs
      show Wired g builder (rands ++ []) t
      rw [List.append_nil]
      rw [Simulation.step] at hstep
      split at hstep
      next => cases hstep
      next msg unpacked hunpacked =>
        obtain ⟨modulator', hmodulator, rfl⟩ := Option.map_eq_some_iff.mp hstep
        have hreceived : modulator'.received = s.modulator.received ++ [msg] := by
          cases hmodulator
          rfl
        refine ⟨hbuilder, ⟨done, hdone, ?_⟩, hidle, Basic.step_streaming hstreaming hmodulator⟩
        rw [hreceived, List.append_assoc]
        rwa [hunpacked] at hpassed
  | work length =>
      obtain ⟨hbuilder, ⟨done, hdone, hpassed⟩, hidle, hstreaming⟩ := hs
      show Wired g builder (rands ++ []) t
      rw [List.append_nil]
      obtain ⟨modulator', hmodulator, rfl⟩ := Option.map_eq_some_iff.mp hstep
      refine ⟨hbuilder, ⟨done, hdone, ?_⟩, hidle, Basic.step_streaming hstreaming hmodulator⟩
      rwa [Basic.work_received hmodulator]

/-- The blocks are wired in every run. -/
theorem Run.wired (run : Run g builder h s) (hint : builder.packetLength < 2 ^ 31) :
    Wired g builder (strobes h) s := by
  induction run with
  | nil => exact wired_initial
  | snoc _ hstep ih =>
      rw [strobes_concat]
      exact ih.step hint hstep

/-! ## The receiver -/

/-- In every order of events, what is heard are the first packets that the builder has
published for the strobes, at least those whose bursts are finished.  If
`packed_to_unpacked` is in use, the bits that are heard pack to them.  If it is bypassed
and they are unpacked, they are heard as they are. -/
theorem packets_received {ε : ℝ} {xs : List ℝ} {g : Flowgraph ℝ ℝ}
    {h : List (State ℝ ℝ × Event)} {s : State ℝ ℝ} (run : Run g builder h s)
    (hint : builder.packetLength < 2 ^ 31) (hfl : g.fl = realFloats)
    (htag : g.modulator.streamTag.length ≠ 0) (res : g.modulator.modem.Resolved ε)
    (hnear : Near ε xs s.modulator.stream) :
    ∃ ms k, triggers g.crc32 g.content (strobes h) builder = some (ms, s.builder) ∧
      s.modulator.finished ≤ k ∧ k ≤ (ms.filterMap pduOf).length ∧
      hear ε g.modulator.modem s.modulator.tags xs =
        ((ms.filterMap pduOf).take k).map (fun msg => (g.passed msg.data).map heard) ∧
      (g.bypassed = false →
        (hear ε g.modulator.modem s.modulator.tags xs).map Bits.pack =
          ((ms.filterMap pduOf).take k).map Msg.data) ∧
      (g.bypassed = true → builder.dataType = .unpacked →
        hear ε g.modulator.modem s.modulator.tags xs =
          ((ms.filterMap pduOf).take k).map Msg.data) := by
  obtain ⟨⟨ms, hms, hpublished⟩, ⟨done, hdone, hpassed⟩, _, hstreaming⟩ := run.wired hint
  rw [hfl] at hstreaming
  obtain ⟨k, hfinished, hk, hheard⟩ := hear_received htag res hstreaming hnear
  have hcount : s.modulator.received.length + s.unpacked.length = done.length := by
    have hlengths := congrArg List.length hpassed
    rwa [List.length_map, List.length_map, List.length_append] at hlengths
  -- what the modulator has taken in first are the first packets, as they come to it
  have hfirst : (s.modulator.received.take k).map Msg.data =
      ((ms.filterMap pduOf).take k).map fun msg => g.passed msg.data := by
    have htake : (s.modulator.received ++ s.unpacked).take k = s.modulator.received.take k :=
      List.take_append_of_le_length hk
    rw [← htake, List.map_take, hpassed, ← List.map_take, ← hpublished, hdone,
      List.take_append_of_le_length (by omega)]
  have hall : hear ε g.modulator.modem s.modulator.tags xs =
      ((ms.filterMap pduOf).take k).map fun msg => (g.passed msg.data).map heard := by
    have hdata : (s.modulator.received.take k).map (fun msg => msg.data.map heard) =
        ((s.modulator.received.take k).map Msg.data).map fun bits => bits.map heard := by
      rw [List.map_map]
      rfl
    rw [hheard, hdata, hfirst, List.map_map]
    rfl
  refine ⟨ms, k, hms, hfinished, ?_, hall, fun hactive => ?_, fun hbypassed hunpacked => ?_⟩
  · rw [← hpublished, hdone, List.length_append]
    omega
  · rw [hall, List.map_map]
    refine List.map_congr_left fun msg _ => ?_
    simp only [Function.comp, Flowgraph.passed, hactive, Bool.false_eq_true, if_false]
    rw [map_heard fun _ => Bits.mem_unpack, Bits.pack_unpack]
  · rw [hall]
    refine List.map_congr_left fun msg hmsg => ?_
    have hbits := (triggers_outputs hint hms msg (List.mem_of_mem_take hmsg)).2 hunpacked
    simp only [Flowgraph.passed, hbypassed, if_true]
    exact map_heard hbits

/-- The block is bypassed, and the packet comes from the command line. -/
noncomputable def sampleFlowgraph : Flowgraph ℝ ℝ where
  fl := realFloats
  modulator := ⟨streamModem, "packet_len"⟩
  crc32 := crc32Ieee
  content := []
  bypassed := true

/-- Its burst is started, and received without errors. -/
theorem packets_received_cmdLine :
    ∃ h s, Run sampleFlowgraph sampleBuilder h s ∧ s.modulator.tags.length = 1 ∧
      ∃ ms k, triggers crc32Ieee [] (strobes h) sampleBuilder = some (ms, s.builder) ∧
        s.modulator.finished ≤ k ∧ k ≤ (ms.filterMap pduOf).length ∧
        hear (1 / 10000) streamModem s.modulator.tags s.modulator.stream =
          ((ms.filterMap pduOf).take k).map Msg.data := by
  obtain ⟨r, hr, houtbox, hbuffer, htags⟩ :
      ∃ r, Transition.exec (step sampleFlowgraph) (initial sampleBuilder)
          [.strobe fun _ => 0, .deliver] = some r ∧
        r.2.modulator.outbox = [[0, 1, 0, 1, 0, 1, 0, 1]] ∧
        r.2.modulator.outputBuffer = none ∧ r.2.modulator.tags = [] :=
    ⟨_, rfl, rfl, rfl, rfl⟩
  obtain ⟨modulator, hwork⟩ := Basic.step_isSome (b := sampleFlowgraph.modulator)
    sampleFlowgraph.fl streamModem_resolved.one_le_sps r.2.modulator (.work 40)
  have hstep : step sampleFlowgraph r.2 (.work 40) = some { r.2 with modulator } := by
    rw [step]
    exact congrArg _ hwork
  have run := (Transition.exec_run hr).snoc hstep
  obtain ⟨ms, k, hms, hfinished, hk, _, _, hheard⟩ := packets_received run (by decide) rfl
    (by decide) streamModem_resolved (near_refl (by norm_num) _)
  refine ⟨_, _, run, ?_, ms, k, hms, hfinished, hk, hheard rfl rfl⟩
  show modulator.tags.length = 1
  rcases Basic.work_cases hwork with ⟨opb, hsome, rfl⟩ | ⟨_, hnil, out, rfl⟩ |
    ⟨_, msg, outbox, opb, _, rfl⟩
  · rw [hbuffer] at hsome
    cases hsome
  · rw [houtbox] at hnil
    cases hnil
  · simp [Basic.copy, Basic.State.started, htags]

end GsSDR.Transmit.Simulation
