import GsSDR.Lib.Repeats
import GsSDR.WebSocketSink.Backlog
import GsSDR.WebSocketSink.Delivery
import GsSDR.WebSocketSink.Telemetry

/-!
# What the server gets from the WebSocket sink

`packet_handler` numbers the packets, also those that the FIFO has no room for.  The
worker writes a packet again when it has lost the connection with it.

So a server that keeps what has a higher number than the last record it has kept, and
knows the packets it has acknowledged, has the packets with room in the FIFO, each once
and in order, up to at most 32 that are on the way (`heard_once`).  A number that it does
not have is that of a packet without room, or of one on the way.

`Sink` is the worker's machine with `m_packetCounter` and the text of the records.
-/

namespace GsSDR

namespace WebSocketSink

open Cxx Json
open HttpSink (Packet fifoSize toInt groundStation crcOK packetNumber packetLength
  spacecraftIdKey hexPairs)

/-! ## A reader -/

/-- What a record says. -/
structure Record where
  groundStation : Int
  dateTime : Int
  packetNumber : Int
  packetLength : Int
  packetData : List UInt8
  spacecraftId : Int
deriving DecidableEq, Repr

/-- The bytes of a payload, which stands between quotes of its own. -/
def payloadOf : Str → Option (List UInt8)
  | '"' :: '0' :: 'x' :: cs => if cs.getLast? = some '"' then hexPairs cs.dropLast else none
  | _ => none

/-- Read the members of a record. -/
def readRecord (text : Str) : Option Record := do
  let fields ← readObject text
  let number (key : Str) : Option Int := (fields.lookup key).bind integer
  let groundStation ← number groundStation
  let dateTime ← number dateTimeKey
  let packetNumber ← number packetNumber
  let packetLength ← number packetLength
  let packetData ← (fields.lookup packetData).bind payloadOf
  let spacecraftId ← number spacecraftIdKey
  return { groundStation, dateTime, packetNumber, packetLength, packetData, spacecraftId }

theorem payloadOf_quoted (dataUint8 : List UInt8) :
    payloadOf (quoted (['0', 'x'] ++ renderBytes dataUint8)) = some dataUint8 := by
  have hquoted : quoted (['0', 'x'] ++ renderBytes dataUint8) =
      '"' :: '0' :: 'x' :: (renderBytes dataUint8 ++ ['"']) := rfl
  rw [hquoted, payloadOf, if_pos (by simp), List.dropLast_concat,
    HttpSink.hexPairs_renderBytes]

/-- What a reader finds, without the kinds of the values. -/
def fields (stationId dateTime packetCounter spacecraftId : Int) (dataUint8 : List UInt8) :
    List (Str × Str) :=
  [(groundStation, toStr stationId),
    (dateTimeKey, toStr dateTime),
    (crcOK, ['t', 'r', 'u', 'e']),
    (packetNumber, toStr packetCounter),
    (packetLength, toStr (toInt dataUint8.length)),
    (packetData, quoted (['0', 'x'] ++ renderBytes dataUint8)),
    (spacecraftIdKey, toStr spacecraftId)]

theorem read_telemetry {boost : Boost} (hboost : boost.Documented)
    (stationId dateTime packetCounter spacecraftId : Int) (dataUint8 : List UInt8) :
    readObject (telemetry boost stationId dateTime packetCounter spacecraftId dataUint8).str =
      some (fields stationId dateTime packetCounter spacecraftId dataUint8) := by
  rw [readObject_eq, readTyped_telemetry _ _ _ _ _ hboost, Option.map_some, texts]
  simp only [values, List.map_cons, List.map_nil, text_numeral]
  rfl

/-- The reader gets back what `packet_handler` has put into the text. -/
theorem readRecord_telemetry {boost : Boost} (hboost : boost.Documented)
    (stationId dateTime packetCounter spacecraftId : Int) (dataUint8 : List UInt8) :
    readRecord (telemetry boost stationId dateTime packetCounter spacecraftId dataUint8).str =
      some ⟨stationId, dateTime, packetCounter, toInt dataUint8.length, dataUint8,
        spacecraftId⟩ := by
  have hnumber : ∀ {key : Str} {n : Int},
      (fields stationId dateTime packetCounter spacecraftId dataUint8).lookup key =
        some (toStr n) →
      ((fields stationId dateTime packetCounter spacecraftId dataUint8).lookup key).bind
        integer = some n := by
    intro key n hkey
    rw [hkey, Option.bind_some, integer_toStr]
  have hdata : ((fields stationId dateTime packetCounter spacecraftId dataUint8).lookup
      packetData).bind payloadOf = some dataUint8 := payloadOf_quoted dataUint8
  simp only [readRecord, read_telemetry hboost, Option.bind_eq_bind, Option.bind_some]
  rw [hnumber rfl, Option.bind_some, hnumber rfl, Option.bind_some, hnumber rfl,
    Option.bind_some, hnumber rfl, Option.bind_some, hdata, Option.bind_some, hnumber rfl]
  rfl

/-! ## What the worker has written -/

section

variable {s t : State} {e : Event}

/-- The packets written are ones read out of the FIFO, in their order, and those
acknowledged are among them. -/
structure Repeated (s : State) : Prop where
  ordered : s.written.Pairwise fun p q => p.seq ≤ q.seq
  taken : ∀ p ∈ s.written, p ∈ s.taken
  acked : ∀ p ∈ s.acked, p ∈ s.written
  reading : ∀ {i : Nat} {p : Packet}, s.pc = .read i → s.bufferWriteStorage[i]? = some p →
    p ∈ s.written

theorem repeated_initial : Repeated initial where
  ordered := .nil
  taken := by
    intro p hp
    cases hp
  acked := by
    intro p hp
    cases hp
  reading := by
    intro i p hpc
    cases hpc

theorem forTest_ne_read (s : State) (i k : Nat) : forTest s i ≠ .read k := by
  rw [forTest]
  split
  next => exact Pc.noConfusion
  next => exact Pc.noConfusion

theorem sendTest_ne_read (s : State) (k : Nat) : sendTest s ≠ .read k := by
  rw [sendTest]
  split
  next => exact forTest_ne_read s 0 k
  next => exact Pc.noConfusion

theorem exitTest_ne_read {next : Pc} {k : Nat} (hnext : next ≠ .read k) :
    exitTest s next ≠ .read k := by
  rw [exitTest]
  split
  next => exact Pc.noConfusion
  next => exact hnext

/-- A move of the worker that writes nothing. -/
theorem Repeated.move (hr : Repeated s) (hwritten : t.written = s.written)
    (htaken : ∀ p ∈ s.taken, p ∈ t.taken) (hacked : t.acked = s.acked)
    (hpc : ∀ i, t.pc ≠ .read i) : Repeated t where
  ordered := by
    rw [hwritten]
    exact hr.ordered
  taken := by
    rw [hwritten]
    exact fun p hp => htaken p (hr.taken p hp)
  acked := by
    rw [hwritten, hacked]
    exact hr.acked
  reading := fun h => absurd h (hpc _)

/-- The packets read out of the FIFO are in the order of their numbers. -/
theorem Consistent.taken_pairwise (hs : Consistent s) :
    s.taken.Pairwise fun p q => p.seq < q.seq := by
  have hrange : (s.accepted.map Packet.seq).Pairwise (· < ·) := by
    rw [hs.inOrder.seqs]
    exact List.pairwise_lt_range
  have hsorted := List.pairwise_map.mp hrange
  rw [hs.inOrder.conserve] at hsorted
  exact (List.pairwise_append.mp hsorted).1

/-- The packet that is owing may be written. -/
theorem Repeated.write {p : Packet} (hr : Repeated s) (hs : Consistent s) (howing : Owing s p)
    (hwritten : t.written = s.written ++ [p]) (htaken : t.taken = s.taken)
    (hacked : t.acked = s.acked)
    (hpc : ∀ {i : Nat} {q : Packet}, t.pc = .read i → t.bufferWriteStorage[i]? = some q →
      q = p) : Repeated t where
  ordered := by
    rw [hwritten, List.pairwise_append]
    refine ⟨hr.ordered, List.pairwise_singleton _ _, fun q hq r hr' => ?_⟩
    rw [List.mem_singleton.mp hr']
    have hsorted := hs.taken_pairwise
    have hmem := hr.taken q hq
    rw [howing.2.2] at hsorted hmem
    rcases List.mem_append.mp hmem with hmem | hmem
    · exact Nat.le_of_lt ((List.pairwise_append.mp hsorted).2.2 q hmem p
        (List.mem_singleton.mpr rfl))
    · rw [List.mem_singleton.mp hmem]
  taken := by
    intro q hq
    rw [hwritten] at hq
    rw [htaken]
    rcases List.mem_append.mp hq with hq | hq
    · exact hr.taken q hq
    · rw [List.mem_singleton.mp hq, howing.2.2]
      exact List.mem_append_right _ (List.mem_singleton.mpr rfl)
  acked := by
    intro q hq
    rw [hacked] at hq
    rw [hwritten]
    exact List.mem_append_left _ (hr.acked q hq)
  reading := by
    intro i q hread hcell
    rw [hpc hread hcell, hwritten]
    exact List.mem_append_right _ (List.mem_singleton.mpr rfl)

theorem Repeated.step (hr : Repeated s) (hs : Consistent s)
    (hstep : WebSocketSink.step s e = some t) : Repeated t := by
  cases step_sound hstep with
  | packetHandler => exact ⟨hr.ordered, hr.taken, hr.acked, hr.reading⟩
  | stop => exact ⟨hr.ordered, hr.taken, hr.acked, hr.reading⟩
  | enter _ => exact hr.move rfl (fun _ hp => hp) rfl fun _ => exitTest_ne_read Pc.noConfusion
  | firstConnect _ => exact hr.move rfl (fun _ hp => hp) rfl fun _ => Pc.noConfusion
  | pass _ =>
      rw [beginPass]
      split
      next =>
        exact hr.move rfl (fun _ hp => List.mem_append_left _ hp) rfl
          fun i => sendTest_ne_read (readFifo s) i
      next => exact hr.move rfl (fun _ hp => hp) rfl fun _ => Pc.noConfusion
  | reconnect _ => exact hr.move rfl (fun _ hp => hp) rfl fun i => sendTest_ne_read _ i
  | @written i p hpc hp =>
      refine hr.write hs (hs.owing_of_sending (.inl hpc) hp) rfl rfl rfl ?_
      rintro k q hread hcell
      cases hread
      exact Option.some.inj (hcell.symm.trans hp)
  | @writeThrew i p hpc hp =>
      refine hr.write hs (hs.owing_of_sending (.inl hpc) hp) rfl rfl rfl ?_
      intro k q hread
      exact absurd hread (forTest_ne_read _ (i + 1) k)
  | @acked i p hpc hp =>
      refine ⟨hr.ordered, hr.taken, fun q hq => ?_, fun hread => ?_⟩
      · rcases List.mem_append.mp hq with hq | hq
        · exact hr.acked q hq
        · rw [List.mem_singleton.mp hq]
          exact hr.reading hpc hp
      · exact absurd hread (forTest_ne_read s (i + 1) _)
  | readThrew _ _ =>
      exact hr.move rfl (fun _ hp => hp) rfl fun k => forTest_ne_read s _ k
  | wake _ => exact hr.move rfl (fun _ hp => hp) rfl fun _ => exitTest_ne_read Pc.noConfusion

theorem Run.repeated {h : List (State × Event)} (run : Run h s) : Repeated s :=
  (run.invariant (P := fun s => Consistent s ∧ Repeated s) ⟨consistent_initial, repeated_initial⟩
    fun hs hstep => ⟨hs.1.step hstep, hs.2.step hs.1 hstep⟩).2

end

/-! ## The sink with its numbers -/

/-- The block with `m_packetCounter`. -/
structure Sink where
  worker : State
  packetCounter : Nat

/-- What happens next. -/
inductive Sink.Event where
  /-- `packet_handler` is called with these bytes at this time. -/
  | message (dateTime : Int) (dataUint8 : List UInt8)
  /-- A call of the worker, or a stop. -/
  | call (e : WebSocketSink.Event)

namespace Sink

def initial : Sink where
  worker := WebSocketSink.initial
  packetCounter := 0

section

variable (boost : Boost) (stationId spacecraftId : Int)

/-- The event of the worker's machine. -/
def under (s : Sink) : Sink.Event → WebSocketSink.Event
  | .message dateTime dataUint8 =>
      .packetHandler (telemetry boost stationId dateTime s.packetCounter spacecraftId dataUint8)
  | .call e => e

/-- One step of the block.  `m_packetCounter` is an `int`. -/
def step (s : Sink) (e : Sink.Event) : Option Sink :=
  match e with
  | .message _ _ =>
      if s.packetCounter + 1 < 2 ^ 31 then
        (WebSocketSink.step s.worker (s.under boost stationId spacecraftId e)).map
          fun worker => { worker, packetCounter := s.packetCounter + 1 }
      else none
  | .call (.packetHandler _) => none
  | .call e => (WebSocketSink.step s.worker e).map fun worker => { s with worker }

/-- The runs of the block from its construction. -/
abbrev Run (h : List (Sink × Sink.Event)) (s : Sink) : Prop :=
  Transition.Run (step boost stationId spacecraftId) initial h s

end

section

variable (stationId spacecraftId : Int)

/-- The record of a packet, and whether it finds room in the FIFO. -/
def offered : Sink × Sink.Event → Option (Record × Bool)
  | (s, .message dateTime dataUint8) =>
      some (⟨stationId, dateTime, s.packetCounter, toInt dataUint8.length, dataUint8,
        spacecraftId⟩, decide (s.worker.queued < fifoSize - 1))
  | _ => none

/-- The records of the packets that found room. -/
def admitted (h : List (Sink × Sink.Event)) : List Record :=
  ((h.filterMap (offered stationId spacecraftId)).filter Prod.snd).map Prod.fst

end

variable {boost : Boost} {stationId spacecraftId : Int} {h : List (Sink × Sink.Event)}
  {s t : Sink} {e : Sink.Event}

/-- How many packets come with an event. -/
def Event.packets : Sink.Event → Nat
  | .message _ _ => 1
  | .call _ => 0

/-- A step is one of the worker's machine, and a packet takes a number. -/
theorem step_under (hstep : step boost stationId spacecraftId s e = some t) :
    WebSocketSink.step s.worker (s.under boost stationId spacecraftId e) = some t.worker ∧
      t.packetCounter = s.packetCounter + e.packets := by
  cases e with
  | message dateTime dataUint8 =>
      rw [step] at hstep
      split at hstep
      next =>
        obtain ⟨worker, hworker, rfl⟩ := Option.map_eq_some_iff.mp hstep
        exact ⟨hworker, rfl⟩
      next => cases hstep
  | call e =>
      have hcall : (WebSocketSink.step s.worker e).map (fun worker => { s with worker }) =
          some t := by
        cases e with
        | packetHandler storage => cases hstep
        | _ => exact hstep
      obtain ⟨worker, hworker, rfl⟩ := Option.map_eq_some_iff.mp hcall
      exact ⟨hworker, rfl⟩

/-- The worker's part of a run. -/
theorem Run.under (run : Run boost stationId spacecraftId h s) :
    WebSocketSink.Run
      (h.map fun p => (p.1.worker, p.1.under boost stationId spacecraftId p.2)) s.worker := by
  induction run with
  | nil => exact .nil
  | snoc _ hstep ih =>
      rw [List.map_append]
      exact ih.snoc (step_under hstep).1

/-- The packets are numbered from 0 on. -/
theorem Run.numbered (run : Run boost stationId spacecraftId h s) :
    (h.filterMap (offered stationId spacecraftId)).map (fun o => o.1.packetNumber) =
      (List.range s.packetCounter).map Int.ofNat := by
  induction run with
  | nil => rfl
  | @snoc h s t e _ hstep ih =>
      rw [List.filterMap_append, List.map_append, ih, (step_under hstep).2]
      cases e with
      | message dateTime dataUint8 =>
          rw [Event.packets, List.range_succ, List.map_append]
          rfl
      | call e => exact List.append_nil _

theorem admitted_eq (h : List (Sink × Sink.Event)) :
    admitted stationId spacecraftId h =
      h.filterMap fun p => (offered stationId spacecraftId p).bind fun o =>
        if o.2 then some o.1 else none := by
  induction h with
  | nil => rfl
  | cons p h ih =>
      rw [admitted] at ih ⊢
      rw [List.filterMap_cons, List.filterMap_cons, ← ih]
      cases offered stationId spacecraftId p with
      | none => rfl
      | some o =>
          cases ho : o.2 with
          | true => simp [ho]
          | false => simp [ho]

/-- The worker's FIFO is offered the record. -/
theorem offer_under (hboost : boost.Documented)
    (hstep : step boost stationId spacecraftId s e = some t) :
    (if s.worker.queued < fifoSize - 1 then (s.under boost stationId spacecraftId e).offer
        else none).map (fun x => readRecord x.str) =
      ((offered stationId spacecraftId (s, e)).bind fun o =>
        if o.2 then some o.1 else none).map some := by
  cases e with
  | message dateTime dataUint8 =>
      rw [offered, Option.bind_some]
      by_cases hroom : s.worker.queued < fifoSize - 1
      · rw [if_pos hroom, if_pos (decide_eq_true hroom)]
        exact congrArg some (readRecord_telemetry hboost ..)
      · rw [if_neg hroom, if_neg (by simpa using hroom)]
        rfl
  | call e =>
      cases e with
      | packetHandler storage => cases hstep
      | _ => simp [under, offered, WebSocketSink.Event.offer]

/-- The accepted packets hold the records of those that found room. -/
theorem Run.records (hboost : boost.Documented) (run : Run boost stationId spacecraftId h s) :
    s.worker.accepted.map (fun p => readRecord p.storage.str) =
      (admitted stationId spacecraftId h).map some := by
  have hstorages := intake.admitted_eq sized_initial Sized.step rfl run.under
  have hread := congrArg (List.map fun x : GrStorageWeb => readRecord x.str) hstorages
  rw [List.map_map, List.filterMap_map, List.map_filterMap] at hread
  rw [admitted_eq, List.map_filterMap]
  refine hread.trans (List.filterMap_congr fun p hp => ?_)
  obtain ⟨t, hstep⟩ := Transition.Run.step_of_mem run p hp
  exact offer_under hboost hstep

/-- Their numbers rise. -/
theorem Run.admitted_pairwise (run : Run boost stationId spacecraftId h s) :
    (admitted stationId spacecraftId h).Pairwise fun a b => a.packetNumber < b.packetNumber := by
  have hrange : ((List.range s.packetCounter).map Int.ofNat).Pairwise (· < ·) :=
    List.pairwise_map.mpr (List.pairwise_lt_range.imp Int.ofNat_lt.mpr)
  rw [← run.numbered, List.pairwise_map] at hrange
  exact List.pairwise_map.mpr (hrange.sublist List.filter_sublist)

/-- The record of an accepted packet is at its place. -/
theorem Run.record_at (hboost : boost.Documented) (run : Run boost stationId spacecraftId h s)
    {p : Packet} {r : Record} (hp : p ∈ s.worker.accepted)
    (hr : readRecord p.storage.str = some r) :
    (admitted stationId spacecraftId h)[p.seq]? = some r := by
  obtain ⟨i, hi⟩ := List.mem_iff_getElem?.mp hp
  have hseq : i = p.seq := by
    have hseqs := congrArg (·[i]?) run.under.consistent.inOrder.seqs
    simp only [List.getElem?_map, hi, Option.map_some] at hseqs
    rw [List.getElem?_range (List.getElem?_eq_some_iff.mp hi).1] at hseqs
    exact (Option.some.inj hseqs).symm
  have hrecords := congrArg (·[i]?) (run.records hboost)
  simp only [List.getElem?_map, hi, Option.map_some, hr] at hrecords
  obtain ⟨r', hr', hsome⟩ := Option.map_eq_some_iff.mp hrecords.symm
  rw [← hseq, hr', Option.some.inj hsome]

/-! ## What the server keeps -/

/-- What was heard are the packets accepted first, with those acknowledged. -/
theorem Run.heard_first {heard : List Packet} (run : Run boost stationId spacecraftId h s)
    (hheard : heard.Sublist s.worker.written) (hacked : ∀ p ∈ s.worker.acked, p ∈ heard) :
    ∃ n, s.worker.acked.length ≤ n ∧ n ≤ s.worker.accepted.length ∧
      s.worker.accepted.length ≤ n + 32 ∧ ∀ p, p ∈ heard ↔ p ∈ s.worker.accepted.take n := by
  have hs := run.under.consistent
  have hconserve := hs.inOrder.conserve
  have htaken : ∀ p ∈ heard, p ∈ s.worker.taken := fun p hp =>
    run.under.repeated.taken p (hheard.subset hp)
  have hqueue : s.worker.fifo.queue.length < 32 := by
    have hroom := s.worker.fifo.holds.room
    have hsized : Sized s.worker := run.under.invariant sized_initial Sized.step
    rwa [show s.worker.fifo.fifo.fifoSize = 32 from hsized] at hroom
  have hlength : s.worker.accepted.length =
      s.worker.taken.length + s.worker.fifo.queue.length := by
    rw [hconserve, List.length_append]
  -- the packet that is owing may have been heard
  have hall : (∀ p ∈ s.worker.taken, p ∈ heard) → ∀ p, p ∈ heard ↔
      p ∈ s.worker.accepted.take s.worker.taken.length := by
    intro hall p
    rw [hconserve, List.take_left]
    exact ⟨htaken p, hall p⟩
  rcases hs.settled_or_owing with hsettled | ⟨q, howing⟩
  · have hsame : s.worker.taken = s.worker.acked := hsettled
    refine ⟨s.worker.taken.length, by rw [hsame], by omega, by omega, hall ?_⟩
    rw [hsame]
    exact hacked
  · have hsplit : s.worker.taken = s.worker.acked ++ [q] := howing.2.2
    have hcount : s.worker.taken.length = s.worker.acked.length + 1 := by
      rw [hsplit, List.length_append, List.length_singleton]
    by_cases hq : q ∈ heard
    · refine ⟨s.worker.taken.length, by omega, by omega, by omega, hall fun p hp => ?_⟩
      rw [hsplit] at hp
      rcases List.mem_append.mp hp with hp | hp
      · exact hacked p hp
      · rw [List.mem_singleton.mp hp]
        exact hq
    · refine ⟨s.worker.acked.length, Nat.le_refl _, by omega, by omega, fun p => ?_⟩
      rw [hconserve, hsplit, List.append_assoc, List.take_left]
      constructor
      · intro hp
        have hmem := htaken p hp
        rw [hsplit] at hmem
        rcases List.mem_append.mp hmem with hmem | hmem
        · exact hmem
        · rw [List.mem_singleton.mp hmem] at hp
          exact absurd hp hq
      · exact hacked p

end Sink

/-- The records that a server keeps of the texts that it gets. -/
def receive (texts : List Str) : List Record :=
  Repeats.once Record.packetNumber (texts.filterMap readRecord)

variable {boost : Boost} {stationId spacecraftId : Int} {h : List (Sink × Sink.Event)} {s : Sink}

/-- The packets are numbered from 0 on, in the order in which they come.  A server that
has heard some of what has been written, and each acknowledged packet at least once, keeps
the records of the packets with room in the FIFO, each once and in order, up to at most 32
that are on the way. -/
theorem heard_once {heard : List Packet} (hboost : boost.Documented)
    (run : Sink.Run boost stationId spacecraftId h s) (hheard : heard.Sublist s.worker.written)
    (hacked : ∀ p ∈ s.worker.acked, p ∈ heard) :
    (h.filterMap (Sink.offered stationId spacecraftId)).map (fun o => o.1.packetNumber) =
        (List.range s.packetCounter).map Int.ofNat ∧
      ∃ rest, Sink.admitted stationId spacecraftId h =
          receive (heard.map fun p => p.storage.str) ++ rest ∧
        rest.length ≤ 32 ∧
        s.worker.acked.length ≤ (receive (heard.map fun p => p.storage.str)).length := by
  refine ⟨run.numbered, ?_⟩
  obtain ⟨n, hfirst, hle, hrest, hmem⟩ := run.heard_first hheard hacked
  have hrecords := run.records hboost
  have hlength : (Sink.admitted stationId spacecraftId h).length = s.worker.accepted.length := by
    have hlengths := congrArg List.length hrecords
    rw [List.length_map, List.length_map] at hlengths
    exact hlengths.symm
  have hkept : receive (heard.map fun p => p.storage.str) =
      (Sink.admitted stationId spacecraftId h).take n := by
    refine Repeats.once_eq ?_ (run.admitted_pairwise.sublist (List.take_sublist _ _)) ?_
    · rw [List.pairwise_filterMap, List.pairwise_map]
      refine (run.under.repeated.ordered.sublist hheard).imp_of_mem fun {p q} hp hq hseq => ?_
      intro r hr r' hr'
      have haccepted : ∀ p ∈ heard, p ∈ s.worker.accepted := fun p hp =>
        List.mem_of_mem_take ((hmem p).mp hp)
      have hat := run.record_at hboost (haccepted p hp) hr
      have hat' := run.record_at hboost (haccepted q hq) hr'
      rcases Nat.eq_or_lt_of_le hseq with hsame | hlt
      · rw [hsame, hat'] at hat
        rw [Option.some.inj hat]
      · obtain ⟨hi, hr⟩ := List.getElem?_eq_some_iff.mp hat
        obtain ⟨hj, hr'⟩ := List.getElem?_eq_some_iff.mp hat'
        rw [← hr, ← hr']
        exact le_of_lt (List.pairwise_iff_getElem.mp run.admitted_pairwise _ _ hi hj hlt)
    · intro r
      have htexts : r ∈ (heard.map fun p => p.storage.str).filterMap readRecord ↔
          ∃ p ∈ s.worker.accepted.take n, readRecord p.storage.str = some r := by
        rw [List.filterMap_map, List.mem_filterMap]
        exact exists_congr fun p => and_congr_left' (hmem p)
      rw [htexts, ← List.mem_map (f := fun p : Packet => readRecord p.storage.str),
        List.map_take, hrecords, ← List.map_take, List.mem_map]
      simp
  refine ⟨(Sink.admitted stationId spacecraftId h).drop n, ?_, ?_, ?_⟩
  · rw [hkept, List.take_append_drop]
  · rw [List.length_drop]
    omega
  · rw [hkept, List.length_take]
    omega

/-- The connection is lost with the first of two packets.  The server hears it when it is
written again. -/
theorem heard_once_reconnected :
    ∃ r, Transition.exec (Sink.step documentedBoost 1 (-5)) Sink.initial
        [.call .enter, .call (.connect true), .message 1700000000000 [0x12],
          .message 1700000000001 [0x34], .call .pass, .call (.write true), .call (.read false),
          .call .wake, .call .pass, .call (.connect true), .call (.write true),
          .call (.read true)] = some r ∧
      r.2.worker.written.length = 2 ∧
      (r.1.filterMap (Sink.offered 1 (-5))).map (fun o => o.1.packetNumber) =
          (List.range r.2.packetCounter).map Int.ofNat ∧
        ∃ rest, Sink.admitted 1 (-5) r.1 =
            receive ((r.2.worker.written.drop 1).map fun p => p.storage.str) ++ rest ∧
          rest.length ≤ 32 ∧
          r.2.worker.acked.length ≤
            (receive ((r.2.worker.written.drop 1).map fun p => p.storage.str)).length := by
  obtain ⟨r, hr, hlength, hacked⟩ :
      ∃ r, Transition.exec (Sink.step documentedBoost 1 (-5)) Sink.initial
          [.call .enter, .call (.connect true), .message 1700000000000 [0x12],
            .message 1700000000001 [0x34], .call .pass, .call (.write true),
            .call (.read false), .call .wake, .call .pass, .call (.connect true),
            .call (.write true), .call (.read true)] = some r ∧
        r.2.worker.written.length = 2 ∧ r.2.worker.acked = r.2.worker.written.drop 1 :=
    ⟨_, rfl, rfl, rfl⟩
  refine ⟨r, hr, hlength, heard_once documentedBoost_documented (Transition.exec_run hr)
    (List.drop_sublist _ _) fun p hp => ?_⟩
  rw [← hacked]
  exact hp

end WebSocketSink

end GsSDR
