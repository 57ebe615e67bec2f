import GsSDR.HttpSink.Worker

/-!
# The worker of the WebSocket sink

`packet_handler` puts records into `m_fifo`, as in the HTTP sink.  The worker
thread (`websocket_transfer_sink_wait`) takes them out one by one.  Each is
written to the connection and a message is read back.  While there is no
connection the FIFO is not read, and every pass tries to connect and then sends
what `buffer_write_storage` still holds.

A connection attempt is the resolution, the connection and the handshake, any of
which may throw.  The handlers clear `websocket_connected`, and those of the
`for` loop are inside it.
-/

namespace GsSDR

namespace WebSocketSink

open HttpSink (Packet writeBufferSize fifoSize)

/-- The call that the worker makes next. -/
inductive Pc where
  | entry
  | firstConnect
  | loopTop
  | reconnect
  | write (i : Nat)
  | read (i : Nat)
  | sleep
  | returned
deriving DecidableEq, Repr

/-- The block: the program's variables, then the record of the run. -/
structure State where
  fifo : FifoBuffer Packet
  exitRequested : Bool
  pc : Pc
  bufferWriteStorage : List Packet
  niutputItemsReal : Nat
  websocketConnected : Bool
  /-- The packets that `m_fifo` has accepted. -/
  accepted : List Packet
  /-- The packets that have been read out of `m_fifo`. -/
  taken : List Packet
  /-- The packets given to `ws.write`, returned or not. -/
  written : List Packet
  /-- The packets for which `ws.write` and then `ws.read` have returned. -/
  acked : List Packet

/-- What happens next, with the outcome of the worker's call. -/
inductive Event where
  | packetHandler (storage : GrStorageWeb)
  | threadTransferDeInit
  | enter
  | connect (ok : Bool)
  | pass
  | write (ok : Bool)
  | read (ok : Bool)
  | wake
deriving DecidableEq, Repr

theorem fifoSize_pos : 1 ≤ fifoSize := by decide

theorem fifoSize_lt : fifoSize < 2 ^ 31 := by decide

/-- The constructor, up to the start of the worker. -/
def initial : State where
  fifo := .changeSize fifoSize fifoSize_pos fifoSize_lt
  exitRequested := false
  pc := .entry
  bufferWriteStorage := List.replicate writeBufferSize default
  niutputItemsReal := 0
  websocketConnected := false
  accepted := []
  taken := []
  written := []
  acked := []

/-- The end of `packet_handler`. -/
def packetHandler (s : State) (storage : GrStorageWeb) : State :=
  let p : Packet := ⟨s.accepted.length, storage⟩
  let r := s.fifo.write [p]
  { s with
    fifo := r.2
    accepted := if r.1 = 1 then s.accepted ++ [p] else s.accepted }

/-- The test of the `for` loop with this index. -/
def forTest (s : State) (i : Nat) : Pc := if i < s.niutputItemsReal then .write i else .sleep

/-- The `if` in front of the loop. -/
def sendTest (s : State) : Pc :=
  if s.websocketConnected ∧ 0 < s.niutputItemsReal then forTest s 0 else .sleep

/-- `fifo_read_storage` for one record. -/
def readFifo (s : State) : State :=
  let r := s.fifo.read 1
  { s with
    fifo := r.2.2
    bufferWriteStorage := r.2.1 ++ s.bufferWriteStorage.drop r.1
    niutputItemsReal := r.1
    taken := s.taken ++ r.2.1 }

/-- The top of the loop, up to a connection attempt. -/
def beginPass (s : State) : State :=
  if s.websocketConnected then { readFifo s with pc := sendTest (readFifo s) }
  else { s with pc := .reconnect }

/-- A connection attempt in the loop. -/
def reconnect (s : State) (ok : Bool) : State :=
  let s := { s with websocketConnected := ok }
  { s with pc := sendTest s }

/-- The handlers in the `for` loop. -/
def dropConnection (s : State) (i : Nat) : State :=
  { s with pc := forTest s (i + 1), websocketConnected := false }

/-- The test of `m_exit_requested`, which leaves the loop. -/
def exitTest (s : State) (next : Pc) : Pc := if s.exitRequested then .returned else next

/-- One step of the block. -/
def step (s : State) (e : Event) : Option State :=
  match e, s.pc with
  | .packetHandler storage, _ => some (packetHandler s storage)
  | .threadTransferDeInit, _ => some { s with exitRequested := true }
  | .enter, .entry => some { s with pc := exitTest s .firstConnect }
  | .connect ok, .firstConnect => some { s with pc := .loopTop, websocketConnected := ok }
  | .pass, .loopTop => some (beginPass s)
  | .connect ok, .reconnect => some (reconnect s ok)
  | .write ok, .write i =>
      (s.bufferWriteStorage[i]?).map fun p =>
        let s := { s with written := s.written ++ [p] }
        if ok then { s with pc := .read i } else dropConnection s i
  | .read ok, .read i =>
      (s.bufferWriteStorage[i]?).map fun p =>
        if ok then { s with pc := forTest s (i + 1), acked := s.acked ++ [p] }
        else dropConnection s i
  | .wake, .sleep => some { s with pc := exitTest s .loopTop }
  | _, _ => none

/-- The runs of the block from its construction. -/
abbrev Run (h : List (State × Event)) (s : State) : Prop := Transition.Run step initial h s

/-! ## What a step does -/

/-- The steps, one constructor for each thing they can do. -/
inductive Step : State → Event → State → Prop where
  | packetHandler {s : State} {storage : GrStorageWeb} :
      Step s (.packetHandler storage) (packetHandler s storage)
  | stop {s : State} : Step s .threadTransferDeInit { s with exitRequested := true }
  | enter {s : State} : s.pc = .entry → Step s .enter { s with pc := exitTest s .firstConnect }
  | firstConnect {s : State} {ok : Bool} :
      s.pc = .firstConnect →
      Step s (.connect ok) { s with pc := .loopTop, websocketConnected := ok }
  | pass {s : State} : s.pc = .loopTop → Step s .pass (beginPass s)
  | reconnect {s : State} {ok : Bool} : s.pc = .reconnect → Step s (.connect ok) (reconnect s ok)
  | written {s : State} {i : Nat} {p : Packet} :
      s.pc = .write i → s.bufferWriteStorage[i]? = some p →
      Step s (.write true) { s with pc := .read i, written := s.written ++ [p] }
  | writeThrew {s : State} {i : Nat} {p : Packet} :
      s.pc = .write i → s.bufferWriteStorage[i]? = some p →
      Step s (.write false) (dropConnection { s with written := s.written ++ [p] } i)
  | acked {s : State} {i : Nat} {p : Packet} :
      s.pc = .read i → s.bufferWriteStorage[i]? = some p →
      Step s (.read true) { s with pc := forTest s (i + 1), acked := s.acked ++ [p] }
  | readThrew {s : State} {i : Nat} {p : Packet} :
      s.pc = .read i → s.bufferWriteStorage[i]? = some p →
      Step s (.read false) (dropConnection s i)
  | wake {s : State} : s.pc = .sleep → Step s .wake { s with pc := exitTest s .loopTop }

/-- A step does nothing that `Step` does not list. -/
theorem step_sound {s t : State} {e : Event} (h : step s e = some t) : Step s e t := by
  simp only [step] at h
  split at h
  next => cases h; exact .packetHandler
  next => cases h; exact .stop
  next hpc => cases h; exact .enter hpc
  next hpc => cases h; exact .firstConnect hpc
  next hpc => cases h; exact .pass hpc
  next hpc => cases h; exact .reconnect hpc
  next ok i hpc =>
    obtain ⟨p, hp, rfl⟩ := Option.map_eq_some_iff.mp h
    cases ok with
    | true => exact .written hpc hp
    | false => exact .writeThrew hpc hp
  next ok i hpc =>
    obtain ⟨p, hp, rfl⟩ := Option.map_eq_some_iff.mp h
    cases ok with
    | true => exact .acked hpc hp
    | false => exact .readThrew hpc hp
  next hpc => cases h; exact .wake hpc
  next => cases h

end WebSocketSink

end GsSDR
