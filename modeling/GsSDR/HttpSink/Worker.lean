import GsSDR.FifoBuffer
import GsSDR.Lib.Runs

/-!
# The worker of the HTTP sink

`packet_handler` puts records into `m_fifo`.  The worker thread
(`http_transfer_sink_wait`) takes up to ten of them into
`buffer_write_storage`, connects, posts them one after the other and reads an
answer to each.  Any of these calls may throw.  Both handlers only print, so an
exception ends the pass and leaves every variable as it is.

The worker reads the FIFO at the start of a pass only if `data_sent_success` is
set.  The flag starts set and is written after each answer: set for status 200,
cleared for another one.

A machine step is one call of the worker, or one call into the block from
another thread between two of them.  `Step` lists what a step can do and
`step_sound` says that it does nothing else.  The fields after
`dataSentSuccess` record what has happened; the program has no such variables.
-/

namespace GsSDR

/-- `gr_storage_web`. -/
structure GrStorageWeb where
  flag : Int
  str : List Char
deriving DecidableEq, Repr, Inhabited

namespace HttpSink

/-- `CONST_WRITE_BUFFER_SIZE`. -/
def writeBufferSize : Nat := 10

/-- The size that the constructor gives `m_fifo`. -/
def fifoSize : Nat := 32

/-- A record in the FIFO, with its place in the order of acceptance. -/
structure Packet where
  seq : Nat
  storage : GrStorageWeb
deriving DecidableEq, Repr, Inhabited

/-- The call that the worker makes next. -/
inductive Pc where
  | entry
  | loopTop
  | connect
  | write (i : Nat)
  | read (i : Nat)
  | shutdown
  | sleep
  | returned
deriving DecidableEq, Repr

/-- The worker is inside the `try` block. -/
def Pc.sending : Pc → Bool
  | .connect | .write _ | .read _ | .shutdown => true
  | _ => false

/-- What passes over the connection. -/
inductive Exchange where
  /-- `http::write` is called with this packet. -/
  | post (p : Packet)
  /-- `http::read` returns the answer to this packet. -/
  | answer (p : Packet) (status : Nat)
deriving DecidableEq, Repr

/-- The block: the program's variables, then the record of the run. -/
structure State where
  fifo : FifoBuffer Packet
  exitRequested : Bool
  pc : Pc
  bufferWriteStorage : List Packet
  niutputItemsReal : Nat
  dataSentSuccess : Bool
  /-- The packets that `m_fifo` has accepted. -/
  accepted : List Packet
  /-- The packets that have been read out of `m_fifo`. -/
  taken : List Packet
  /-- Everything sent and answered. -/
  log : List Exchange
  /-- The batch was read from the FIFO at the start of this pass. -/
  fresh : Bool
  /-- The answers that this pass has got. -/
  statuses : List Nat

/-- `buffer_write_storage[0 .. niutput_items_real)`. -/
def State.batch (s : State) : List Packet := s.bufferWriteStorage.take s.niutputItemsReal

/-- What happens next, with the outcome of the worker's call. -/
inductive Event where
  | packetHandler (storage : GrStorageWeb)
  | threadTransferDeInit
  | enter
  | pass
  | connect (ok : Bool)
  | write (ok : Bool)
  | read (status : Option Nat)
  | shutdown (ok : Bool)
  | wake
deriving DecidableEq, Repr

/-- The constructor, up to the start of the worker. -/
def initial : State where
  fifo := .changeSize fifoSize (by decide) (by decide)
  exitRequested := false
  pc := .entry
  bufferWriteStorage := List.replicate writeBufferSize default
  niutputItemsReal := 0
  dataSentSuccess := true
  accepted := []
  taken := []
  log := []
  fresh := true
  statuses := []

/-- The end of `packet_handler`. -/
def packetHandler (s : State) (storage : GrStorageWeb) : State :=
  let p : Packet := ⟨s.accepted.length, storage⟩
  let r := s.fifo.write [p]
  { s with
    fifo := r.2
    accepted := if r.1 = 1 then s.accepted ++ [p] else s.accepted }

/-- The two `if`s at the top of the loop. -/
def beginPass (s : State) : State :=
  if s.dataSentSuccess then
    let r := s.fifo.read writeBufferSize
    { s with
      fifo := r.2.2
      pc := if 0 < r.1 then .connect else .sleep
      bufferWriteStorage := r.2.1 ++ s.bufferWriteStorage.drop r.1
      niutputItemsReal := r.1
      taken := s.taken ++ r.2.1
      fresh := true
      statuses := [] }
  else
    { s with
      pc := if 0 < s.niutputItemsReal then .connect else .sleep
      fresh := false
      statuses := [] }

/-- The test of the `for` loop with this index. -/
def forTest (s : State) (i : Nat) : Pc :=
  if i < s.niutputItemsReal then .write i else .shutdown

/-- The body of the `for` loop after `http::read` has returned. -/
def readAnswer (s : State) (i : Nat) (p : Packet) (status : Nat) : State :=
  { s with
    pc := forTest s (i + 1)
    dataSentSuccess := status == 200
    log := s.log ++ [.answer p status]
    statuses := s.statuses ++ [status] }

/-- The test of `m_exit_requested`, which leaves the thread. -/
def exitTest (s : State) : Pc := if s.exitRequested then .returned else .loopTop

/-- One step of the block.  An exception goes on behind the handlers, with the
sleep. -/
def step (s : State) (e : Event) : Option State :=
  match e, s.pc with
  | .packetHandler storage, _ => some (packetHandler s storage)
  | .threadTransferDeInit, _ => some { s with exitRequested := true }
  | .enter, .entry => some { s with pc := exitTest s }
  | .pass, .loopTop => some (beginPass s)
  | .connect true, .connect => some { s with pc := forTest s 0 }
  | .connect false, .connect => some { s with pc := .sleep }
  | .write ok, .write i =>
      (s.bufferWriteStorage[i]?).map fun p =>
        { s with pc := if ok then .read i else .sleep, log := s.log ++ [.post p] }
  | .read (some status), .read i =>
      (s.bufferWriteStorage[i]?).map fun p => readAnswer s i p status
  | .read none, .read _ => some { s with pc := .sleep }
  | .shutdown _, .shutdown => some { s with pc := .sleep }
  | .wake, .sleep => some { s with pc := exitTest s }
  | _, _ => none

/-- The runs of the block from its construction. -/
abbrev Run (h : List (State × Event)) (s : State) : Prop := Transition.Run step initial h s

/-! ## What a step does -/

/-- The events that end a pass which has reached the `try` block: an exception,
or the end of the block. -/
def Event.endsAttempt : Event → Bool
  | .connect false | .write false | .read none | .shutdown _ => true
  | _ => false

/-- The steps, one constructor for each thing they can do. -/
inductive Step : State → Event → State → Prop where
  | packetHandler (s : State) (storage : GrStorageWeb) :
      Step s (.packetHandler storage) (packetHandler s storage)
  | stop (s : State) : Step s .threadTransferDeInit { s with exitRequested := true }
  | enter (s : State) : s.pc = .entry → Step s .enter { s with pc := exitTest s }
  | pass (s : State) : s.pc = .loopTop → Step s .pass (beginPass s)
  | connected (s : State) :
      s.pc = .connect → Step s (.connect true) { s with pc := forTest s 0 }
  | posted (s : State) (i : Nat) (p : Packet) :
      s.pc = .write i → s.bufferWriteStorage[i]? = some p →
      Step s (.write true) { s with pc := .read i, log := s.log ++ [.post p] }
  | answered (s : State) (i : Nat) (p : Packet) (status : Nat) :
      s.pc = .read i → s.bufferWriteStorage[i]? = some p →
      Step s (.read (some status)) (readAnswer s i p status)
  | writeThrew (s : State) (i : Nat) (p : Packet) :
      s.pc = .write i → s.bufferWriteStorage[i]? = some p →
      Step s (.write false) { s with pc := .sleep, log := s.log ++ [.post p] }
  | ended (s : State) (e : Event) :
      s.pc.sending = true → e.endsAttempt = true → e ≠ .write false →
      Step s e { s with pc := .sleep }
  | wake (s : State) : s.pc = .sleep → Step s .wake { s with pc := exitTest s }

/-- A step does nothing that `Step` does not list. -/
theorem step_sound {s t : State} {e : Event} (h : step s e = some t) : Step s e t := by
  simp only [step] at h
  split at h
  next => cases h; exact .packetHandler _ _
  next => cases h; exact .stop _
  next hpc => cases h; exact .enter _ hpc
  next hpc => cases h; exact .pass _ hpc
  next hpc => cases h; exact .connected _ hpc
  next hpc => cases h; exact .ended _ _ (by rw [hpc]; rfl) rfl (by simp)
  next ok i hpc =>
    obtain ⟨p, hp, rfl⟩ := Option.map_eq_some_iff.mp h
    cases ok with
    | true => exact .posted _ i p hpc hp
    | false => exact .writeThrew _ i p hpc hp
  next status i hpc =>
    obtain ⟨p, hp, rfl⟩ := Option.map_eq_some_iff.mp h
    exact .answered _ i p status hpc hp
  next hpc => cases h; exact .ended _ _ (by rw [hpc]; rfl) rfl (by simp)
  next hpc => cases h; exact .ended _ _ (by rw [hpc]; rfl) rfl (by simp)
  next hpc => cases h; exact .wake _ hpc
  next => cases h

end HttpSink

end GsSDR
