import GsSDR.Doppler.Session
import GsSDR.Lib.Runs

/-!
# The Doppler server as its event loop

`io_service::run` calls one handler after the other.  A state has the
operations that are outstanding: the accept, a read or a write of a session,
the timer of a session, and the timer of the server.  An event is the completion
of one of them, with its outcome, or the request to stop.

`expires_from_now` and the deletion of a session cancel a wait.  The handler of
a cancelled wait is still called, soon and with an error it does not look at.
After a deletion it runs on a freed session, and is taken to test the flag and
stop the loop as before.

`message_callback` publishes a correction for each of the two frequencies on its
port.  The float arithmetic of the correction is a parameter.
-/

namespace GsSDR

namespace Doppler

open Cxx

/-- The asynchronous operations of a session's socket. -/
inductive Op where
  | read
  | write
deriving DecidableEq, Repr

/-- An accepted session that has not been deleted. -/
structure Client where
  id : Nat
  session : Session
  timerArmed : Bool
  /-- The frequencies before the last command. -/
  before : Int × Int
  /-- The RX frequency that the last command has set. -/
  setRx : Option Int
deriving DecidableEq, Repr

/-- The session behind a command. -/
def Client.command (lexicalCast : Str → Option Int) (sourceType : SourceType) (c : Client)
    (text : Str) : Client :=
  { c with
    session := (c.session.handleRead lexicalCast sourceType text).1
    before := (c.session.freqRx, c.session.freqTx)
    setRx := rxValue lexicalCast sourceType text }

/-- The event loop: the objects and the outstanding operations, then what the
block has published. -/
structure State (β : Type*) where
  clients : List Client
  outstanding : List (Nat × Op)
  /-- Cancelled waits whose handlers have not been called. -/
  cancelled : Nat
  accepting : Bool
  timerArmed : Bool
  count : Nat
  exitRequested : Bool
  stopped : Bool
  nextId : Nat
  outRx : List β
  outTx : List β
deriving Repr

/-- What is called next. -/
inductive Event where
  | accept (ok : Bool)
  | read (id : Nat) (result : Option Str)
  | write (id : Nat) (ok : Bool)
  | sessionTimeout (id : Nat)
  | serverTimeout
  | cancelled
  | threadTransferDeInit
deriving DecidableEq, Repr

variable {β : Type*}

namespace State

/-- Replace the session of the same id. -/
def setClient (s : State β) (c : Client) : State β :=
  { s with clients := s.clients.map fun d => if d.id = c.id then c else d }

/-- An operation is started. -/
def begin (s : State β) (id : Nat) (op : Op) : State β :=
  { s with outstanding := (id, op) :: s.outstanding }

/-- An operation has completed. -/
def complete (s : State β) (id : Nat) (op : Op) : State β :=
  { s with outstanding := s.outstanding.erase (id, op) }

/-- `io_service_.stop()`. -/
def halt (s : State β) : State β := { s with stopped := true }

/-- `server_session::start`. -/
def start (s : State β) (c : Client) : State β :=
  { s.setClient { c with timerArmed := true } with
    cancelled := s.cancelled + c.timerArmed.toNat }.begin c.id .read

/-- `server_session::handle_timeout`. -/
def sessionTimeout (s : State β) (c : Client) : State β :=
  -- the timer is not armed again
  let s := s.setClient { c with timerArmed := false }
  if s.exitRequested then s.halt else s

/-- `decrement_active_connection` and `delete this`. -/
def release (s : State β) (c : Client) : State β :=
  -- the guard against an underflow is the subtraction of naturals
  { s with
    clients := s.clients.filter fun d => d.id ≠ c.id
    cancelled := s.cancelled + c.timerArmed.toNat
    count := s.count - 1 }

/-- `server_session::handle_read`. -/
def handleRead (lexicalCast : Str → Option Int) (sourceType : SourceType) (s : State β)
    (c : Client) (result : Option Str) : State β :=
  if s.exitRequested then
    (s.setClient { c with session := { c.session with newFreq := false } }).halt
  else
    match result with
    | none => s.release c
    | some text =>
        let s := s.setClient (c.command lexicalCast sourceType text)
        match (c.session.handleRead lexicalCast sourceType text).2 with
        -- the handler returns and starts nothing
        | none => s
        | some _ => s.begin c.id .write

/-- `message_callback`. -/
def messageCallback (correction : Int → β) (s : State β) (freqRx freqTx : Int) : State β :=
  { s with
    outRx := s.outRx ++ [correction freqRx]
    outTx := s.outTx ++ [correction freqTx] }

/-- The publication in `handle_write`. -/
def setNewFreq (correction : Int → β) (s : State β) (session : Session) : State β :=
  if session.newFreq then s.messageCallback correction session.freqRx session.freqTx else s

/-- `server_session::handle_write`. -/
def handleWrite (correction : Int → β) (s : State β) (c : Client) (ok : Bool) : State β :=
  if s.exitRequested then s.halt
  else if ok then (s.setNewFreq correction c.session).start c
  else (s.setNewFreq correction c.session).release c

/-- `server::handle_timeout`. -/
def serverTimeout (s : State β) : State β :=
  -- with a session counted, the timer is not armed again
  if 0 < s.count then { s with timerArmed := false }
  else if s.exitRequested then { s with timerArmed := false }.halt
  else { s with timerArmed := true }

/-- `server::handle_accept`. -/
def handleAccept (s : State β) (ok : Bool) : State β :=
  if ok then
    -- the next accept is started at once
    let c : Client := ⟨s.nextId, .new, false, (0, 0), none⟩
    { s with clients := s.clients ++ [c], count := s.count + 1, nextId := s.nextId + 1 }.start c
  else { s with accepting := false }

/-- The handler of a cancelled wait of a session. -/
def cancelledTimeout (s : State β) : State β :=
  let s := { s with cancelled := s.cancelled - 1 }
  if s.exitRequested then s.halt else s

/-- The flag that `threadTransferDeInit` sets, in another thread. -/
def threadTransferDeInit (s : State β) : State β := { s with exitRequested := true }

/-- The session of this id. -/
def client? (s : State β) (id : Nat) : Option Client := s.clients.find? fun c => c.id == id

end State

/-- The correction for a base frequency, without rounding. -/
def exactCorrection (baseFrequency freq : Int) : Int := baseFrequency - freq

/-- `server::server`, at the call of `run`. -/
def initial : State β where
  clients := []
  outstanding := []
  cancelled := 0
  accepting := true
  timerArmed := true
  count := 0
  exitRequested := false
  stopped := false
  nextId := 0
  outRx := []
  outTx := []

variable (lexicalCast : Str → Option Int) (sourceType : SourceType) (correction : Int → β)

/-- A completion that the loop can deliver.  A read completes when a newline has
been received. -/
def Ready (s : State β) : Event → Prop
  | .accept _ => s.accepting = true
  | .read id result => (id, .read) ∈ s.outstanding ∧ ∀ text ∈ result, '\n' ∈ text
  | .write id _ => (id, .write) ∈ s.outstanding
  | .sessionTimeout id => ∃ c ∈ s.clients, c.id = id ∧ c.timerArmed = true
  | .serverTimeout => s.timerArmed = true
  | .cancelled => 0 < s.cancelled
  | .threadTransferDeInit => True

instance (s : State β) : (e : Event) → Decidable (Ready s e)
  | .accept _ => inferInstanceAs (Decidable (_ = _))
  | .read _ _ => inferInstanceAs (Decidable (_ ∧ _))
  | .write _ _ => inferInstanceAs (Decidable (_ ∈ _))
  | .sessionTimeout _ => inferInstanceAs (Decidable (∃ c ∈ _, _))
  | .serverTimeout => inferInstanceAs (Decidable (_ = _))
  | .cancelled => inferInstanceAs (Decidable (_ < _))
  | .threadTransferDeInit => inferInstanceAs (Decidable True)

/-- One turn of the loop. -/
def step (s : State β) (e : Event) : Option (State β) :=
  if s.stopped = false ∧ Ready s e then
    match e with
    | .accept ok => some (s.handleAccept ok)
    | .read id result =>
        (s.client? id).map fun c =>
          (s.complete id .read).handleRead lexicalCast sourceType c result
    | .write id ok =>
        (s.client? id).map fun c => (s.complete id .write).handleWrite correction c ok
    | .sessionTimeout id => (s.client? id).map s.sessionTimeout
    | .serverTimeout => some s.serverTimeout
    | .cancelled => some s.cancelledTimeout
    | .threadTransferDeInit => some s.threadTransferDeInit
  else none

/-- The runs of the server from its construction. -/
abbrev Run (h : List (State β × Event)) (s : State β) : Prop :=
  Transition.Run (step lexicalCast sourceType correction) initial h s

/-! ## What a turn does -/

/-- The turns, one constructor for each kind of completion. -/
inductive Step : State β → Event → State β → Prop where
  | accepted {s : State β} {ok : Bool} :
      s.stopped = false → s.accepting = true → Step s (.accept ok) (s.handleAccept ok)
  | read {s : State β} {c : Client} {result : Option Str} :
      s.stopped = false → c ∈ s.clients → (c.id, .read) ∈ s.outstanding →
      Step s (.read c.id result)
        ((s.complete c.id .read).handleRead lexicalCast sourceType c result)
  | written {s : State β} {c : Client} {ok : Bool} :
      s.stopped = false → c ∈ s.clients → (c.id, .write) ∈ s.outstanding →
      Step s (.write c.id ok) ((s.complete c.id .write).handleWrite correction c ok)
  | sessionTimeout {s : State β} {c : Client} :
      s.stopped = false → c ∈ s.clients →
      (∃ d ∈ s.clients, d.id = c.id ∧ d.timerArmed = true) →
      Step s (.sessionTimeout c.id) (s.sessionTimeout c)
  | serverTimeout {s : State β} :
      s.stopped = false → s.timerArmed = true → Step s .serverTimeout s.serverTimeout
  | cancelled {s : State β} :
      s.stopped = false → 0 < s.cancelled → Step s .cancelled s.cancelledTimeout
  | threadTransferDeInit {s : State β} :
      s.stopped = false → Step s .threadTransferDeInit s.threadTransferDeInit

variable {lexicalCast} {sourceType} {correction}

/-- All that `handle_read` can do. -/
theorem handleRead_cases (s : State β) (c : Client) (result : Option Str) :
    (s.exitRequested = true ∧ ∃ d, d.id = c.id ∧
      s.handleRead lexicalCast sourceType c result = (s.setClient d).halt) ∨
    (s.exitRequested = false ∧ result = none ∧
      s.handleRead lexicalCast sourceType c result = s.release c) ∨
    (s.exitRequested = false ∧ ∃ text, result = some text ∧
      (s.handleRead lexicalCast sourceType c result =
          s.setClient (c.command lexicalCast sourceType text) ∨
        s.handleRead lexicalCast sourceType c result =
          (s.setClient (c.command lexicalCast sourceType text)).begin c.id .write)) := by
  by_cases hexit : s.exitRequested = true
  · refine .inl ⟨hexit, _, ?_, if_pos hexit⟩
    rfl
  · have hno : s.exitRequested = false := by simpa using hexit
    refine .inr ?_
    cases result with
    | none => exact .inl ⟨hno, rfl, if_neg hexit⟩
    | some text =>
        refine .inr ⟨hno, text, rfl, ?_⟩
        simp only [State.handleRead, if_neg hexit]
        cases (c.session.handleRead lexicalCast sourceType text).2 with
        | none => exact .inl rfl
        | some reply => exact .inr rfl

/-- All that `handle_write` can do.  A publication changes nothing but the
ports. -/
theorem handleWrite_cases (s : State β) (c : Client) (ok : Bool) :
    (s.exitRequested = true ∧ s.handleWrite correction c ok = s.halt) ∨
    (s.exitRequested = false ∧ ∃ outRx outTx,
      (ok = true ∧ s.handleWrite correction c ok =
          { s with outRx := outRx, outTx := outTx }.start c) ∨
        (ok = false ∧ s.handleWrite correction c ok =
          { s with outRx := outRx, outTx := outTx }.release c)) := by
  by_cases hexit : s.exitRequested = true
  · exact .inl ⟨hexit, if_pos hexit⟩
  · obtain ⟨outRx, outTx, hpublished⟩ : ∃ outRx outTx,
        s.setNewFreq correction c.session = { s with outRx := outRx, outTx := outTx } := by
      rw [State.setNewFreq]
      split
      next => exact ⟨_, _, rfl⟩
      next => exact ⟨_, _, rfl⟩
    refine .inr ⟨by simpa using hexit, outRx, outTx, ?_⟩
    rw [State.handleWrite, if_neg hexit, hpublished]
    cases ok with
    | true => exact .inl ⟨rfl, if_pos rfl⟩
    | false => exact .inr ⟨rfl, if_neg Bool.false_ne_true⟩

/-- All that the handlers of the timers can do. -/
theorem sessionTimeout_cases (s : State β) (c : Client) :
    (s.exitRequested = true ∧
      s.sessionTimeout c = (s.setClient { c with timerArmed := false }).halt) ∨
    (s.exitRequested = false ∧
      s.sessionTimeout c = s.setClient { c with timerArmed := false }) := by
  by_cases hexit : s.exitRequested = true
  · exact .inl ⟨hexit, if_pos hexit⟩
  · exact .inr ⟨by simpa using hexit, if_neg hexit⟩

theorem serverTimeout_cases (s : State β) :
    (0 < s.count ∧ s.serverTimeout = { s with timerArmed := false }) ∨
    (s.count = 0 ∧ s.exitRequested = true ∧
      s.serverTimeout = { s with timerArmed := false }.halt) ∨
    (s.count = 0 ∧ s.exitRequested = false ∧ s.serverTimeout = { s with timerArmed := true }) := by
  rw [State.serverTimeout]
  rcases Nat.eq_zero_or_pos s.count with hzero | hpos
  · rw [if_neg (by simp [hzero])]
    by_cases hexit : s.exitRequested = true
    · exact .inr (.inl ⟨hzero, hexit, if_pos hexit⟩)
    · exact .inr (.inr ⟨hzero, by simpa using hexit, if_neg hexit⟩)
  · exact .inl ⟨hpos, if_pos hpos⟩

theorem cancelledTimeout_cases (s : State β) :
    (s.exitRequested = true ∧
      s.cancelledTimeout = { s with cancelled := s.cancelled - 1 }.halt) ∨
    (s.exitRequested = false ∧ s.cancelledTimeout = { s with cancelled := s.cancelled - 1 }) := by
  by_cases hexit : s.exitRequested = true
  · exact .inl ⟨hexit, if_pos hexit⟩
  · exact .inr ⟨by simpa using hexit, if_neg hexit⟩

/-- The handlers of the timers change no more than the timer and whether the loop
goes on. -/
theorem sessionTimeout_eq (s : State β) (c : Client) :
    ∃ stopped, s.sessionTimeout c =
      { s.setClient { c with timerArmed := false } with stopped := stopped } := by
  rcases sessionTimeout_cases s c with ⟨_, htimeout⟩ | ⟨_, htimeout⟩
  · exact ⟨true, htimeout⟩
  · exact ⟨s.stopped, htimeout⟩

theorem serverTimeout_eq (s : State β) :
    ∃ armed stopped, s.serverTimeout = { s with timerArmed := armed, stopped := stopped } := by
  rcases serverTimeout_cases s with ⟨_, htimeout⟩ | ⟨_, _, htimeout⟩ | ⟨_, _, htimeout⟩
  · exact ⟨false, s.stopped, htimeout⟩
  · exact ⟨false, true, htimeout⟩
  · exact ⟨true, s.stopped, htimeout⟩

theorem cancelledTimeout_eq (s : State β) :
    ∃ stopped, s.cancelledTimeout =
      { s with cancelled := s.cancelled - 1, stopped := stopped } := by
  rcases cancelledTimeout_cases s with ⟨_, htimeout⟩ | ⟨_, htimeout⟩
  · exact ⟨true, htimeout⟩
  · exact ⟨s.stopped, htimeout⟩

theorem client?_some {s : State β} {id : Nat} {c : Client} (h : s.client? id = some c) :
    c ∈ s.clients ∧ c.id = id :=
  ⟨List.mem_of_find?_eq_some h, by simpa using List.find?_some h⟩

/-- The loop does nothing that `Step` does not list. -/
theorem step_sound {s t : State β} {e : Event}
    (h : step lexicalCast sourceType correction s e = some t) :
    Step lexicalCast sourceType correction s e t := by
  simp only [step] at h
  split at h
  next hready =>
    obtain ⟨hstopped, hready⟩ := hready
    cases e with
    | accept ok =>
        cases h
        exact .accepted hstopped hready
    | read id result =>
        obtain ⟨c, hc, rfl⟩ := Option.map_eq_some_iff.mp h
        obtain ⟨hmem, rfl⟩ := client?_some hc
        exact .read hstopped hmem hready.1
    | write id ok =>
        obtain ⟨c, hc, rfl⟩ := Option.map_eq_some_iff.mp h
        obtain ⟨hmem, rfl⟩ := client?_some hc
        exact .written hstopped hmem hready
    | sessionTimeout id =>
        obtain ⟨c, hc, rfl⟩ := Option.map_eq_some_iff.mp h
        obtain ⟨hmem, rfl⟩ := client?_some hc
        exact .sessionTimeout hstopped hmem hready
    | serverTimeout =>
        cases h
        exact .serverTimeout hstopped hready
    | cancelled =>
        cases h
        exact .cancelled hstopped hready
    | threadTransferDeInit =>
        cases h
        exact .threadTransferDeInit hstopped
  next => cases h

end Doppler

end GsSDR
