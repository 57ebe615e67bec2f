import GsSDR.HttpSource.Invariant

/-!
# The thread of the HTTP source

All of `http_transfer_source_wait`, one call at a time, with the flag
`m_exit_requested` that its loop tests.  An iteration that a poll describes is here
the calls from the top of the loop to the test of the flag.

The flag is a static member.  So the constructor of any other block of this class
clears it and the stop of any other block sets it, at any time.  The stop of the
block itself takes the mutex first, which the thread holds from the test of the flag
to the end of the sleep behind it, or until it has returned.

The look-up of the server and the publish block are outside of the `try` blocks, so
an exception there ends the process, as does a write through an empty vector
(`terminated`).
-/

namespace GsSDR

namespace HttpSource

open Cxx

/-- The call that the thread makes next. -/
inductive Pc where
  /-- The test of the flag before the loop. -/
  | entry
  | resolve
  /-- `connect` before the loop. -/
  | connectFirst
  /-- `connect` in the loop. -/
  | connect
  | writeGet
  | readGet
  | writeAck
  | readAck
  /-- The test of the flag at the end of the loop. -/
  | exitTest
  | shutdown
  | sleep
  | returned
  | terminated
deriving DecidableEq, Repr

/-- The thread holds the mutex. -/
def Pc.locked : Pc → Bool
  | .shutdown | .sleep => true
  | _ => false

/-- The thread and the flag, and what the thread has sent. -/
structure Thread where
  pc : Pc
  exitRequested : Bool
  worker : Worker
  /-- The requests for packets that `http::write` has taken. -/
  requests : Nat
  acks : List Ack
  published : List Pdu
deriving DecidableEq, Repr

/-- A call of the thread with its outcome, or what others do. -/
inductive Event where
  | enter
  | resolve (ok : Bool)
  | connect (ok : Bool)
  | writeGet (ok : Bool)
  | readGet (body : Option Str)
  | writeAck (ok : Bool)
  | readAck (ok : Bool)
  | testExit
  | shutdown (ok : Bool)
  | wake
  /-- The stop of the block. -/
  | threadTransferDeInit
  /-- The stop of another block. -/
  | stopOther
  /-- The constructor of another block. -/
  | makeOther
deriving DecidableEq, Repr

namespace Thread

/-- The constructor, up to the start of the thread. -/
def initial : Thread where
  pc := .entry
  exitRequested := false
  worker := ⟨true, .reset⟩
  requests := 0
  acks := []
  published := []

/-- The top of the loop. -/
def top (s : Thread) : Thread :=
  { s with pc := if s.worker.serverConnected then .writeGet else .connect }

/-- The end of the `try` block, with or without an exception, and the publish
block. -/
def endTry (s : Thread) (ok : Bool) : Thread :=
  match publish s.worker.vars with
  | none => { s with pc := .terminated }
  | some (pdus, v) =>
      { s with pc := .exitTest, worker := ⟨ok, v⟩, published := s.published ++ pdus }

/-- What the `try` block does with an answer. -/
def readBody (tree : PropertyTree) (s : Thread) (body : Str) : Thread :=
  if contains ['[', ']'] body || body.length ≤ 2 then s.endTry true
  else
    match tree.readJson body with
    | none => s.endTry false
    | some records =>
        let r := assignRecords tree s.worker.vars records
        let t : Thread := { s with worker := ⟨s.worker.serverConnected, r.1⟩ }
        if !r.2 then t.endTry false
        else if r.1.complete then { t with pc := .writeAck }
        else t.endTry true

/-- One step of the thread or of others. -/
def step (tree : PropertyTree) (s : Thread) (e : Event) : Option Thread :=
  match e, s.pc with
  | .enter, .entry => some { s with pc := if s.exitRequested then .returned else .resolve }
  | .resolve ok, .resolve => some { s with pc := if ok then .connectFirst else .terminated }
  | .connect ok, .connectFirst => some { s with worker := ⟨ok, s.worker.vars⟩ }.top
  | .connect true, .connect => some { s with worker := ⟨true, s.worker.vars⟩ }.top
  | .connect false, .connect => some (s.endTry false)
  | .writeGet true, .writeGet => some { s with pc := .readGet, requests := s.requests + 1 }
  | .writeGet false, .writeGet => some (s.endTry false)
  | .readGet (some body), .readGet => some (s.readBody tree body)
  | .readGet none, .readGet => some (s.endTry false)
  | .writeAck true, .writeAck =>
      some
        { s with
          pc := .readAck
          acks := s.acks ++ [⟨s.worker.vars.timestamp, s.worker.vars.spacecraftId⟩] }
  | .writeAck false, .writeAck => some (s.endTry false)
  | .readAck ok, .readAck => some (s.endTry ok)
  | .testExit, .exitTest =>
      some
        { s with
          pc :=
            if s.exitRequested then
              if s.worker.serverConnected then .shutdown else .returned
            else .sleep }
  | .shutdown _, .shutdown => some { s with pc := .returned }
  | .wake, .sleep => some s.top
  | .threadTransferDeInit, pc => if pc.locked then none else some { s with exitRequested := true }
  | .stopOther, _ => some { s with exitRequested := true }
  | .makeOther, _ => some { s with exitRequested := false }
  | _, _ => none

/-- The runs of the thread from the construction of the block. -/
abbrev Run (tree : PropertyTree) (h : List (Thread × Event)) (s : Thread) : Prop :=
  Transition.Run (step tree) initial h s

/-! ## What a step does -/

/-- The steps, one constructor for each thing they can do.  All exceptions in the `try`
block but those of a conversion are one. -/
inductive Step (tree : PropertyTree) : Thread → Event → Thread → Prop where
  | stop (s : Thread) (e : Event) :
      e = .threadTransferDeInit ∧ s.pc.locked = false ∨ e = .stopOther →
      Step tree s e { s with exitRequested := true }
  | make (s : Thread) : Step tree s .makeOther { s with exitRequested := false }
  | enter (s : Thread) :
      s.pc = .entry →
      Step tree s .enter { s with pc := if s.exitRequested then .returned else .resolve }
  | resolve (s : Thread) (ok : Bool) :
      s.pc = .resolve →
      Step tree s (.resolve ok) { s with pc := if ok then .connectFirst else .terminated }
  | connectFirst (s : Thread) (ok : Bool) :
      s.pc = .connectFirst →
      Step tree s (.connect ok) { s with worker := ⟨ok, s.worker.vars⟩ }.top
  | connected (s : Thread) :
      s.pc = .connect →
      Step tree s (.connect true) { s with pc := .writeGet, worker := ⟨true, s.worker.vars⟩ }
  | requested (s : Thread) :
      s.pc = .writeGet →
      Step tree s (.writeGet true) { s with pc := .readGet, requests := s.requests + 1 }
  | answered (s : Thread) (body : Str) :
      s.pc = .readGet → Step tree s (.readGet (some body)) (s.readBody tree body)
  | acked (s : Thread) :
      s.pc = .writeAck →
      Step tree s (.writeAck true)
        { s with
          pc := .readAck
          acks := s.acks ++ [⟨s.worker.vars.timestamp, s.worker.vars.spacecraftId⟩] }
  | ended (s : Thread) (ok : Bool) :
      s.pc = .readAck → Step tree s (.readAck ok) (s.endTry ok)
  | threw (s : Thread) (e : Event) :
      s.pc = .connect ∧ e = .connect false ∨ s.pc = .writeGet ∧ e = .writeGet false ∨
        s.pc = .readGet ∧ e = .readGet none ∨ s.pc = .writeAck ∧ e = .writeAck false →
      Step tree s e (s.endTry false)
  | testExit (s : Thread) :
      s.pc = .exitTest →
      Step tree s .testExit
        { s with
          pc :=
            if s.exitRequested then
              if s.worker.serverConnected then .shutdown else .returned
            else .sleep }
  | shutdown (s : Thread) (ok : Bool) :
      s.pc = .shutdown → Step tree s (.shutdown ok) { s with pc := .returned }
  | wake (s : Thread) : s.pc = .sleep → Step tree s .wake s.top

variable {tree : PropertyTree} {s t : Thread} {e : Event}

/-- A step does nothing that `Step` does not list. -/
theorem step_sound (h : step tree s e = some t) : Step tree s e t := by
  simp only [step] at h
  split at h
  next hpc => cases h; exact .enter _ hpc
  next hpc => cases h; exact .resolve _ _ hpc
  next hpc => cases h; exact .connectFirst _ _ hpc
  next hpc => cases h; exact .connected _ hpc
  next hpc => cases h; exact .threw _ _ (.inl ⟨hpc, rfl⟩)
  next hpc => cases h; exact .requested _ hpc
  next hpc => cases h; exact .threw _ _ (.inr (.inl ⟨hpc, rfl⟩))
  next hpc => cases h; exact .answered _ _ hpc
  next hpc => cases h; exact .threw _ _ (.inr (.inr (.inl ⟨hpc, rfl⟩)))
  next hpc => cases h; exact .acked _ hpc
  next hpc => cases h; exact .threw _ _ (.inr (.inr (.inr ⟨hpc, rfl⟩)))
  next hpc => cases h; exact .ended _ _ hpc
  next hpc => cases h; exact .testExit _ hpc
  next hpc => cases h; exact .shutdown _ _ hpc
  next hpc => cases h; exact .wake _ hpc
  next =>
    split at h
    next => cases h
    next hlocked => cases h; exact .stop _ _ (.inl ⟨rfl, by simpa using hlocked⟩)
  next => cases h; exact .stop _ _ (.inr rfl)
  next => cases h; exact .make _
  next => cases h

end Thread

end HttpSource

end GsSDR
