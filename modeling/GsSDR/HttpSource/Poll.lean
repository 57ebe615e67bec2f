import GsSDR.HttpSource.Decode
import GsSDR.Lib.Runs

/-!
# The polling loop of the HTTP source

One iteration of `http_transfer_source_wait` asks the server, parses the answer
into the record variables, acknowledges a complete telecommand, and behind the
catch handlers decodes and publishes what the variables then hold.  Both
handlers only clear `server_connected`, so an exception leaves the variables as
far as they have been assigned.

The property tree is boost's.  `PropertyTree` has what the code asks of it:
`read_json`, which may throw, on an array of flat records, and the two
conversions of a field, which may throw.

`State` adds to the variables what the iterations have received and sent.  The
records received since the last reset are kept as far as they were read
(`window`), because these are what the variables are made of.
-/

namespace GsSDR

namespace HttpSource

open Cxx

/-- A property of a record: its name and its data. -/
abbrev Property := Str × Str

/-- A flat record: its properties in the order of the text. -/
abbrev Record := List Property

/-- The operations of `boost::property_tree` that the loop uses.  `none` is an
exception. -/
structure PropertyTree where
  /-- `read_json`: the children of each element of the array. -/
  readJson : Str → Option (List Record)
  /-- `get_value<int64_t>`. -/
  getInt64 : Str → Option Int
  /-- `get_value<int>`. -/
  getInt : Str → Option Int

/-- What the network does in an iteration.  A call that is not made leaves its
field without effect. -/
structure Poll where
  /-- `connect` returns. -/
  connect : Bool
  /-- The `http::write` of the request returns. -/
  writeGet : Bool
  /-- The body that `http::read` returns, if it does. -/
  readGet : Option Str
  /-- The `http::write` of the acknowledgement returns. -/
  writeAck : Bool
  /-- The `http::read` of the answer to it returns. -/
  readAck : Bool
deriving DecidableEq, Repr

/-- A poll without failures. -/
def Poll.succeeding (body : Str) : Poll := ⟨true, true, some body, true, true⟩

/-- The arguments of `create_json_response`. -/
structure Ack where
  timestamp : Int
  spacecraftId : Int
deriving DecidableEq, Repr

/-- The telecommand that a PDU carries. -/
def Pdu.ack (pdu : Pdu) : Ack := ⟨pdu.timestamp, pdu.spacecraftId⟩

/-- The variables of the worker. -/
structure Worker where
  serverConnected : Bool
  vars : RecordVars
deriving DecidableEq, Repr

/-- The names of the properties that the loop looks for. -/
def typeKey : Str := ['t', 'y', 'p', 'e']
def timestampKey : Str := ['t', 'i', 'm', 'e', 's', 't', 'a', 'm', 'p']
def payloadKey : Str := ['p', 'a', 'y', 'l', 'o', 'a', 'd']
def spacecraftIdKey : Str := ['s', 'p', 'a', 'c', 'e', 'c', 'r', 'a', 'f', 't', 'I', 'd']
def radioIdKey : Str := ['r', 'a', 'd', 'i', 'o', 'I', 'd']

variable (tree : PropertyTree)

/-- The five tests on a property.  The names differ, so at most one assigns.
`none` is an exception of its conversion. -/
def assignProperty (v : RecordVars) (p : Property) : Option RecordVars :=
  if p.1 = typeKey then some { v with packetType := p.2 }
  else if p.1 = timestampKey then
    (tree.getInt64 p.2).map fun t => { v with timestamp := t }
  else if p.1 = payloadKey then some { v with packetPayload := p.2 }
  else if p.1 = spacecraftIdKey then
    (tree.getInt p.2).map fun n => { v with spacecraftId := n }
  else if p.1 = radioIdKey then (tree.getInt p.2).map fun n => { v with radioId := n }
  else some v

/-- The inner loop: the variables where it ends, and whether it ends without an
exception. -/
def assignProperties (v : RecordVars) : List Property → RecordVars × Bool
  | [] => (v, true)
  | p :: ps =>
      match assignProperty tree v p with
      | none => (v, false)
      | some v' => assignProperties v' ps

/-- The outer loop. -/
def assignRecords (v : RecordVars) : List Record → RecordVars × Bool
  | [] => (v, true)
  | r :: rs =>
      match assignProperties tree v r with
      | (v', false) => (v', false)
      | (v', true) => assignRecords v' rs

/-- What the loop gets to see of an answer. -/
inductive Answer where
  /-- An exception comes first. -/
  | threw
  /-- The body is taken for one without a packet. -/
  | noPacket
  /-- The body is parsed. -/
  | packets (records : List Record)
deriving DecidableEq, Repr

/-- From the connection to `read_json`. -/
def answer (w : Worker) (poll : Poll) : Answer :=
  if !(w.serverConnected || poll.connect) then .threw
  else if !poll.writeGet then .threw
  else
    match poll.readGet with
    | none => .threw
    | some s =>
        if contains ['[', ']'] s || s.length ≤ 2 then .noPacket
        else
          match tree.readJson s with
          | none => .threw
          | some records => .packets records

/-- The acknowledgement: those that `http::write` has taken, and whether it ends
without an exception. -/
def acknowledge (v : RecordVars) (poll : Poll) : List Ack × Bool :=
  if v.complete then
    if poll.writeAck then ([⟨v.timestamp, v.spacecraftId⟩], poll.readAck) else ([], false)
  else ([], true)

/-- The `try` block: the variables and the acknowledgements it leaves, and
whether it ends without an exception. -/
def tryBlock (w : Worker) (poll : Poll) : RecordVars × List Ack × Bool :=
  match answer tree w poll with
  | .threw => (w.vars, [], false)
  | .noPacket => (w.vars, [], true)
  | .packets records =>
      match assignRecords tree w.vars records with
      | (v, false) => (v, [], false)
      | (v, true) => (v, acknowledge v poll)

/-- What an iteration has sent, and the worker after it unless the process has ended
in the publish block. -/
structure Outcome where
  acks : List Ack
  published : List Pdu
  next : Option Worker
deriving DecidableEq, Repr

/-- One iteration of the polling loop. -/
def iteration (w : Worker) (poll : Poll) : Outcome :=
  let r := tryBlock tree w poll
  match publish r.1 with
  | none => ⟨r.2.1, [], none⟩
  | some (pdus, v) => ⟨r.2.1, pdus, some ⟨r.2.2, v⟩⟩

/-! ## Runs -/

/-- The properties that a conversion accepts. -/
def converts (p : Property) : Bool :=
  if p.1 = timestampKey then (tree.getInt64 p.2).isSome
  else if p.1 = spacecraftIdKey ∨ p.1 = radioIdKey then (tree.getInt p.2).isSome
  else true

/-- A record as far as it was read, and whether that is all of it. -/
structure ReadRecord where
  properties : Record
  whole : Bool
deriving DecidableEq, Repr

/-- What the two loops read of the records. -/
def readRecords : List Record → List ReadRecord
  | [] => []
  | r :: rs =>
      if r.all (converts tree) then ⟨r, true⟩ :: readRecords rs
      else [⟨r.takeWhile (converts tree), false⟩]

/-- What the two loops read of an answer. -/
def Answer.read : Answer → List ReadRecord
  | .packets records => readRecords tree records
  | _ => []

/-- The worker, with the record of the run. -/
structure State where
  /-- `none` when the process has ended in the publish block. -/
  worker : Option Worker
  acks : List Ack
  published : List Pdu
  /-- What was read of all records. -/
  received : List ReadRecord
  /-- What was read since the variables were last reset. -/
  window : List ReadRecord
deriving DecidableEq, Repr

/-- The state at the top of the loop for the first time, with the outcome of the
connection before it. -/
def initial (connected : Bool) : State where
  worker := some ⟨connected, .reset⟩
  acks := []
  published := []
  received := []
  window := []

/-- One iteration in a run. -/
def step (s : State) (poll : Poll) : Option State :=
  s.worker.map fun w =>
    let out := iteration tree w poll
    let read := (answer tree w poll).read tree
    { worker := out.next
      acks := s.acks ++ out.acks
      published := s.published ++ out.published
      received := s.received ++ read
      window := if (tryBlock tree w poll).1.complete then [] else s.window ++ read }

/-- The runs of the worker from its first iteration. -/
abbrev Run (connected : Bool) (h : List (State × Poll)) (s : State) : Prop :=
  Transition.Run (step tree) (initial connected) h s

/-! ## Texts of records -/

/-- A string without quotes and backslashes as JSON. -/
def jsonString (s : Str) : Str := '"' :: s ++ ['"']

/-- The text of an array of flat records. -/
def jsonText (records : List Record) : Str :=
  let members := fun r : Record =>
    (r.map fun p => jsonString p.1 ++ ':' :: jsonString p.2).intersperse [',']
  let objects := records.map fun r => '\x7b' :: (members r).flatten ++ ['\x7d']
  '[' :: (objects.intersperse [',']).flatten ++ [']']

/-- Reads the texts of these arrays and unsigned numbers. -/
def PropertyTree.ofTexts (arrays : List (List Record)) : PropertyTree where
  readJson s := arrays.find? fun records => jsonText records == s
  getInt64 := decimal
  getInt := decimal

/-- A telecommand without a radioId. -/
def telecommandRecord : Record :=
  [(typeKey, ['T', 'C']), (timestampKey, ['5']), (spacecraftIdKey, ['4', '2']),
    (payloadKey, ['0', 'x', '0', '1', 'A', 'B'])]

example : jsonText [[(typeKey, ['T', 'M'])], []] =
    ['[', '\x7b', '"', 't', 'y', 'p', 'e', '"', ':', '"', 'T', 'M', '"', '\x7d', ',', '\x7b', '\x7d',
      ']'] := rfl

/-- A poll that is answered with this array, without failures. -/
def Poll.answered (records : List Record) : Poll := .succeeding (jsonText records)

end HttpSource

end GsSDR
