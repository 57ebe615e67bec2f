import GsSDR.Lib.CxxText

/-!
# A client session of the Doppler server

`handle_read` takes all bytes received so far as one command.  It looks at the
first character, takes the frequencies out of the rest, and answers.  A text
that it does not recognise is not answered, and then nothing reads from the
session again.

`boost::lexical_cast<int>` is a parameter, and `none` is its exception.  What a
text does is its frequency fields and its reply: `handleRead_eq`.
-/

namespace GsSDR

namespace Doppler

open Cxx

/-- `CONST_GPREDICT_SOURCE` and `CONST_GSJD_SOURCE`. -/
inductive SourceType where
  | gpredict
  | gsjd
deriving DecidableEq, Repr

/-- The variables of a session. -/
structure Session where
  newFreq : Bool
  freqRx : Int
  freqTx : Int
deriving DecidableEq, Repr

/-- The variables of a new session. -/
def Session.new : Session := ⟨false, 0, 0⟩

/-- `boost::algorithm::trim`. -/
def trim (s : Str) : Str := ((s.dropWhile isspace).reverse.dropWhile isspace).reverse

variable (lexicalCast : Str → Option Int)

/-- The `try` block that converts an RX frequency. -/
def Session.castRx (session : Session) (text : Str) : Session :=
  match lexicalCast text with
  | none => session
  | some freqRx =>
      if freqRx ≠ session.freqRx then { session with freqRx := freqRx, newFreq := true }
      else session

/-- The `try` block that converts a TX frequency. -/
def Session.castTx (session : Session) (text : Str) : Session :=
  match lexicalCast text with
  | none => session
  | some freqTx =>
      if freqTx ≠ session.freqTx then { session with freqTx := freqTx, newFreq := true }
      else session

/-- A GPREDICT command without its letter and its newlines. -/
def gpredictField (s : Str) : Str := trim ((s.drop 1).filter fun c => c ≠ '\n')

/-- A GSJD command without its letter and its leading zeros. -/
def gsjdField (s : Str) : Str := trim ((s.drop 1).dropWhile fun c => c = '0')

def okReply : Str := ['O', 'K', '\n']

def rprtReply : Str := ['R', 'P', 'R', 'T', ' ', '0', '\n']

def freqReply (freqRx : Int) : Str := ['f', ':'] ++ toStr freqRx ++ ['\n']

/-- The branch for GPREDICT.  Without a reply the handler has returned. -/
def Session.readGpredict (session : Session) (s : Str) : Session × Option Str :=
  if startsWith ['F'] s then (session.castRx lexicalCast (gpredictField s), some rprtReply)
  else if startsWith ['f'] s then (session, some (freqReply session.freqRx))
  else (session, none)

/-- The branch for GSJD.  A TX command alone converts `prefix_tx`, which is
empty there. -/
def Session.readGsjd (session : Session) (s : Str) : Session × Option Str :=
  if startsWith ['f'] s then
    if contains ['F'] s then
      let prefixTx := substr s (s.idxOf 'F') (s.length - 1)
      let prefixRx := substr s 0 (s.idxOf 'F')
      ((session.castTx lexicalCast (gsjdField prefixTx)).castRx lexicalCast
        (gsjdField prefixRx), some okReply)
    else (session.castRx lexicalCast (gsjdField s), some okReply)
  else if startsWith ['F'] s then (session.castTx lexicalCast [], some okReply)
  else if startsWith ['M'] s then (session, some okReply)
  else (session, none)

/-- `handle_read` without an error and without a stop. -/
def Session.handleRead (sourceType : SourceType) (session : Session) (s : Str) :
    Session × Option Str :=
  let session := { session with newFreq := false }
  match sourceType with
  | .gpredict => session.readGpredict lexicalCast s
  | .gsjd => session.readGsjd lexicalCast s

/-! ## What a text says -/

/-- The text that is converted to an RX frequency. -/
def rxField (sourceType : SourceType) (s : Str) : Option Str :=
  match sourceType with
  | .gpredict => if startsWith ['F'] s then some (gpredictField s) else none
  | .gsjd =>
      if startsWith ['f'] s then
        some (gsjdField (if contains ['F'] s then substr s 0 (s.idxOf 'F') else s))
      else none

/-- The text that is converted to a TX frequency. -/
def txField (sourceType : SourceType) (s : Str) : Option Str :=
  match sourceType with
  | .gpredict => none
  | .gsjd =>
      if startsWith ['f'] s then
        if contains ['F'] s then some (gsjdField (substr s (s.idxOf 'F') (s.length - 1)))
        else none
      else if startsWith ['F'] s then some []
      else none

/-- The reply, by the RX frequency behind the conversion. -/
def replyTo (sourceType : SourceType) (freqRx : Int) (s : Str) : Option Str :=
  match sourceType with
  | .gpredict =>
      if startsWith ['F'] s then some rprtReply
      else if startsWith ['f'] s then some (freqReply freqRx)
      else none
  | .gsjd =>
      if startsWith ['f'] s || startsWith ['F'] s || startsWith ['M'] s then some okReply
      else none

/-- The RX frequency that a text sets. -/
def rxValue (sourceType : SourceType) (s : Str) : Option Int :=
  (rxField sourceType s).bind lexicalCast

/-- The TX frequency that a text sets. -/
def txValue (sourceType : SourceType) (s : Str) : Option Int :=
  (txField sourceType s).bind lexicalCast

/-- The session behind a text. -/
def Session.after (sourceType : SourceType) (session : Session) (s : Str) : Session :=
  let freqRx := (rxValue lexicalCast sourceType s).getD session.freqRx
  let freqTx := (txValue lexicalCast sourceType s).getD session.freqTx
  ⟨freqRx != session.freqRx || freqTx != session.freqTx, freqRx, freqTx⟩

variable {lexicalCast} {sourceType : SourceType}

theorem castRx_eq (session : Session) (text : Str) :
    session.castRx lexicalCast text =
      { session with
        freqRx := (lexicalCast text).getD session.freqRx
        newFreq :=
          session.newFreq || (lexicalCast text).getD session.freqRx != session.freqRx } := by
  rw [Session.castRx]
  cases lexicalCast text with
  | none => simp
  | some n =>
      by_cases hn : n = session.freqRx
      · simp [hn]
      · simp [hn]

theorem castTx_eq (session : Session) (text : Str) :
    session.castTx lexicalCast text =
      { session with
        freqTx := (lexicalCast text).getD session.freqTx
        newFreq :=
          session.newFreq || (lexicalCast text).getD session.freqTx != session.freqTx } := by
  rw [Session.castTx]
  cases lexicalCast text with
  | none => simp
  | some n =>
      by_cases hn : n = session.freqTx
      · simp [hn]
      · simp [hn]

/-- `handle_read` sets what the fields convert to, notes whether that is new,
and replies. -/
theorem handleRead_eq (session : Session) (s : Str) :
    session.handleRead lexicalCast sourceType s =
      (session.after lexicalCast sourceType s,
        replyTo sourceType (session.after lexicalCast sourceType s).freqRx s) := by
  rw [Session.after]
  cases sourceType with
  | gpredict =>
      simp only [Session.handleRead, Session.readGpredict, rxValue, txValue, rxField, txField,
        replyTo, castRx_eq]
      cases hF : startsWith ['F'] s with
      | true => simp
      | false => cases hf : startsWith ['f'] s <;> simp
  | gsjd =>
      simp only [Session.handleRead, Session.readGsjd, rxValue, txValue, rxField, txField,
        replyTo, castRx_eq, castTx_eq]
      cases hf : startsWith ['f'] s with
      | true =>
          cases hc : contains ['F'] s with
          | true => simp [Bool.or_comm]
          | false => simp
      | false =>
          cases hF : startsWith ['F'] s with
          | true => simp
          | false => cases hM : startsWith ['M'] s <;> simp

/-- A combined command sets both frequencies, and a TX command alone none. -/
example : Session.new.handleRead decimal .gsjd ['f', '0', '1', 'F', '0', '2', '\n'] =
    (⟨true, 1, 2⟩, some okReply) := rfl

example : Session.new.handleRead decimal .gsjd ['F', '0', '2', '\n'] =
    (⟨false, 0, 0⟩, some okReply) := rfl

end Doppler

end GsSDR
