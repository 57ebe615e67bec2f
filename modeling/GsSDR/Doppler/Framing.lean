import GsSDR.Doppler.Session
import GsSDR.Lib.Lines

/-!
# How a stream of commands is cut into completions

`async_read_until` completes when a newline has been received, and the handler
drains the buffer.  So a completion may hold several lines, or a line and the
start of the next one, and is still taken as one command.  It is answered at
most once.  So a client gets one answer for each of its lines only if there are
as many completions as lines, hence one newline in each.

A GPREDICT command has its letters only at its start, so the completions are the
lines then.  A GSJD line may be cut in front of its TX part, which the completion
before swallows or which starts a completion of its own.  So there the
frequencies that the completions set have to be compared with those of the
lines.
-/

namespace GsSDR

namespace Doppler

open Cxx

/-- A command line of a protocol. -/
inductive CommandLine : SourceType → Str → Prop where
  | set {n : Str} :
      (∀ c ∈ n, c ≠ 'F' ∧ c ≠ 'f' ∧ c ≠ '\n') →
      CommandLine .gpredict (['F'] ++ n ++ ['\n'])
  | get : CommandLine .gpredict (['f'] ++ ['\n'])
  | rx {rx : Str} : '\n' ∉ rx → CommandLine .gsjd (['f'] ++ rx ++ ['\n'])
  | rxTx {rx tx : Str} :
      '\n' ∉ rx → '\n' ∉ tx → CommandLine .gsjd (['f'] ++ rx ++ ['F'] ++ tx ++ ['\n'])
  | tx {tx : Str} : '\n' ∉ tx → CommandLine .gsjd (['F'] ++ tx ++ ['\n'])
  | state {s : Str} : '\n' ∉ s → CommandLine .gsjd (['M'] ++ s ++ ['\n'])

/-- The lines arrive in these completions, each with a newline. -/
def CutInto (lines completions : List Str) : Prop :=
  completions.flatten = lines.flatten ∧ ∀ c ∈ completions, '\n' ∈ c

variable (lexicalCast : Str → Option Int) (sourceType : SourceType)

/-- The session after these completions, and its replies.  Nothing reads behind
a completion that is not answered. -/
def serve (session : Session) : List Str → Session × List Str
  | [] => (session, [])
  | c :: cs =>
      match session.handleRead lexicalCast sourceType c with
      | (next, none) => (next, [])
      | (next, some reply) => ((serve next cs).1, reply :: (serve next cs).2)

/-- The same frequencies and the same replies. -/
def SameOutcome (a b : Session × List Str) : Prop :=
  a.1.freqRx = b.1.freqRx ∧ a.1.freqTx = b.1.freqTx ∧ a.2 = b.2

/-- The handler answers this text. -/
def Recognised (s : Str) : Prop := (replyTo sourceType 0 s).isSome

/-- The last of the values, or `old` if there is none. -/
def lastValue (value : Str → Option Int) (old : Int) (texts : List Str) : Int :=
  ((texts.filterMap value).getLast?).getD old

/-- The completions do for the session what the lines do. -/
def Framed (session : Session) (lines completions : List Str) : Prop :=
  match sourceType with
  | .gpredict => completions = lines
  | .gsjd =>
      (∀ c ∈ completions, c.count '\n' = 1 ∧ Recognised .gsjd c) ∧
      lastValue (rxValue lexicalCast .gsjd) session.freqRx completions =
        lastValue (rxValue lexicalCast .gsjd) session.freqRx lines ∧
      lastValue (txValue lexicalCast .gsjd) session.freqTx completions =
        lastValue (txValue lexicalCast .gsjd) session.freqTx lines

variable {lexicalCast} {sourceType} {session : Session} {lines completions : List Str} {s : Str}

/-! ## Lines -/

theorem CommandLine.isLine (h : CommandLine sourceType s) : Lines.IsLine '\n' s := by
  cases h with
  | set hn => exact ⟨_, by simpa using fun hmem => (hn _ hmem).2.2 rfl, rfl⟩
  | get => exact ⟨['f'], by simp, rfl⟩
  | rx hrx => exact ⟨_, by simpa using hrx, rfl⟩
  | rxTx hrx htx => exact ⟨_, by simpa using ⟨hrx, htx⟩, rfl⟩
  | tx htx => exact ⟨_, by simpa using htx, rfl⟩
  | state hs => exact ⟨_, by simpa using hs, rfl⟩

theorem CommandLine.recognised (h : CommandLine sourceType s) : Recognised sourceType s := by
  cases h <;> rfl

/-- The letters of a GPREDICT command are at its start only. -/
theorem CommandLine.startsOnce (h : CommandLine .gpredict s) :
    Lines.StartsOnce (fun c => c = 'F' ∨ c = 'f') s := by
  cases h with
  | @set n hn =>
      refine ⟨'F', n ++ ['\n'], rfl, ?_⟩
      intro c hc
      rcases List.mem_append.mp hc with hc | hc
      · exact not_or.mpr ⟨(hn c hc).1, (hn c hc).2.1⟩
      · rw [List.mem_singleton.mp hc]
        simp
  | get =>
      refine ⟨'f', ['\n'], rfl, ?_⟩
      intro c hc
      rw [List.mem_singleton.mp hc]
      simp

theorem Recognised.gpredict (h : Recognised .gpredict s) :
    ∃ c cs, s = c :: cs ∧ (c = 'F' ∨ c = 'f') := by
  cases s with
  | nil => cases h
  | cons c cs =>
      refine ⟨c, cs, rfl, ?_⟩
      by_contra hc
      obtain ⟨hF, hf⟩ := not_or.mp hc
      simp [Recognised, replyTo, startsWith, Ne.symm hF, Ne.symm hf] at h

/-! ## Completions -/

theorem replyTo_isSome (freqRx : Int) (s : Str) :
    (replyTo sourceType freqRx s).isSome ↔ Recognised sourceType s := by
  cases sourceType with
  | gpredict =>
      simp only [Recognised, replyTo]
      cases startsWith ['F'] s with
      | true => rfl
      | false => cases startsWith ['f'] s <;> rfl
  | gsjd => rfl

theorem lastValue_cons (value : Str → Option Int) (old : Int) (c : Str) (cs : List Str) :
    lastValue value old (c :: cs) = lastValue value ((value c).getD old) cs := by
  rw [lastValue, lastValue]
  cases hv : value c with
  | none => rw [List.filterMap_cons_none hv, Option.getD_none]
  | some n =>
      rw [List.filterMap_cons_some hv, List.getLast?_cons, Option.getD_some, Option.getD_some]

theorem serve_cons_none {c : Str} (cs : List Str) (hc : ¬ Recognised sourceType c) :
    serve lexicalCast sourceType session (c :: cs) =
      (session.after lexicalCast sourceType c, []) := by
  rw [← replyTo_isSome (session.after lexicalCast sourceType c).freqRx,
    Option.not_isSome_iff_eq_none] at hc
  rw [serve, handleRead_eq, hc]

theorem serve_cons_some {c : Str} (cs : List Str) (hc : Recognised sourceType c) :
    ∃ reply, replyTo sourceType (session.after lexicalCast sourceType c).freqRx c = some reply ∧
      serve lexicalCast sourceType session (c :: cs) =
        (let r := serve lexicalCast sourceType (session.after lexicalCast sourceType c) cs
         (r.1, reply :: r.2)) := by
  obtain ⟨reply, hr⟩ := Option.isSome_iff_exists.mp ((replyTo_isSome _ c).mpr hc)
  refine ⟨reply, hr, ?_⟩
  rw [serve, handleRead_eq, hr]

/-- There is at most one reply to a completion, and one to each exactly when all
are recognised. -/
theorem serve_length (lexicalCast : Str → Option Int) (session : Session) (cs : List Str) :
    (serve lexicalCast sourceType session cs).2.length ≤ cs.length ∧
      ((serve lexicalCast sourceType session cs).2.length = cs.length ↔
        ∀ c ∈ cs, Recognised sourceType c) := by
  induction cs generalizing session with
  | nil => exact ⟨Nat.le_refl _, by simp [serve]⟩
  | cons c cs ih =>
      by_cases hc : Recognised sourceType c
      · obtain ⟨reply, _, hserve⟩ := serve_cons_some cs hc
        obtain ⟨hle, heq⟩ := ih (session.after lexicalCast sourceType c)
        rw [hserve]
        constructor
        · exact Nat.succ_le_succ hle
        · rw [List.length_cons, List.length_cons, Nat.succ_inj, heq, List.forall_mem_cons]
          exact (and_iff_right hc).symm
      · rw [serve_cons_none cs hc]
        constructor
        · exact Nat.zero_le _
        · constructor
          · intro hlength
            cases hlength
          · intro hall
            exact absurd (hall c (List.mem_cons_self ..)) hc

/-- Recognised completions set the last frequencies that they name. -/
theorem serve_freq (lexicalCast : Str → Option Int) (session : Session) (cs : List Str)
    (hcs : ∀ c ∈ cs, Recognised sourceType c) :
    (serve lexicalCast sourceType session cs).1.freqRx =
        lastValue (rxValue lexicalCast sourceType) session.freqRx cs ∧
      (serve lexicalCast sourceType session cs).1.freqTx =
        lastValue (txValue lexicalCast sourceType) session.freqTx cs := by
  induction cs generalizing session with
  | nil => exact ⟨rfl, rfl⟩
  | cons c cs ih =>
      obtain ⟨hc, hcs⟩ := List.forall_mem_cons.mp hcs
      obtain ⟨reply, _, hserve⟩ := serve_cons_some cs hc
      rw [hserve, lastValue_cons, lastValue_cons]
      exact ih (session.after lexicalCast sourceType c) hcs

/-- All replies of GSJD are the same. -/
theorem serve_replies_gsjd (session : Session) (cs : List Str)
    (hcs : ∀ c ∈ cs, Recognised .gsjd c) :
    (serve lexicalCast .gsjd session cs).2 = List.replicate cs.length okReply := by
  induction cs generalizing session with
  | nil => rfl
  | cons c cs ih =>
      obtain ⟨hc, hcs⟩ := List.forall_mem_cons.mp hcs
      obtain ⟨reply, hr, hserve⟩ := serve_cons_some cs hc
      have hok : reply = okReply := by
        rw [replyTo] at hr
        split at hr
        next => exact (Option.some.inj hr).symm
        next => cases hr
      rw [hserve, hok]
      show okReply :: (serve lexicalCast .gsjd _ cs).2 = _
      rw [ih _ hcs]
      rfl

/-- Completions that are answered as often as the lines are as many as these,
and all recognised. -/
theorem completions_of_replies (hlines : ∀ l ∈ lines, CommandLine sourceType l)
    (hcut : CutInto lines completions)
    (hreplies : (serve lexicalCast sourceType session completions).2 =
      (serve lexicalCast sourceType session lines).2) :
    completions.length = lines.length ∧ ∀ c ∈ completions, Recognised sourceType c := by
  have hle := Lines.blocks_le_lines (fun l hl => (hlines l hl).isLine) hcut.2 hcut.1
  obtain ⟨hcount, hall⟩ := serve_length lexicalCast session completions
  have hanswered := (serve_length lexicalCast session lines).2.mpr
    fun l hl => (hlines l hl).recognised
  rw [hreplies, hanswered] at hcount hall
  have hlength := Nat.le_antisymm hle hcount
  exact ⟨hlength, hall.mp hlength.symm⟩

/-- Completions lead to the outcome of the lines exactly when they are framed as
the lines. -/
theorem framing_iff (hlines : ∀ l ∈ lines, CommandLine sourceType l)
    (hcut : CutInto lines completions) :
    SameOutcome (serve lexicalCast sourceType session completions)
        (serve lexicalCast sourceType session lines) ↔
      Framed lexicalCast sourceType session lines completions := by
  have hisLine := fun l hl => (hlines l hl).isLine
  have hone := Lines.count_eq_one hisLine hcut.2 hcut.1
  cases sourceType with
  | gpredict =>
      constructor
      · rintro ⟨_, _, hreplies⟩
        obtain ⟨hlength, hrecognised⟩ := completions_of_replies hlines hcut hreplies
        exact Lines.blocks_eq_lines (fun l hl => ⟨hisLine l hl, (hlines l hl).startsOnce⟩)
          (fun c hc => ⟨hone.mp hlength c hc, (hrecognised c hc).gpredict⟩) hcut.1
      · intro heq
        rw [show completions = lines from heq]
        exact ⟨rfl, rfl, rfl⟩
  | gsjd =>
      have hlinesFreq := serve_freq lexicalCast session lines
        fun l hl => (hlines l hl).recognised
      constructor
      · rintro ⟨hrx, htx, hreplies⟩
        obtain ⟨hlength, hrecognised⟩ := completions_of_replies hlines hcut hreplies
        have hfreq := serve_freq lexicalCast session completions hrecognised
        refine ⟨fun c hc => ⟨hone.mp hlength c hc, hrecognised c hc⟩, ?_, ?_⟩
        · rw [← hfreq.1, ← hlinesFreq.1, hrx]
        · rw [← hfreq.2, ← hlinesFreq.2, htx]
      · rintro ⟨hcompletions, hrx, htx⟩
        have hrecognised := fun c hc => (hcompletions c hc).2
        have hfreq := serve_freq lexicalCast session completions hrecognised
        refine ⟨?_, ?_, ?_⟩
        · rw [hfreq.1, hlinesFreq.1, hrx]
        · rw [hfreq.2, hlinesFreq.2, htx]
        · rw [serve_replies_gsjd session completions hrecognised,
            serve_replies_gsjd session lines fun l hl => (hlines l hl).recognised,
            hone.mpr fun c hc => (hcompletions c hc).1]

/-- Two commands. -/
def setAndGet : List Str := [['F', '1', '0', '0', '\n'], ['f', '\n']]

theorem setAndGet_lines : ∀ l ∈ setAndGet, CommandLine .gpredict l := by
  intro l hl
  rcases List.mem_cons.mp hl with rfl | hl
  · exact .set (n := ['1', '0', '0']) (by simp)
  · rw [List.mem_singleton.mp hl]
    exact .get

theorem framing_iff_separate :
    SameOutcome (serve decimal .gpredict .new setAndGet)
        (serve decimal .gpredict .new setAndGet) ↔
      Framed decimal .gpredict .new setAndGet setAndGet :=
  framing_iff setAndGet_lines ⟨rfl, by simp [setAndGet]⟩

/-- Both commands in one completion get one answer, and the frequency is lost. -/
theorem framing_fails_coalesced :
    (∀ l ∈ setAndGet, CommandLine .gpredict l) ∧ CutInto setAndGet [setAndGet.flatten] ∧
      ¬ SameOutcome (serve decimal .gpredict .new [setAndGet.flatten])
        (serve decimal .gpredict .new setAndGet) := by
  refine ⟨setAndGet_lines, ⟨rfl, by simp [setAndGet]⟩, ?_⟩
  rintro ⟨hrx, _⟩
  exact absurd hrx (by decide)

end Doppler

end GsSDR
