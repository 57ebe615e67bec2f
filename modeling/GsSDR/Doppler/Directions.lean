import GsSDR.Doppler.Dialogue
import GsSDR.Lib.LexicalCast

/-!
# What goes out on the port of a direction

`newFreq` notes a change of either frequency, and then `message_callback`
publishes on both ports.  A frequency that has not been set is 0, and so the port
of that direction gets the correction for 0.  A port has only what the client
asked for exactly if the client has set both frequencies before a change is
published (`asked_iff`).
-/

namespace GsSDR

namespace Doppler

open Cxx Mealy

variable {β : Type*} (lexicalCast : Str → Option Int) (sourceType : SourceType)
  (correction : Int → β)

/-- The RX frequencies that a client has set. -/
def setRx (id : Nat) (h : List (State β × Event)) : List Int :=
  (texts id h).filterMap (rxValue lexicalCast sourceType)

/-- The TX frequencies that it has set. -/
def setTx (id : Nat) (h : List (State β × Event)) : List Int :=
  (texts id h).filterMap (txValue lexicalCast sourceType)

/-- What a turn of the session publishes is for frequencies that its client has
set in the turns before. -/
def Asked (id : Nat) (h : List (State β × Event)) (s : State β) (e : Event) : Prop :=
  e.session? = some id → ∀ t, step lexicalCast sourceType correction s e = some t →
    (∀ new, t.outRx = s.outRx ++ new →
        ∀ v ∈ new, ∃ n ∈ setRx lexicalCast sourceType id h, v = correction n) ∧
      ∀ new, t.outTx = s.outTx ++ new →
        ∀ v ∈ new, ∃ n ∈ setTx lexicalCast sourceType id h, v = correction n

/-- The last text changes a frequency, where each is 0 at first. -/
def Changing (texts : List Str) : Prop :=
  (texts.filterMap (rxValue lexicalCast sourceType)).getLastD 0 ≠
      (texts.dropLast.filterMap (rxValue lexicalCast sourceType)).getLastD 0 ∨
    (texts.filterMap (txValue lexicalCast sourceType)).getLastD 0 ≠
      (texts.dropLast.filterMap (txValue lexicalCast sourceType)).getLastD 0

instance (texts : List Str) : Decidable (Changing lexicalCast sourceType texts) :=
  inferInstanceAs (Decidable (_ ∨ _))

/-- When the reply to a change has been written, both frequencies have been
set. -/
def BothSet (id : Nat) (h : List (State β × Event)) (s : State β) (e : Event) : Prop :=
  ∀ ok, e = .write id ok → s.exitRequested = false →
    Changing lexicalCast sourceType (texts id h) →
      setRx lexicalCast sourceType id h ≠ [] ∧ setTx lexicalCast sourceType id h ≠ []

variable {lexicalCast} {sourceType} {correction} {h : List (State β × Event)} {s t : State β}
  {e : Event} {id : Nat}

/-! ## The frequencies of a session -/

theorem hear_after (session : Session) (text : Str) :
    session.hear lexicalCast sourceType text = session.after lexicalCast sourceType text := by
  rw [Session.hear, handleRead_eq]

/-- A session has the last frequencies that its texts set. -/
theorem hear_freq (sourceType : SourceType) (session : Session) (texts : List Str) :
    (texts.foldl (Session.hear lexicalCast sourceType) session).freqRx =
        (texts.filterMap (rxValue lexicalCast sourceType)).getLastD session.freqRx ∧
      (texts.foldl (Session.hear lexicalCast sourceType) session).freqTx =
        (texts.filterMap (txValue lexicalCast sourceType)).getLastD session.freqTx := by
  rw [← foldl_latest, ← foldl_latest]
  induction texts generalizing session with
  | nil => exact ⟨rfl, rfl⟩
  | cons text texts ih =>
      rw [List.foldl_cons, hear_after]
      exact ih _

/-- It notes whether the last text changes one. -/
theorem hear_newFreq (texts : List Str) (text : Str) :
    ((texts ++ [text]).foldl (Session.hear lexicalCast sourceType) .new).newFreq = true ↔
      Changing lexicalCast sourceType (texts ++ [text]) := by
  have hfreq : ∀ ts : List Str,
      (ts.foldl (Session.hear lexicalCast sourceType) .new).freqRx =
          (ts.filterMap (rxValue lexicalCast sourceType)).getLastD 0 ∧
        (ts.foldl (Session.hear lexicalCast sourceType) .new).freqTx =
          (ts.filterMap (txValue lexicalCast sourceType)).getLastD 0 :=
    fun ts => hear_freq sourceType .new ts
  rw [Changing, List.dropLast_concat, ← (hfreq (texts ++ [text])).1,
    ← (hfreq (texts ++ [text])).2, ← (hfreq texts).1, ← (hfreq texts).2, List.foldl_append,
    List.foldl_cons, List.foldl_nil, hear_after, Session.after, Bool.or_eq_true, bne_iff_ne,
    bne_iff_ne]

/-! ## What is published -/

/-- The value that a list ends with is in it. -/
theorem getLastD_mem {α : Type*} {xs : List α} (h : xs ≠ []) (x : α) : xs.getLastD x ∈ xs := by
  cases xs with
  | nil => exact absurd rfl h
  | cons y ys =>
      rw [List.getLastD_cons]
      exact List.getLastD_mem_cons

/-- A port has what was asked for exactly if something was asked for. -/
theorem port_iff {out out' : List β} (values : List Int)
    (hout : out' = out ++ [correction (values.getLastD 0)]) :
    (∀ new, out' = out ++ new → ∀ v ∈ new, ∃ n ∈ values, v = correction n) ↔ values ≠ [] := by
  constructor
  · intro hasked
    obtain ⟨n, hn, _⟩ := hasked _ hout _ (List.mem_singleton.mpr rfl)
    exact List.ne_nil_of_mem hn
  · intro hne new hnew v hv
    have hsingle : new = [correction (values.getLastD 0)] :=
      List.append_cancel_left (hnew.symm.trans hout)
    rw [hsingle, List.mem_singleton] at hv
    exact ⟨_, getLastD_mem hne 0, hv⟩

/-- A turn that hands over nothing publishes nothing. -/
theorem asked_of_none (hs : Accounted s) (hnone : callbackOf (s, e) = none) :
    Asked lexicalCast sourceType correction id h s e := by
  intro _ t hstep
  obtain ⟨hrx, htx⟩ := step_ports hs hstep
  rw [hnone] at hrx htx
  refine ⟨fun new hnew v hv => ?_, fun new hnew v hv => ?_⟩
  · rw [List.append_cancel_left (hnew.symm.trans hrx)] at hv
    cases hv
  · rw [List.append_cancel_left (hnew.symm.trans htx)] at hv
    cases hv

/-- A write hands over the last frequencies that have been set, if the last text
has changed one. -/
theorem callbackOf_eq (run : Run lexicalCast sourceType correction h s)
    (hno : s.exitRequested = false) {ok : Bool}
    (hstep : step lexicalCast sourceType correction s (.write id ok) = some t) :
    callbackOf (s, .write id ok) =
      if Changing lexicalCast sourceType (texts id h) then
        some ((setRx lexicalCast sourceType id h).getLastD 0,
          (setTx lexicalCast sourceType id h).getLastD 0)
      else none := by
  have hfollows := run.follows hno id
  cases step_sound hstep with
  | @written c _ _ hc hop =>
      obtain ⟨ts, text, hlast⟩ :=
        List.eq_nil_or_concat (texts c.id h) |>.resolve_left (hfollows.answering hop)
      rw [List.concat_eq_append] at hlast
      have hsession := hfollows.session c hc rfl
      obtain ⟨hrx, htx⟩ := hear_freq sourceType .new (texts c.id h)
      rw [← hsession] at hrx htx
      have hnew : c.session.newFreq = true ↔ Changing lexicalCast sourceType (texts c.id h) := by
        rw [hsession, hlast]
        exact hear_newFreq ts text
      rw [callbackOf_write hno, (Run.accounted run).client? hc, Option.bind_some, Session.callback,
        hrx, htx]
      simp only [hnew]
      rfl

/-- In a run the turns of a session publish only what its client asked for
exactly if both frequencies have been set when a change is published. -/
theorem asked_iff (run : Run lexicalCast sourceType correction h s) (id : Nat) :
    ∀ h₁ p h₂, h = h₁ ++ p :: h₂ →
      (Asked lexicalCast sourceType correction id h₁ p.1 p.2 ↔
        BothSet lexicalCast sourceType id h₁ p.1 p.2) := by
  rintro h₁ ⟨s₁, e⟩ h₂ hsplit
  obtain ⟨before, t, hstep⟩ := run.before hsplit
  have hs := Run.accounted before
  by_cases hwrite : ∃ ok, e = .write id ok ∧ s₁.exitRequested = false
  · obtain ⟨ok, rfl, hno⟩ := hwrite
    obtain ⟨hrx, htx⟩ := step_ports hs hstep
    by_cases hchanging : Changing lexicalCast sourceType (texts id h₁)
    · rw [callbackOf_eq before hno hstep, if_pos hchanging] at hrx htx
      have hports := and_congr
        (port_iff (setRx lexicalCast sourceType id h₁) hrx)
        (port_iff (setTx lexicalCast sourceType id h₁) htx)
      constructor
      · intro hasked _ _ _ _
        exact hports.mp (hasked rfl t hstep)
      · intro hboth _ u hu
        cases hstep.symm.trans hu
        exact hports.mpr (hboth ok rfl hno hchanging)
    · have hnone := callbackOf_eq before hno hstep
      rw [if_neg hchanging] at hnone
      exact iff_of_true (asked_of_none hs hnone) fun _ _ _ h => absurd h hchanging
  · have hnone : e.session? = some id → callbackOf (s₁, e) = none := by
      intro hown
      cases e with
      | write x ok =>
          cases hown
          refine if_pos ?_
          simpa using fun hno => hwrite ⟨ok, rfl, hno⟩
      | _ => rfl
    refine iff_of_true (fun hown => asked_of_none hs (hnone hown) hown) ?_
    rintro ok rfl hno
    exact absurd ⟨ok, rfl, hno⟩ hwrite

/-- A GSJD client sets both frequencies at once. -/
theorem asked_iff_combined :
    ∃ r, Transition.exec (step lexicalCastInt .gsjd (exactCorrection 1000)) initial
        [.accept true, .read 0 (some ['f', '1', '0', '0', 'F', '2', '0', '0', '\n']),
          .write 0 true] = some r ∧ r.2.outRx = [900] ∧ r.2.outTx = [800] ∧
      ∀ h₁ p h₂, r.1 = h₁ ++ p :: h₂ →
        (Asked lexicalCastInt .gsjd (exactCorrection 1000) 0 h₁ p.1 p.2 ↔
          BothSet lexicalCastInt .gsjd 0 h₁ p.1 p.2) := by
  obtain ⟨r, hr, hrx, htx⟩ : ∃ r, Transition.exec (step lexicalCastInt .gsjd (exactCorrection 1000))
      initial [.accept true, .read 0 (some ['f', '1', '0', '0', 'F', '2', '0', '0', '\n']),
        .write 0 true] = some r ∧ r.2.outRx = [900] ∧ r.2.outTx = [800] := ⟨_, rfl, rfl, rfl⟩
  exact ⟨r, hr, hrx, htx, asked_iff (Transition.exec_run hr) 0⟩

/-- A GPREDICT client sets its RX frequency. -/
theorem asked_fails_gpredict :
    ∃ (h : List (State Int × Event)) (s t : State Int) (e : Event),
      Run lexicalCastInt .gpredict (exactCorrection 1000) h s ∧
        step lexicalCastInt .gpredict (exactCorrection 1000) s e = some t ∧
        t.outTx = [1000] ∧ ¬ Asked lexicalCastInt .gpredict (exactCorrection 1000) 0 h s e := by
  obtain ⟨r, hr, t, hstep, hbefore, htx, hset⟩ :
      ∃ r, Transition.exec (step lexicalCastInt .gpredict (exactCorrection 1000)) initial
          [.accept true, .read 0 (some ['F', '1', '0', '0', '\n'])] = some r ∧
        ∃ t, step lexicalCastInt .gpredict (exactCorrection 1000) r.2 (.write 0 true) = some t ∧
          r.2.outTx = [] ∧ t.outTx = [1000] ∧ setTx lexicalCastInt .gpredict 0 r.1 = [] :=
    ⟨_, rfl, _, rfl, rfl, rfl, rfl⟩
  refine ⟨r.1, r.2, t, .write 0 true, Transition.exec_run hr, hstep, htx, fun hasked => ?_⟩
  have hnew : t.outTx = r.2.outTx ++ [1000] := by rw [htx, hbefore, List.nil_append]
  obtain ⟨n, hn, _⟩ := (hasked rfl t hstep).2 [1000] hnew 1000 List.mem_cons_self
  rw [hset] at hn
  cases hn

end Doppler

end GsSDR
