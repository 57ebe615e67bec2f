import GsSDR.Doppler.Accounting

/-!
# Whether an acknowledged frequency is in force

The corrections of all sessions go out on the same ports, but a session
publishes only what is new to itself.  So a client that repeats its frequency
after another one has changed it is answered without a publication.
-/

namespace GsSDR

namespace Doppler

variable {β : Type*} {lexicalCast : Cxx.Str → Option Int} {sourceType : SourceType}
  {correction : Int → β} {h : List (State β × Event)} {s t : State β} {e : Event} {c d : Client}

/-! ## What a session remembers -/

/-- `newFreq` says whether the last command has changed a frequency, and an RX
frequency that it has set is the session's. -/
structure Client.Consistent (c : Client) : Prop where
  newFreq :
    c.session.newFreq = (c.session.freqRx != c.before.1 || c.session.freqTx != c.before.2)
  setRx : ∀ n, c.setRx = some n → c.session.freqRx = n

/-- All sessions do, as long as no stop is requested. -/
def Remembers (s : State β) : Prop :=
  s.exitRequested = false → ∀ c ∈ s.clients, c.Consistent

theorem command_consistent (lexicalCast : Cxx.Str → Option Int) (sourceType : SourceType)
    (c : Client) (text : Cxx.Str) : (c.command lexicalCast sourceType text).Consistent := by
  rw [Client.command, handleRead_eq]
  constructor
  · rfl
  · intro n hn
    show (rxValue lexicalCast sourceType text).getD c.session.freqRx = n
    rw [show rxValue lexicalCast sourceType text = some n from hn]
    rfl

theorem Client.Consistent.timer (hc : c.Consistent) (armed : Bool) :
    Client.Consistent { c with timerArmed := armed } :=
  ⟨hc.newFreq, hc.setRx⟩

theorem consistent_setClient (hs : ∀ c ∈ s.clients, c.Consistent) (hd : d.Consistent) :
    ∀ c ∈ (s.setClient d).clients, c.Consistent := by
  intro c hc
  obtain ⟨b, hb, rfl⟩ := List.mem_map.mp hc
  split
  next => exact hd
  next => exact hs b hb

theorem Remembers.step (hs : Remembers s)
    (hstep : Doppler.step lexicalCast sourceType correction s e = some t) : Remembers t := by
  intro hno
  cases step_sound hstep with
  | @accepted ok _ _ =>
      cases ok with
      | false => exact hs hno
      | true =>
          have hnew : Client.Consistent ⟨s.nextId, .new, true, (0, 0), none⟩ :=
            ⟨rfl, fun n hn => by cases hn⟩
          refine consistent_setClient (fun c hc => ?_) hnew
          rcases List.mem_append.mp hc with hc | hc
          · exact hs hno c hc
          · rw [List.mem_singleton.mp hc]
            exact ⟨rfl, fun n hn => by cases hn⟩
  | @read c result _ hc _ =>
      rcases handleRead_cases (s.complete c.id .read) c result with
        ⟨hexit, _, _, hread⟩ | ⟨hno', _, hread⟩ | ⟨hno', text, _, hread | hread⟩
      · rw [hread] at hno
        exact absurd (hno.symm.trans hexit) Bool.false_ne_true
      · rw [hread]
        exact fun d hd => hs hno' d (mem_release.mp hd).1
      · rw [hread]
        exact consistent_setClient (hs hno') (command_consistent lexicalCast sourceType c text)
      · rw [hread]
        exact consistent_setClient (hs hno') (command_consistent lexicalCast sourceType c text)
  | @written c ok _ hc _ =>
      rcases handleWrite_cases (s.complete c.id .write) c ok with
        ⟨hexit, hwrite⟩ | ⟨hno', outRx, outTx, ⟨_, hwrite⟩ | ⟨_, hwrite⟩⟩
      · rw [hwrite] at hno
        exact absurd (hno.symm.trans hexit) Bool.false_ne_true
      · rw [hwrite]
        exact consistent_setClient (hs hno') ((hs hno' c hc).timer true)
      · rw [hwrite]
        exact fun d hd => hs hno' d (mem_release.mp hd).1
  | @sessionTimeout c _ hc _ =>
      rcases sessionTimeout_cases s c with ⟨hexit, htimeout⟩ | ⟨hno', htimeout⟩
      · rw [htimeout] at hno
        exact absurd (hno.symm.trans hexit) Bool.false_ne_true
      · rw [htimeout]
        exact consistent_setClient (hs hno') ((hs hno' c hc).timer false)
  | serverTimeout =>
      obtain ⟨armed, stopped, htimeout⟩ := serverTimeout_eq s
      rw [htimeout] at hno ⊢
      exact hs hno
  | cancelled =>
      obtain ⟨stopped, htimeout⟩ := cancelledTimeout_eq s
      rw [htimeout] at hno ⊢
      exact hs hno
  | threadTransferDeInit => cases hno

theorem remembers_initial : Remembers (initial : State β) := by
  intro _ c hc
  cases hc

/-! ## What a write publishes -/

theorem write_outRx (hs : Accounted s) (hno : s.exitRequested = false) (hc : c ∈ s.clients)
    {ok : Bool} (hstep : step lexicalCast sourceType correction s (.write c.id ok) = some t) :
    t.outRx =
      if c.session.newFreq then s.outRx ++ [correction c.session.freqRx] else s.outRx := by
  simp only [step] at hstep
  split at hstep
  next =>
    simp only [hs.client? hc, Option.map_some, Option.some.injEq] at hstep
    subst hstep
    have hno' : ¬ (s.complete c.id .write).exitRequested = true := by
      rw [show (s.complete c.id .write).exitRequested = false from hno]
      exact Bool.false_ne_true
    have hpublished : ((s.complete c.id .write).setNewFreq correction c.session).outRx =
        if c.session.newFreq then s.outRx ++ [correction c.session.freqRx] else s.outRx := by
      rw [State.setNewFreq]
      split
      next => rfl
      next => rfl
    rw [State.handleWrite, if_neg hno', ← hpublished]
    split
    next => rfl
    next => rfl
  next => cases hstep

/-- Behind the write of a command that has set an RX frequency, the correction
for this frequency is the last one published. -/
def Honoured (lexicalCast : Cxx.Str → Option Int) (sourceType : SourceType)
    (correction : Int → β) (s : State β) (e : Event) : Prop :=
  ∀ c ∈ s.clients, ∀ ok n t, e = .write c.id ok → c.setRx = some n →
    step lexicalCast sourceType correction s e = some t →
    t.outRx.getLast? = some (correction n)

/-- The command has changed a frequency of its session, or the correction is
already the last one published. -/
def NewOrInForce (correction : Int → β) (s : State β) (e : Event) : Prop :=
  ∀ c ∈ s.clients, ∀ ok n, e = .write c.id ok → c.setRx = some n →
    (n ≠ c.before.1 ∨ c.session.freqTx ≠ c.before.2) ∨
      s.outRx.getLast? = some (correction n)

theorem newFreq_iff (hc : c.Consistent) {n : Int} (hn : c.setRx = some n) :
    c.session.newFreq = true ↔ n ≠ c.before.1 ∨ c.session.freqTx ≠ c.before.2 := by
  rw [hc.newFreq, hc.setRx n hn, Bool.or_eq_true, bne_iff_ne, bne_iff_ne]

theorem honoured_step_iff (hs : Accounted s) (hremembers : Remembers s)
    (hno : s.exitRequested = false)
    (hstep : step lexicalCast sourceType correction s e = some t) :
    Honoured lexicalCast sourceType correction s e ↔ NewOrInForce correction s e := by
  constructor
  · intro hhonoured c hc ok n he hn
    have hlast := hhonoured c hc ok n t he hn hstep
    have hcons := hremembers hno c hc
    subst he
    rw [write_outRx hs hno hc hstep] at hlast
    cases hnew : c.session.newFreq with
    | true => exact .inl ((newFreq_iff hcons hn).mp hnew)
    | false =>
        rw [hnew, if_neg Bool.false_ne_true] at hlast
        exact .inr hlast
  · intro hcond c hc ok n u he hn hu
    have hcons := hremembers hno c hc
    have hcase := hcond c hc ok n he hn
    subst he
    rw [write_outRx hs hno hc hu]
    cases hnew : c.session.newFreq with
    | true => rw [if_pos rfl, List.getLast?_concat, hcons.setRx n hn]
    | false =>
        rw [if_neg Bool.false_ne_true]
        rcases hcase with hchanged | hlast
        · rw [← newFreq_iff hcons hn, hnew] at hchanged
          cases hchanged
        · exact hlast

/-- In a run without a stop, the write of a command is honoured exactly when the
command has changed a frequency of its session or its correction is already the
last one published. -/
theorem honoured_iff (run : Run lexicalCast sourceType correction h s)
    (hno : ∀ p ∈ h, p.1.exitRequested = false) :
    ∀ p ∈ h, Honoured lexicalCast sourceType correction p.1 p.2 ↔
      NewOrInForce correction p.1 p.2 := by
  intro p hp
  obtain ⟨hs, hremembers⟩ := run.invariant_history (P := fun s => Accounted s ∧ Remembers s)
    ⟨accounted_initial, remembers_initial⟩
    (fun hs hstep => ⟨hs.1.step hstep, hs.2.step hstep⟩) p hp
  obtain ⟨t, hstep⟩ := run.step_of_mem p hp
  exact honoured_step_iff hs hremembers (hno p hp) hstep

/-- The text of a command to set 100, and of one to set 200. -/
def set100 : Cxx.Str := ['F', '1', '0', '0', '\n']

def set200 : Cxx.Str := ['F', '2', '0', '0', '\n']

theorem honoured_iff_twoClients :
    ∃ r, Transition.exec (step Cxx.decimal .gpredict (exactCorrection 1000)) initial
        [.accept true, .accept true, .read 0 (some set100), .write 0 true,
          .read 1 (some set200), .write 1 true] = some r ∧ r.2.outRx = [900, 800] ∧
      ∀ p ∈ r.1, Honoured Cxx.decimal .gpredict (exactCorrection 1000) p.1 p.2 ↔
        NewOrInForce (exactCorrection 1000) p.1 p.2 := by
  obtain ⟨r, hr, hout, hno⟩ :
      ∃ r, Transition.exec (step Cxx.decimal .gpredict (exactCorrection 1000)) initial
          [.accept true, .accept true, .read 0 (some set100), .write 0 true,
            .read 1 (some set200), .write 1 true] = some r ∧ r.2.outRx = [900, 800] ∧
        r.1.all (fun p => !p.1.exitRequested) = true := ⟨_, rfl, rfl, rfl⟩
  refine ⟨r, hr, hout, honoured_iff (Transition.exec_run hr) fun p hp => ?_⟩
  simpa using List.all_eq_true.mp hno p hp

/-- A client sets 100, another one 200, and the first one 100 again. -/
theorem honoured_fails_repeated :
    ∃ (h : List (State Int × Event)) (s : State Int),
      Run Cxx.decimal .gpredict (exactCorrection 1000) h s ∧
        (∀ p ∈ h, p.1.exitRequested = false) ∧
        ¬ ∀ p ∈ h, Honoured Cxx.decimal .gpredict (exactCorrection 1000) p.1 p.2 := by
  obtain ⟨r, hr, hno, t, hstep, c, hc, hid, hset, hlast⟩ :
      ∃ r, Transition.exec (step Cxx.decimal .gpredict (exactCorrection 1000)) initial
          [.accept true, .accept true, .read 0 (some set100), .write 0 true,
            .read 1 (some set200), .write 1 true, .read 0 (some set100)] = some r ∧
        (r.1 ++ [(r.2, Event.write 0 true)]).all (fun p => !p.1.exitRequested) = true ∧
        ∃ t, step Cxx.decimal .gpredict (exactCorrection 1000) r.2 (.write 0 true) = some t ∧
          ∃ c, r.2.client? 0 = some c ∧ c.id = 0 ∧ c.setRx = some 100 ∧
            t.outRx.getLast? = some 800 :=
    ⟨_, rfl, rfl, _, rfl, _, rfl, rfl, rfl, rfl⟩
  have hall : ∀ p ∈ r.1 ++ [(r.2, Event.write 0 true)], p.1.exitRequested = false := by
    intro p hp
    simpa using List.all_eq_true.mp hno p hp
  refine ⟨_, t, (Transition.exec_run hr).snoc hstep, hall, fun hhonoured => ?_⟩
  have hmem : (r.2, Event.write 0 true) ∈ r.1 ++ [(r.2, Event.write 0 true)] :=
    List.mem_append_right _ (List.mem_singleton.mpr rfl)
  have hlast' := hhonoured _ hmem c (client?_some hc).1 true 100 t (by rw [hid]) hset hstep
  rw [hlast] at hlast'
  exact absurd hlast' (by simp [exactCorrection])

end Doppler

end GsSDR
