import GsSDR.GainControl.Scheduled

/-!
# Whether the gain is off when the worker has returned

The worker tests `m_exit_requested` in front of `m_new_timer`.  So it returns
without an OFF behind a trigger whose flag it has not taken, and without regard
to a call of `packet_handler` that is still in progress.  When the flag is clear
and no call is in progress, the last command is an OFF, because every ON has
one scheduled.
-/

namespace GsSDR

namespace GainControl

variable {γ : Type*} {gainOn gainOff : γ} {h : List (State γ × Event γ)} {s t : State γ}
  {e : Event γ}

/-- When the worker has returned, the last command is an OFF. -/
def StopsOff (s : State γ) : Prop := s.pc = .returned → LastOff s.log

/-- No call of `packet_handler` starts behind a stop. -/
def NoCallBehindStop (s : State γ) (e : Event γ) : Prop :=
  s.exitRequested = true → e ≠ .packetHandler

/-- The worker takes the exit only with the flag clear and no call in
progress. -/
def QuietExit (s : State γ) (e : Event γ) : Prop :=
  e = .work → s.pc = .exitTest → s.exitRequested = true →
    s.newTimer = false ∧ s.handler = .idle

/-- What holds behind quiet exits. -/
structure Quiet (s : State γ) : Prop where
  begun : s.pc ≠ .starting → s.log ≠ []
  returned : s.pc = .returned → s.exitRequested = true ∧ s.handler = .idle ∧ LastOff s.log

theorem quiet_initial : Quiet (initial gainOn gainOff) where
  begun := fun hne => absurd rfl hne
  returned := by
    intro hpc
    cases hpc

/-- A command of the worker, which has not returned. -/
theorem Quiet.send (command : Command γ) (hpc : t.pc ≠ .returned)
    (hlog : t.log = s.log ++ [command]) : Quiet t where
  begun := by
    intro _ hnil
    rw [hlog] at hnil
    exact absurd hnil (by simp)
  returned := fun h => absurd h hpc

/-- The worker goes on without a command. -/
theorem Quiet.move (hs : Quiet s) (hstart : s.pc ≠ .starting) (hpc : t.pc ≠ .returned)
    (hlog : t.log = s.log) : Quiet t where
  begun := by
    intro _
    rw [hlog]
    exact hs.begun hstart
  returned := fun h => absurd h hpc

theorem Quiet.step (hs : Quiet s) (hsched : Scheduled s)
    (hcond : NoCallBehindStop s e ∧ QuietExit s e) (hstep : GainControl.step s e = some t) :
    Quiet t := by
  cases step_sound hstep with
  | called =>
      refine ⟨hs.begun, fun hpc => ?_⟩
      exact absurd rfl (hcond.1 (hs.returned hpc).1)
  | publishOn hcalled =>
      refine ⟨fun _ hnil => absurd hnil (by simp [State.send]), fun hpc => ?_⟩
      have hidle := (hs.returned hpc).2.1
      rw [hcalled] at hidle
      cases hidle
  | setNewTimer hpublished =>
      refine ⟨hs.begun, fun hpc => ?_⟩
      have hidle := (hs.returned hpc).2.1
      rw [hpublished] at hidle
      cases hidle
  | setGainOn => exact ⟨hs.begun, hs.returned⟩
  | setGainOff => exact ⟨hs.begun, hs.returned⟩
  | stop => exact ⟨hs.begun, fun hpc => ⟨rfl, (hs.returned hpc).2⟩⟩
  | firstOff => exact Quiet.send _ Pc.noConfusion rfl
  | exit hpc hexit =>
      obtain ⟨hflag, hidle⟩ := hcond.2 rfl hpc hexit
      have hbegun : s.log ≠ [] := hs.begun (by rw [hpc]; exact Pc.noConfusion)
      refine ⟨fun _ => hbegun, fun _ => ⟨hexit, hidle, lastOff_iff.mpr ⟨hbegun, fun hon => ?_⟩⟩⟩
      -- an OFF that is still to come cannot be the worker's
      rcases hsched hon with hset | hpublished | hwill
      · exact absurd (hflag.symm.trans hset) Bool.false_ne_true
      · rw [hidle] at hpublished
        cases hpublished
      · rw [hpc] at hwill
        cases hwill
  | goOn hpc => exact hs.move (by rw [hpc]; exact Pc.noConfusion) Pc.noConfusion rfl
  | found hpc => exact hs.move (by rw [hpc]; exact Pc.noConfusion) Pc.noConfusion rfl
  | notFound hpc => exact hs.move (by rw [hpc]; exact Pc.noConfusion) Pc.noConfusion rfl
  | cleared hpc => exact hs.move (by rw [hpc]; exact Pc.noConfusion) Pc.noConfusion rfl
  | started hpc => exact hs.move (by rw [hpc]; exact Pc.noConfusion) Pc.noConfusion rfl
  | elapsed hpc => exact hs.move (by rw [hpc]; exact Pc.noConfusion) Pc.noConfusion rfl
  | off => exact Quiet.send _ Pc.noConfusion rfl
  | woke hpc => exact hs.move (by rw [hpc]; exact Pc.noConfusion) Pc.noConfusion rfl

/-! ## Runs -/

/-- An exit behind an ON, or while a call is in front of its ON, leaves the gain
on. -/
theorem exit_on (hpc : s.pc = .exitTest) (hexit : s.exitRequested = true)
    (hon : LastOn s.log ∨ s.handler = .called) :
    ∃ es r, Transition.exec step s es = some r ∧ (∀ p ∈ r.1, NoCallBehindStop p.1 p.2) ∧
      ¬ StopsOff r.2 := by
  rcases hon with hon | hcalled
  · refine ⟨[.work], ([(s, .work)], { s with pc := .returned }), ?_, ?_, ?_⟩
    · simp [Transition.exec, step, work, hpc, hexit]
    · intro p hp
      rw [List.mem_singleton.mp hp]
      simp [NoCallBehindStop]
    · intro hstops
      exact (lastOff_iff.mp (hstops rfl)).2 hon
  · let u : State γ := { s.send (.on s.gainOn) with handler := .published }
    refine ⟨[.publishOn, .work],
      ([(s, .publishOn), (u, .work)], { u with pc := .returned }), ?_, ?_, ?_⟩
    · simp [Transition.exec, step, work, hcalled, hpc, hexit, State.send, u]
    · intro p hp
      rcases List.mem_cons.mp hp with rfl | hp
      · simp [NoCallBehindStop]
      · rw [List.mem_singleton.mp hp]
        simp [NoCallBehindStop]
    · intro hstops
      exact (lastOff_iff.mp (hstops rfl)).2 (lastOn_concat _ _)

/-- If no call starts behind the stop and every exit is quiet, the gain is off
whenever the worker has returned.  From an exit test behind an ON, or with a
call in front of its ON, the run can go on to a state where the worker has
returned with the gain on. -/
theorem stopsOff_run (run : Run gainOn gainOff h s)
    (hcalls : ∀ p ∈ h, NoCallBehindStop p.1 p.2) :
    ((∀ p ∈ h, QuietExit p.1 p.2) → (∀ p ∈ h, StopsOff p.1) ∧ StopsOff s) ∧
      (s.pc = .exitTest → s.exitRequested = true → (LastOn s.log ∨ s.handler = .called) →
        ∃ h' t, Run gainOn gainOff h' t ∧ (∀ p ∈ h', NoCallBehindStop p.1 p.2) ∧
          ¬ StopsOff t) := by
  constructor
  · intro hquiet
    have hcond : ∀ p ∈ h, NoCallBehindStop p.1 p.2 ∧ QuietExit p.1 p.2 :=
      fun p hp => ⟨hcalls p hp, hquiet p hp⟩
    have hkeep : ∀ {s e t}, Scheduled s ∧ Quiet s →
        NoCallBehindStop s e ∧ QuietExit s e → GainControl.step (γ := γ) s e = some t →
        Scheduled t ∧ Quiet t :=
      fun hs hc hstep => ⟨hs.1.step hstep, hs.2.step hs.1 hc hstep⟩
    have hall := run.invariant_of_history (P := fun s => Scheduled s ∧ Quiet s)
      ⟨scheduled_initial, quiet_initial⟩ hkeep hcond
    exact ⟨fun p hp hpc => ((hall.1 p hp).2.returned hpc).2.2,
      fun hpc => (hall.2.2.returned hpc).2.2⟩
  · intro hpc hexit hon
    obtain ⟨es, r, hr, hr', hstops⟩ := exit_on hpc hexit hon
    refine ⟨h ++ r.1, r.2, run.append_exec es hr, fun p hp => ?_, hstops⟩
    rcases List.mem_append.mp hp with hp | hp
    · exact hcalls p hp
    · exact hr' p hp

/-- A stop behind the OFF of a trigger. -/
theorem stopsOff_run_oneTrigger :
    ∃ r, Transition.exec step (initial 90 0)
        [.work, .packetHandler, .publishOn, .setNewTimer, .work, .work, .work, .work, .work,
          .work, .threadDeInit, .work] = some r ∧ r.2.pc = .returned ∧
      (((∀ p ∈ r.1, QuietExit p.1 p.2) → (∀ p ∈ r.1, StopsOff p.1) ∧ StopsOff r.2) ∧
        (r.2.pc = .exitTest → r.2.exitRequested = true →
          (LastOn r.2.log ∨ r.2.handler = .called) →
          ∃ h' t, Run 90 0 h' t ∧ (∀ p ∈ h', NoCallBehindStop p.1 p.2) ∧ ¬ StopsOff t)) := by
  obtain ⟨r, hr, hpc, hcalls⟩ :
      ∃ r, Transition.exec step (initial 90 0)
          [.work, .packetHandler, .publishOn, .setNewTimer, .work, .work, .work, .work, .work,
            .work, .threadDeInit, .work] = some r ∧ r.2.pc = .returned ∧
        r.1.all (fun p => !p.1.exitRequested || p.2 != .packetHandler) = true :=
    ⟨_, rfl, rfl, rfl⟩
  refine ⟨r, hr, hpc, stopsOff_run (Transition.exec_run hr) fun p hp hexit => ?_⟩
  simpa [hexit] using List.all_eq_true.mp hcalls p hp

/-- A stop between a trigger and the test of its flag. -/
theorem stopsOff_fails_pending :
    ∃ (h : List (State Nat × Event Nat)) (s : State Nat), Run 90 0 h s ∧
      (∀ p ∈ h, NoCallBehindStop p.1 p.2) ∧ ¬ StopsOff s := by
  obtain ⟨r, hr, hcalls, hpc, hlast⟩ :
      ∃ r, Transition.exec step (initial 90 0)
          [.work, .packetHandler, .publishOn, .setNewTimer, .threadDeInit, .work] = some r ∧
        r.1.all (fun p => !p.1.exitRequested || p.2 != .packetHandler) = true ∧
        r.2.pc = .returned ∧ r.2.log.getLast? = some (.on 90) :=
    ⟨_, rfl, rfl, rfl, rfl⟩
  refine ⟨r.1, r.2, Transition.exec_run hr, fun p hp hexit => ?_, fun hstops => ?_⟩
  · simpa [hexit] using List.all_eq_true.mp hcalls p hp
  · exact (lastOff_iff.mp (hstops hpc)).2 ⟨90, hlast⟩

end GainControl

end GsSDR
