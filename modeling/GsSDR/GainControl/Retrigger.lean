import GsSDR.GainControl.Worker

/-!
# Which OFF belongs to which ON

The worker is blind while it waits, so a trigger that comes then is switched off
by the timer of an earlier one, and its own timer only starts after that.  The
same goes for the first OFF, which belongs to no trigger.

A wait is overtaken (`Overtaken`) when an ON is published after its start.  In a
run without overtaken waits no OFF cuts a burst, and an overtaken wait ends with
an OFF that does.
-/

namespace GsSDR

namespace GainControl

variable {γ : Type*} {gainOn gainOff : γ} {h : List (State γ × Event γ)} {s t : State γ}
  {e : Event γ}

/-- Every OFF behind at least one ON comes from a wait that was started after
the last of them. -/
def NotCut (log : List (Command γ)) : Prop :=
  ∀ pre gain started post, log = pre ++ .off gain started :: post → 0 < ons pre →
    started = some (ons pre)

/-- The worker is in front of its first OFF, or in a wait or behind it in front
of its OFF. -/
def Pc.holding : Pc → Bool
  | .starting | .waiting _ | .publishOff _ => true
  | _ => false

/-- No ON is published while the worker is there. -/
def OutsideWait (s : State γ) (e : Event γ) : Prop :=
  match e with
  | .publishOn => s.pc.holding = false
  | _ => True

/-- The start of the wait that the worker is in is one of this run. -/
def Counted (s : State γ) : Prop :=
  match s.pc with
  | .waiting started | .publishOff started => started ≤ ons s.log
  | _ => True

/-- An ON has been published since the start of the wait that the worker is in,
or before the first OFF. -/
def Overtaken (s : State γ) : Prop :=
  match s.pc with
  | .starting => 0 < ons s.log
  | .waiting started | .publishOff started => started < ons s.log
  | _ => False

/-- No OFF so far has cut a burst, and the next one of the wait will not. -/
def Kept (s : State γ) : Prop := NotCut s.log ∧ ¬ Overtaken s

theorem notCut_concat_on {log : List (Command γ)} {gain : γ} :
    NotCut (log ++ [.on gain]) ↔ NotCut log := by
  constructor
  · rintro h pre g started post rfl hpos
    exact h pre g started (post ++ [.on gain]) (by simp) hpos
  · intro h pre g started post heq hpos
    rcases List.eq_nil_or_concat post with rfl | ⟨post, command, rfl⟩
    · have hlast := List.append_inj_right' heq rfl
      cases hlast
    · have hsplit : log ++ [.on gain] = (pre ++ .off g started :: post) ++ [command] := by
        simpa using heq
      exact h pre g started post (List.append_inj_left' hsplit rfl) hpos

theorem notCut_concat_off {log : List (Command γ)} {gain : γ} {started : Option Nat} :
    NotCut (log ++ [.off gain started]) ↔
      NotCut log ∧ (0 < ons log → started = some (ons log)) := by
  constructor
  · intro h
    refine ⟨?_, h log gain started [] rfl⟩
    rintro pre g st post rfl hpos
    exact h pre g st (post ++ [.off gain started]) (by simp) hpos
  · rintro ⟨h, hnew⟩ pre g st post heq hpos
    rcases List.eq_nil_or_concat post with rfl | ⟨post, command, rfl⟩
    · obtain ⟨rfl, hlast⟩ := List.append_inj' heq rfl
      cases hlast
      exact hnew hpos
    · have hsplit : log ++ [.off gain started] = (pre ++ .off g st :: post) ++ [command] := by
        simpa using heq
      exact h pre g st post (List.append_inj_left' hsplit rfl) hpos

/-! ## Steps -/

theorem Counted.step (hs : Counted s) (hstep : GainControl.step s e = some t) : Counted t := by
  cases step_sound hstep with
  | called => exact hs
  | publishOn =>
      rw [Counted] at hs ⊢
      simp only [State.send, ons_concat]
      split
      next hpc => simp only [hpc] at hs; exact Nat.le_add_right_of_le hs
      next hpc => simp only [hpc] at hs; exact Nat.le_add_right_of_le hs
      next => trivial
  | setNewTimer => exact hs
  | setGainOn => exact hs
  | setGainOff => exact hs
  | stop => exact hs
  | firstOff => trivial
  | exit => trivial
  | goOn => trivial
  | found => trivial
  | notFound => trivial
  | cleared => trivial
  | started => exact Nat.le_refl _
  | elapsed hpc =>
      rw [Counted, hpc] at hs
      exact hs
  | off => trivial
  | woke => trivial

/-- An ON overtakes the wait that the worker is in. -/
theorem overtaken_publishOn (hs : Counted s) :
    Overtaken { s.send (.on s.gainOn) with handler := .published } ↔ s.pc.holding = true := by
  rw [Counted] at hs
  rw [Overtaken]
  simp only [State.send, ons_concat, Command.isOn, Bool.toNat_true]
  cases hpc : s.pc with
  | starting => simp [Pc.holding]
  | waiting started =>
      simp only [hpc] at hs
      simpa [Pc.holding] using Nat.lt_succ_of_le hs
  | publishOff started =>
      simp only [hpc] at hs
      simpa [Pc.holding] using Nat.lt_succ_of_le hs
  | exitTest => simp [Pc.holding]
  | flagTest => simp [Pc.holding]
  | clear => simp [Pc.holding]
  | startWait => simp [Pc.holding]
  | sleep => simp [Pc.holding]
  | returned => simp [Pc.holding]

/-- The OFF behind a wait that has not been overtaken belongs to the last ON. -/
theorem notCut_send (hlog : NotCut s.log) {gain : γ} {started : Nat} (hs : started ≤ ons s.log)
    (hwait : ¬ started < ons s.log) : NotCut (s.log ++ [.off gain (some started)]) := by
  refine notCut_concat_off.mpr ⟨hlog, fun _ => ?_⟩
  rw [Nat.le_antisymm hs (Nat.le_of_not_lt hwait)]

/-- A step out of a state without an overtaken wait leads into one exactly if it
is no ON inside a wait. -/
theorem kept_step_iff (hcounted : Counted s) (hs : Kept s)
    (hstep : GainControl.step s e = some t) : Kept t ↔ OutsideWait s e := by
  obtain ⟨hlog, hwait⟩ := hs
  cases step_sound hstep with
  | called => exact iff_of_true ⟨hlog, hwait⟩ trivial
  | publishOn =>
      rw [Kept, overtaken_publishOn hcounted]
      simp only [State.send, notCut_concat_on, OutsideWait, Bool.not_eq_true]
      exact ⟨fun hkept => hkept.2, fun houtside => ⟨hlog, houtside⟩⟩
  | setNewTimer => exact iff_of_true ⟨hlog, hwait⟩ trivial
  | setGainOn => exact iff_of_true ⟨hlog, hwait⟩ trivial
  | setGainOff => exact iff_of_true ⟨hlog, hwait⟩ trivial
  | stop => exact iff_of_true ⟨hlog, hwait⟩ trivial
  | firstOff hpc =>
      rw [Overtaken, hpc] at hwait
      exact iff_of_true ⟨notCut_concat_off.mpr ⟨hlog, fun hpos => absurd hpos hwait⟩, id⟩ trivial
  | exit => exact iff_of_true ⟨hlog, id⟩ trivial
  | goOn => exact iff_of_true ⟨hlog, id⟩ trivial
  | found => exact iff_of_true ⟨hlog, id⟩ trivial
  | notFound => exact iff_of_true ⟨hlog, id⟩ trivial
  | cleared => exact iff_of_true ⟨hlog, id⟩ trivial
  | started => exact iff_of_true ⟨hlog, Nat.lt_irrefl _⟩ trivial
  | elapsed hpc =>
      rw [Overtaken, hpc] at hwait
      exact iff_of_true ⟨hlog, hwait⟩ trivial
  | off hpc =>
      rw [Overtaken, hpc] at hwait
      rw [Counted, hpc] at hcounted
      exact iff_of_true ⟨notCut_send hlog hcounted hwait, id⟩ trivial
  | woke => exact iff_of_true ⟨hlog, id⟩ trivial

/-- What has been cut stays cut, and an overtaken wait ends with a cut. -/
theorem Kept.before (hs : Kept t) (hstep : GainControl.step s e = some t) : Kept s := by
  obtain ⟨hlog, hwait⟩ := hs
  cases step_sound hstep with
  | called => exact ⟨hlog, hwait⟩
  | publishOn =>
      refine ⟨notCut_concat_on.mp hlog, fun hovertaken => hwait ?_⟩
      rw [Overtaken] at hovertaken ⊢
      simp only [State.send, ons_concat]
      split
      next hpc => simp only [hpc] at hovertaken; exact Nat.lt_add_right _ hovertaken
      next hpc => simp only [hpc] at hovertaken; exact Nat.lt_add_right _ hovertaken
      next hpc => simp only [hpc] at hovertaken; exact Nat.lt_add_right _ hovertaken
      next hpc1 hpc2 hpc3 =>
        split at hovertaken
        next hpc => exact hpc1 hpc
        next hpc => exact hpc2 _ hpc
        next hpc => exact hpc3 _ hpc
        next => exact hovertaken
  | setNewTimer => exact ⟨hlog, hwait⟩
  | setGainOn => exact ⟨hlog, hwait⟩
  | setGainOff => exact ⟨hlog, hwait⟩
  | stop => exact ⟨hlog, hwait⟩
  | firstOff hpc =>
      obtain ⟨hlog, hnew⟩ := notCut_concat_off.mp hlog
      refine ⟨hlog, fun hovertaken => ?_⟩
      rw [Overtaken, hpc] at hovertaken
      cases hnew hovertaken
  | exit hpc => exact ⟨hlog, by rw [Overtaken, hpc]; exact id⟩
  | goOn hpc => exact ⟨hlog, by rw [Overtaken, hpc]; exact id⟩
  | found hpc => exact ⟨hlog, by rw [Overtaken, hpc]; exact id⟩
  | notFound hpc => exact ⟨hlog, by rw [Overtaken, hpc]; exact id⟩
  | cleared hpc => exact ⟨hlog, by rw [Overtaken, hpc]; exact id⟩
  | started hpc => exact ⟨hlog, by rw [Overtaken, hpc]; exact id⟩
  | elapsed hpc =>
      refine ⟨hlog, fun hovertaken => hwait ?_⟩
      rw [Overtaken, hpc] at hovertaken
      exact hovertaken
  | off hpc =>
      obtain ⟨hlog, hnew⟩ := notCut_concat_off.mp hlog
      refine ⟨hlog, fun hovertaken => ?_⟩
      rw [Overtaken, hpc] at hovertaken
      have hsame := Option.some.inj (hnew (Nat.zero_lt_of_lt hovertaken))
      exact absurd hsame (Nat.ne_of_lt hovertaken)
  | woke hpc => exact ⟨hlog, by rw [Overtaken, hpc]; exact id⟩

/-! ## Runs -/

theorem counted_initial : Counted (initial gainOn gainOff) := trivial

theorem kept_initial : Kept (initial gainOn gainOff) := by
  refine ⟨?_, Nat.lt_irrefl 0⟩
  intro pre gain started post heq
  exact absurd heq.symm (by simp [initial])

theorem overtaken_holding (hs : Overtaken s) : s.pc.holding = true := by
  rw [Overtaken] at hs
  split at hs
  next hpc => rw [hpc]; rfl
  next hpc => rw [hpc]; rfl
  next hpc => rw [hpc]; rfl
  next => exact absurd hs id

/-- If every ON of a run falls outside the waits of the worker, no OFF of the
run cuts a burst; and if no OFF has cut one in a run that has come out of its
waits, every ON fell outside them. -/
theorem notCut_run (run : Run gainOn gainOff h s) :
    ((∀ p ∈ h, OutsideWait p.1 p.2) → (∀ p ∈ h, NotCut p.1.log) ∧ NotCut s.log) ∧
      (s.pc.holding = false → NotCut s.log → ∀ p ∈ h, OutsideWait p.1 p.2) := by
  have hsafe : ((∀ p ∈ h, Kept p.1) ∧ Kept s) ↔ ∀ p ∈ h, OutsideWait p.1 p.2 :=
    run.safe_iff (P := Counted) counted_initial kept_initial Counted.step kept_step_iff
  constructor
  · intro hall
    obtain ⟨hh, hs⟩ := hsafe.mpr hall
    exact ⟨fun p hp => (hh p hp).1, hs.1⟩
  · intro hout hlog
    have hs : Kept s := by
      refine ⟨hlog, fun hovertaken => ?_⟩
      exact absurd (hout.symm.trans (overtaken_holding hovertaken)) Bool.false_ne_true
    exact hsafe.mp ⟨run.history_of_end (fun hstep hkept => hkept.before hstep) hs, hs⟩

/-- One trigger, with its wait and its OFF. -/
def oneTrigger : List (Event Nat) :=
  [.work, .packetHandler, .publishOn, .setNewTimer, .work, .work, .work, .work, .work, .work]

theorem notCut_run_oneTrigger :
    ∃ r, Transition.exec step (initial 90 0) oneTrigger = some r ∧
      r.2.log = [.off 0 none, .on 90, .off 0 (some 1)] ∧
      (((∀ p ∈ r.1, OutsideWait p.1 p.2) → (∀ p ∈ r.1, NotCut p.1.log) ∧ NotCut r.2.log) ∧
        (r.2.pc.holding = false → NotCut r.2.log → ∀ p ∈ r.1, OutsideWait p.1 p.2)) := by
  obtain ⟨r, hr, hlog⟩ : ∃ r, Transition.exec step (initial 90 0) oneTrigger = some r ∧
      r.2.log = [.off 0 none, .on 90, .off 0 (some 1)] := ⟨_, rfl, rfl⟩
  exact ⟨r, hr, hlog, notCut_run (Transition.exec_run hr)⟩

/-- A second trigger during the wait of the first. -/
theorem notCut_fails_retriggered :
    ∃ (h : List (State Nat × Event Nat)) (s : State Nat), Run 90 0 h s ∧ ¬ NotCut s.log := by
  obtain ⟨r, hr, hlog⟩ :
      ∃ r, Transition.exec step (initial 90 0)
          [.work, .packetHandler, .publishOn, .setNewTimer, .work, .work, .work, .work,
            .packetHandler, .publishOn, .work, .work] = some r ∧
        r.2.log = [.off 0 none, .on 90, .on 90, .off 0 (some 1)] := ⟨_, rfl, rfl⟩
  refine ⟨r.1, r.2, Transition.exec_run hr, fun hnot => ?_⟩
  have hlast := hnot [.off 0 none, .on 90, .on 90] 0 (some 1) [] (by rw [hlog]; rfl) (by decide)
  exact absurd hlast (by decide)

end GainControl

end GsSDR
