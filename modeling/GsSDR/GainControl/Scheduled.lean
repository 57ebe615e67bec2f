import GsSDR.GainControl.Worker
import GsSDR.Lib.Progress

/-!
# Every ON has an OFF behind it

A trigger may fall anywhere between the steps of the worker, also between the
test of the flag and its clearing, and is then merged with the one before.  But
the flag is only cleared on the way to an OFF, so a trigger whose flag is lost
has that OFF behind it.  On that way the worker does not test the flag, and it
is four of its steps long at most (`off_first`).
-/

namespace GsSDR

namespace GainControl

open Transition (calls calls_concat)

variable {γ : Type*} {gainOn gainOff : γ} {h : List (State γ × Event γ)} {s t : State γ}
  {e : Event γ}

/-- From here the worker publishes an OFF without testing the flag again. -/
def Pc.willPublishOff : Pc → Bool
  | .starting | .clear | .startWait | .waiting _ | .publishOff _ => true
  | _ => false

/-- The steps of the worker up to its next OFF, when it finds the flag set. -/
def Pc.offWithin : Pc → Nat
  | .starting => 1
  | .exitTest => 6
  | .flagTest => 5
  | .clear => 4
  | .startWait => 3
  | .waiting _ => 2
  | .publishOff _ => 1
  | .sleep => 7
  | .returned => 0

/-- If the gain is on, an OFF is to come. -/
def Scheduled (s : State γ) : Prop :=
  LastOn s.log →
    s.newTimer = true ∨ s.handler = .published ∨ s.pc.willPublishOff = true

theorem scheduled_initial : Scheduled (initial gainOn gainOff) := by
  rintro ⟨gain, hlast⟩
  cases hlast

/-- A step of the worker to a place that comes before the flag has been tested
again. -/
theorem Scheduled.move (hs : Scheduled s) (hpc : s.pc.willPublishOff = false)
    (hlog : t.log = s.log) (hflag : t.newTimer = s.newTimer) (hhandler : t.handler = s.handler) :
    Scheduled t := by
  intro hon
  rw [hlog] at hon
  rw [hflag, hhandler]
  rcases hs hon with hset | hpublished | hwill
  · exact .inl hset
  · exact .inr (.inl hpublished)
  · exact absurd (hpc.symm.trans hwill) Bool.false_ne_true

theorem Scheduled.step (hs : Scheduled s) (hstep : GainControl.step s e = some t) :
    Scheduled t := by
  cases step_sound hstep with
  | called hidle =>
      intro hon
      rcases hs hon with hset | hpublished | hwill
      · exact .inl hset
      · rw [hidle] at hpublished
        cases hpublished
      · exact .inr (.inr hwill)
  | publishOn => exact fun _ => .inr (.inl rfl)
  | setNewTimer => exact fun _ => .inl rfl
  | setGainOn => exact hs
  | setGainOff => exact hs
  | stop => exact hs
  | firstOff => exact fun hon => absurd hon (not_lastOn_concat _ _ _)
  | exit hpc _ => exact hs.move (by rw [hpc]; rfl) rfl rfl rfl
  | goOn hpc _ => exact hs.move (by rw [hpc]; rfl) rfl rfl rfl
  | found => exact fun _ => .inr (.inr rfl)
  | notFound hpc _ => exact hs.move (by rw [hpc]; rfl) rfl rfl rfl
  | cleared => exact fun _ => .inr (.inr rfl)
  | started => exact fun _ => .inr (.inr rfl)
  | elapsed => exact fun _ => .inr (.inr rfl)
  | off => exact fun hon => absurd hon (not_lastOn_concat _ _ _)
  | woke hpc => exact hs.move (by rw [hpc]; rfl) rfl rfl rfl

theorem Run.isScheduled (run : Run gainOn gainOff h s) : Scheduled s :=
  Transition.Run.invariant scheduled_initial Scheduled.step run

/-! ## The scheduled OFF -/

theorem offWithin_pos (hwill : s.pc.willPublishOff = true) : 0 < s.pc.offWithin := by
  cases hpc : s.pc with
  | returned => simp [hpc, Pc.willPublishOff] at hwill
  | _ => simp [Pc.offWithin]

theorem offWithin_le_four (hwill : s.pc.willPublishOff = true) : s.pc.offWithin ≤ 4 := by
  cases hpc : s.pc with
  | exitTest | flagTest | sleep => simp [hpc, Pc.willPublishOff] at hwill
  | _ => simp [Pc.offWithin]

/-- Where an OFF is to come, a step publishes it or leaves it to come, and each step of
the worker is one of those up to it. -/
theorem willPublishOff_step (hwill : s.pc.willPublishOff = true) (hstep : step s e = some t) :
    offs s.log < offs t.log ∨
      t.pc.willPublishOff = true ∧
        t.pc.offWithin + (if e.isWork then 1 else 0) ≤ s.pc.offWithin := by
  cases step_sound hstep with
  | called => exact .inr ⟨hwill, Nat.le_refl _⟩
  | publishOn => exact .inr ⟨hwill, Nat.le_refl _⟩
  | setNewTimer => exact .inr ⟨hwill, Nat.le_refl _⟩
  | setGainOn => exact .inr ⟨hwill, Nat.le_refl _⟩
  | setGainOff => exact .inr ⟨hwill, Nat.le_refl _⟩
  | stop => exact .inr ⟨hwill, Nat.le_refl _⟩
  | firstOff => exact .inl (by simp [State.send])
  | cleared hpc => exact .inr ⟨rfl, by rw [hpc]; exact Nat.le_refl 4⟩
  | started hpc => exact .inr ⟨rfl, by rw [hpc]; exact Nat.le_refl 3⟩
  | elapsed hpc => exact .inr ⟨rfl, by rw [hpc]; exact Nat.le_refl 2⟩
  | off => exact .inl (by simp [State.send])
  | exit hpc _ | goOn hpc _ | found hpc _ | notFound hpc _ | woke hpc =>
      rw [hpc] at hwill
      cases hwill

/-- Up to that OFF the worker makes less than four steps, and stays where the OFF is to
come. -/
theorem off_first (hwill : s.pc.willPublishOff = true) (go : Transition.Run step s h t) :
    offs s.log < offs t.log ∨
      t.pc.willPublishOff = true ∧ calls Event.isWork h + t.pc.offWithin ≤ s.pc.offWithin := by
  induction go with
  | nil => exact .inr ⟨hwill, Nat.le_of_eq (Nat.zero_add _)⟩
  | @snoc h u t e prev hstep ih =>
      rcases ih with hoff | ⟨hu, hcalls⟩
      · exact .inl (Nat.lt_of_lt_of_le hoff (offs_step hstep))
      · rcases willPublishOff_step hu hstep with hoff | ⟨ht, hleft⟩
        · exact .inl (Nat.lt_of_le_of_lt (offs_run prev) hoff)
        · refine .inr ⟨ht, ?_⟩
          rw [calls_concat]
          omega

/-- In every state that a run reaches, an ON has its OFF scheduled.  Where the worker
publishes it without testing the flag again, it does so within four of its steps, and
it is in front of no test of the flag before. -/
theorem on_scheduled (run : Run gainOn gainOff h s) (hon : LastOn s.log) :
    (s.newTimer = true ∨ s.handler = .published ∨ s.pc.willPublishOff = true) ∧
      (s.pc.willPublishOff = true → ∀ h' t, Transition.Run step s h' t →
        offs s.log < offs t.log ∨
          t.pc ≠ .flagTest ∧ calls Event.isWork h' < 4 ∧ ∃ u, step t .work = some u) := by
  refine ⟨run.isScheduled hon, fun hwill h' t go => ?_⟩
  rcases off_first hwill go with hoff | ⟨ht, hcalls⟩
  · exact .inl hoff
  · have hpos := offWithin_pos ht
    have hfour := offWithin_le_four hwill
    refine .inr ⟨?_, by omega, work_isSome ?_⟩
    · intro hpc
      rw [hpc] at ht
      cases ht
    · intro hpc
      rw [hpc] at ht
      cases ht

/-- A trigger between the test of the flag and its clearing, and four steps of the
worker with one more trigger among them. -/
theorem on_scheduled_merged :
    ∃ r r', Transition.exec step (initial 90 0)
        [.packetHandler, .publishOn, .setNewTimer, .work, .work, .work, .packetHandler,
          .publishOn, .setNewTimer] = some r ∧
      Transition.exec step r.2
        [.work, .work, .packetHandler, .publishOn, .work, .work] = some r' ∧
      (r.2.newTimer = true ∨ r.2.handler = .published ∨ r.2.pc.willPublishOff = true) ∧
      offs r.2.log < offs r'.2.log := by
  obtain ⟨r, hr, r', hr', hon, hwill, hcalls⟩ :
      ∃ r, Transition.exec step (initial 90 0)
          [.packetHandler, .publishOn, .setNewTimer, .work, .work, .work, .packetHandler,
            .publishOn, .setNewTimer] = some r ∧
        ∃ r', Transition.exec step r.2
            [.work, .work, .packetHandler, .publishOn, .work, .work] = some r' ∧
          LastOn r.2.log ∧ r.2.pc.willPublishOff = true ∧ calls Event.isWork r'.1 = 4 :=
    ⟨_, rfl, _, rfl, ⟨90, rfl⟩, rfl, rfl⟩
  obtain ⟨hscheduled, hfirst⟩ := on_scheduled (Transition.exec_run hr) hon
  refine ⟨r, r', hr, hr', hscheduled, ?_⟩
  rcases hfirst hwill r'.1 r'.2 (Transition.exec_run hr') with hoff | ⟨_, hless, _⟩
  · exact hoff
  · omega

end GainControl

end GsSDR
