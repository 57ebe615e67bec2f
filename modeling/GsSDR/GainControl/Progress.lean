import GsSDR.GainControl.Scheduled
import GsSDR.Lib.Progress

/-!
# How long the gain is on

A step of the worker may take any time, so time is counted in steps of the worker.

When a call of `packet_handler` has come to its end and no stop is requested, the worker
publishes an OFF within seven steps, whatever triggers come meanwhile (`off_within`).
Behind a stop it makes at most six steps and publishes at most one OFF, and it is not
stuck before it has returned (`returns_within`).  And there are never more OFFs than the
first one and one for each ON (`offs_le_ons`).
-/

namespace GsSDR

namespace GainControl

open Transition (Within calls)

variable {γ : Type*} {gainOn gainOff : γ} {h h' : List (State γ × Event γ)} {s t : State γ}
  {e : Event γ}

/-- No stop is requested. -/
def Event.keepsOn : Event γ → Bool
  | .threadDeInit => false
  | _ => true

/-! ## Up to the next OFF -/

/-- At most this many steps of the worker are left to an OFF behind the first `k`. -/
structure OffDue (k n : Nat) (s : State γ) : Prop where
  goesOn : s.exitRequested = false
  running : s.pc ≠ .returned
  offs : k ≤ GainControl.offs s.log
  comes : s.newTimer = true ∨ s.pc.willPublishOff = true
  left : s.pc.offWithin ≤ n

/-- A step of the worker publishes the OFF or is one of those that are left. -/
theorem OffDue.work {k n : Nat} (hs : OffDue k (n + 1) s) (hstep : step s .work = some t) :
    OffDue k n t ∨ k < GainControl.offs t.log := by
  obtain ⟨hno, _, hoffs, hcomes, hleft⟩ := hs
  have hflag : s.pc.willPublishOff = false → s.newTimer = true := by
    intro hnot
    rcases hcomes with hset | hwill
    · exact hset
    · rw [hnot] at hwill
      cases hwill
  cases step_sound hstep with
  | firstOff hpc =>
      refine .inr ?_
      simp only [State.send, offs_off]
      omega
  | exit hpc hexit =>
      rw [hno] at hexit
      cases hexit
  | goOn hpc _ =>
      rw [hpc] at hleft
      exact .inl ⟨hno, Pc.noConfusion, hoffs, .inl (hflag (by rw [hpc]; rfl)),
        Nat.le_of_succ_le_succ hleft⟩
  | found hpc hset =>
      rw [hpc] at hleft
      exact .inl ⟨hno, Pc.noConfusion, hoffs, .inr rfl, Nat.le_of_succ_le_succ hleft⟩
  | notFound hpc hclear =>
      rw [hflag (by rw [hpc]; rfl)] at hclear
      cases hclear
  | cleared hpc =>
      rw [hpc] at hleft
      exact .inl ⟨hno, Pc.noConfusion, hoffs, .inr rfl, Nat.le_of_succ_le_succ hleft⟩
  | started hpc =>
      rw [hpc] at hleft
      exact .inl ⟨hno, Pc.noConfusion, hoffs, .inr rfl, Nat.le_of_succ_le_succ hleft⟩
  | elapsed hpc =>
      rw [hpc] at hleft
      exact .inl ⟨hno, Pc.noConfusion, hoffs, .inr rfl, Nat.le_of_succ_le_succ hleft⟩
  | off hpc =>
      refine .inr ?_
      simp only [State.send, offs_off]
      omega
  | woke hpc =>
      rw [hpc] at hleft
      exact .inl ⟨hno, Pc.noConfusion, hoffs, .inl (hflag (by rw [hpc]; rfl)),
        Nat.le_of_succ_le_succ hleft⟩

theorem off_due (k : Nat) :
    Within (step (γ := γ)) Event.isWork Event.keepsOn (OffDue k) (k < offs ·.log) where
  done := by
    intro s hs
    have hleft := hs.left
    have hrunning := hs.running
    cases hpc : s.pc with
    | returned => exact absurd hpc hrunning
    | _ => simp [hpc, Pc.offWithin] at hleft
  call := by
    intro n s e t hs hstep _ hown
    cases e with
    | work => exact hs.work hstep
    | _ => cases hown
  outside := by
    intro n s e t hs hstep hok hown
    cases step_sound hstep with
    | called => exact .inl ⟨hs.goesOn, hs.running, hs.offs, hs.comes, hs.left⟩
    | publishOn =>
        refine .inl ⟨hs.goesOn, hs.running, ?_, hs.comes, hs.left⟩
        simpa [State.send] using hs.offs
    | setNewTimer => exact .inl ⟨hs.goesOn, hs.running, hs.offs, .inl rfl, hs.left⟩
    | setGainOn => exact .inl ⟨hs.goesOn, hs.running, hs.offs, hs.comes, hs.left⟩
    | setGainOff => exact .inl ⟨hs.goesOn, hs.running, hs.offs, hs.comes, hs.left⟩
    | stop => cases hok
    | _ => cases hown
  stays := fun hs hstep _ => Nat.lt_of_lt_of_le hs (offs_step hstep)
  next := by
    intro n s hs _
    obtain ⟨t, hstep⟩ := work_isSome hs.running
    exact ⟨.work, t, rfl, rfl, hstep⟩

/-- The worker returns behind a stop only. -/
theorem Run.running (run : Run gainOn gainOff h s) :
    s.pc = .returned → s.exitRequested = true := by
  refine Transition.Run.invariant (P := fun s : State γ => s.pc = .returned →
    s.exitRequested = true) (by simp [initial]) ?_ run
  intro s e t hs hstep
  cases step_sound hstep with
  | called => exact hs
  | publishOn => exact hs
  | setNewTimer => exact hs
  | setGainOn => exact hs
  | setGainOff => exact hs
  | stop => exact fun _ => rfl
  | exit _ hexit => exact fun _ => hexit
  | _ => exact fun hpc => by cases hpc

/-- When the gain is on and the call that switched it on has come to its end, there is an
OFF behind seven steps of the worker, unless a stop is requested. -/
theorem off_within (run : Run gainOn gainOff h s) (hno : s.exitRequested = false)
    (hon : LastOn s.log) (hended : s.handler ≠ .published) (go : Transition.Run step s h' t)
    (hkeeps : ∀ p ∈ h', p.2.keepsOn = true) (hcalls : 7 ≤ calls Event.isWork h') :
    offs s.log < offs t.log := by
  refine (off_due (offs s.log)).reached ⟨hno, ?_, Nat.le_refl _, ?_, ?_⟩ go hkeeps hcalls
  · intro hpc
    rw [run.running hpc] at hno
    cases hno
  · rcases run.isScheduled hon with hset | hpublished | hwill
    · exact .inl hset
    · exact absurd hpublished hended
    · exact .inr hwill
  · cases s.pc <;> simp [Pc.offWithin]

/-- A trigger while the worker sleeps. -/
theorem off_within_sleeping :
    ∃ r r', Transition.exec step (initial 90 0)
        [.work, .work, .work, .packetHandler, .publishOn, .setNewTimer] = some r ∧
      Transition.exec step r.2 [.work, .work, .work, .work, .packetHandler, .publishOn,
        .setNewTimer, .work, .work, .work] = some r' ∧
      offs r.2.log < offs r'.2.log := by
  obtain ⟨r, hr, r', hr', hno, hon, hended, hkeeps, hcalls⟩ :
      ∃ r, Transition.exec step (initial 90 0)
          [.work, .work, .work, .packetHandler, .publishOn, .setNewTimer] = some r ∧
        ∃ r', Transition.exec step r.2 [.work, .work, .work, .work, .packetHandler, .publishOn,
            .setNewTimer, .work, .work, .work] = some r' ∧
          r.2.exitRequested = false ∧ LastOn r.2.log ∧ r.2.handler ≠ .published ∧
          (r'.1.all fun p => p.2.keepsOn) = true ∧ 7 ≤ calls Event.isWork r'.1 :=
    ⟨_, rfl, _, rfl, rfl, ⟨90, rfl⟩, Handler.noConfusion, rfl,
      by exact Nat.le_refl 7⟩
  exact ⟨r, r', hr, hr', off_within (Transition.exec_run hr) hno hon hended
    (Transition.exec_run hr') (fun p hp => List.all_eq_true.mp hkeeps p hp) hcalls⟩

/-! ## Behind a stop -/

/-- The steps that the worker makes behind a stop. -/
def Pc.stopSteps : Pc → Nat
  | .starting => 2
  | .exitTest => 1
  | .flagTest => 6
  | .clear => 5
  | .startWait => 4
  | .waiting _ => 3
  | .publishOff _ => 2
  | .sleep => 2
  | .returned => 0

/-- The OFFs that it publishes there. -/
def Pc.stopOffs : Pc → Nat
  | .exitTest | .sleep | .returned => 0
  | _ => 1

/-- What is left behind a stop does not grow from the one state to the other. -/
structure Left (s t : State γ) : Prop where
  steps : t.pc.stopSteps ≤ s.pc.stopSteps
  offs : GainControl.offs t.log + t.pc.stopOffs ≤ GainControl.offs s.log + s.pc.stopOffs

/-- A step of the worker that publishes nothing. -/
theorem left_moved {pc pc' : Pc} (hs : s.pc = pc) (ht : t.pc = pc') (hlog : t.log = s.log)
    (hsteps : pc'.stopSteps < pc.stopSteps) (hoffs : pc'.stopOffs ≤ pc.stopOffs) :
    t.pc.stopSteps < s.pc.stopSteps ∧ Left s t := by
  subst hs ht
  refine ⟨hsteps, Nat.le_of_lt hsteps, ?_⟩
  rw [hlog]
  exact Nat.add_le_add_left hoffs _

/-- With a stop requested, each step of the worker is one of those that are left. -/
theorem left_work (hexit : s.exitRequested = true) (hstep : step s .work = some t) :
    t.pc.stopSteps < s.pc.stopSteps ∧ Left s t := by
  cases step_sound hstep with
  | firstOff hpc =>
      refine ⟨by rw [hpc]; exact Nat.le_refl 2, by rw [hpc]; exact Nat.le_succ 1, ?_⟩
      simp [State.send, hpc, Pc.stopOffs]
  | exit hpc _ => exact left_moved hpc rfl rfl (Nat.zero_lt_one) (Nat.le_refl 0)
  | goOn _ hno =>
      rw [hexit] at hno
      cases hno
  | found hpc _ => exact left_moved hpc rfl rfl (Nat.lt_succ_self 5) (Nat.le_refl 1)
  | notFound hpc _ => exact left_moved hpc rfl rfl (by simp [Pc.stopSteps]) (Nat.zero_le 1)
  | cleared hpc => exact left_moved hpc rfl rfl (Nat.lt_succ_self 4) (Nat.le_refl 1)
  | started hpc => exact left_moved hpc rfl rfl (Nat.lt_succ_self 3) (Nat.le_refl 1)
  | elapsed hpc => exact left_moved hpc rfl rfl (Nat.lt_succ_self 2) (Nat.le_refl 1)
  | off hpc =>
      refine ⟨by rw [hpc]; exact Nat.le_refl 2, by rw [hpc]; exact Nat.le_succ 1, ?_⟩
      simp [State.send, hpc, Pc.stopOffs]
  | woke hpc => exact left_moved hpc rfl rfl (Nat.lt_succ_self 1) (Nat.le_refl 0)

/-- What others do takes back no stop and leaves the worker where it is. -/
theorem outside_step (hexit : s.exitRequested = true) (hown : e.isWork = false)
    (hstep : step s e = some t) :
    t.exitRequested = true ∧ t.pc = s.pc ∧ offs t.log = offs s.log := by
  cases step_sound hstep with
  | called => exact ⟨hexit, rfl, rfl⟩
  | publishOn => exact ⟨hexit, rfl, offs_on _ _⟩
  | setNewTimer => exact ⟨hexit, rfl, rfl⟩
  | setGainOn => exact ⟨hexit, rfl, rfl⟩
  | setGainOff => exact ⟨hexit, rfl, rfl⟩
  | stop => exact ⟨rfl, rfl, rfl⟩
  | _ => cases hown

theorem exitRequested_work (hstep : step s .work = some t) :
    t.exitRequested = s.exitRequested := by
  cases step_sound hstep <;> rfl

/-- Behind a stop the worker makes at most six steps and publishes at most one OFF,
whatever comes in, and it has a next step until it has returned. -/
theorem returns_within (hexit : s.exitRequested = true) (go : Transition.Run step s h t) :
    calls Event.isWork h ≤ 6 ∧ offs t.log ≤ offs s.log + 1 ∧
      (t.pc = .returned ∨ ∃ u, step t .work = some u) := by
  have hkeep : ∀ {u : State γ} {e : Event γ} {v : State γ},
      u.exitRequested = true ∧ Left s u → step u e = some v → true = true →
        (v.exitRequested = true ∧ Left s v) ∧
          v.pc.stopSteps + (if e.isWork then 1 else 0) ≤ u.pc.stopSteps := by
    rintro u e v ⟨hu, hsteps, hoffs⟩ hstep _
    cases hown : e.isWork with
    | true =>
        obtain rfl : e = .work := by
          cases e with
          | work => rfl
          | _ => cases hown
        obtain ⟨hless, hv⟩ := left_work hu hstep
        exact ⟨⟨(exitRequested_work hstep).trans hu, Nat.le_trans hv.steps hsteps,
          Nat.le_trans hv.offs hoffs⟩, hless⟩
    | false =>
        obtain ⟨hv, hpc, hlog⟩ := outside_step hu hown hstep
        refine ⟨⟨hv, by rw [hpc]; exact hsteps, by rw [hpc, hlog]; exact hoffs⟩, ?_⟩
        rw [hpc]
        exact Nat.le_refl _
  obtain ⟨⟨_, hleft⟩, hcalls⟩ := @Transition.calls_add_measure _ _ step Event.isWork
    (fun _ => true) h s t (fun u => u.exitRequested = true ∧ Left s u)
    (fun u => u.pc.stopSteps) hkeep ⟨hexit, Nat.le_refl _, Nat.le_refl _⟩ go fun _ _ => rfl
  have hsix : s.pc.stopSteps ≤ 6 := by cases s.pc <;> simp [Pc.stopSteps]
  have hone : s.pc.stopOffs ≤ 1 := by cases s.pc <;> simp [Pc.stopOffs]
  have hless := hleft.offs
  refine ⟨by omega, by omega, ?_⟩
  by_cases hpc : t.pc = .returned
  · exact .inl hpc
  · exact .inr (work_isSome hpc)

/-- A stop behind the test of the flag, with a trigger that comes later. -/
theorem returns_within_triggered :
    ∃ r r', Transition.exec step (initial 90 0) [.work, .work, .threadDeInit] = some r ∧
      Transition.exec step r.2 [.packetHandler, .publishOn, .setNewTimer, .work, .work, .work] =
        some r' ∧
      calls Event.isWork r'.1 ≤ 6 ∧ offs r'.2.log ≤ offs r.2.log + 1 ∧
      (r'.2.pc = .returned ∨ ∃ u, step r'.2 .work = some u) := by
  obtain ⟨r, hr, r', hr', hexit⟩ :
      ∃ r, Transition.exec step (initial 90 0) [.work, .work, .threadDeInit] = some r ∧
        ∃ r', Transition.exec step r.2
            [.packetHandler, .publishOn, .setNewTimer, .work, .work, .work] = some r' ∧
          r.2.exitRequested = true := ⟨_, rfl, _, rfl, rfl⟩
  exact ⟨r, r', hr, hr', returns_within hexit (Transition.exec_run hr')⟩

/-! ## All OFFs -/

/-- The flag is yet to be set. -/
def Handler.pending : Handler → Nat
  | .published => 1
  | _ => 0

/-- An OFF is to come for a flag that has been cleared, or at the start. -/
def Pc.pending : Pc → Nat
  | .starting | .startWait | .waiting _ | .publishOff _ => 1
  | _ => 0

/-- The OFFs, with those that come without a further trigger, belong to the start and
the ONs. -/
structure Matched (s : State γ) : Prop where
  clearing : s.pc = .clear → s.newTimer = true
  offs : offs s.log + s.newTimer.toNat + s.handler.pending + s.pc.pending ≤ 1 + ons s.log

theorem matched_initial : Matched (initial gainOn gainOff) where
  clearing := Pc.noConfusion
  offs := Nat.le_refl 1

/-- A step of the worker that changes nothing that is counted. -/
theorem Matched.move (hs : Matched s) {pc pc' : Pc} (hpc : s.pc = pc)
    (hpending : pc'.pending = pc.pending) (hclearing : pc' = .clear → s.newTimer = true) :
    Matched { s with pc := pc' } := by
  refine ⟨hclearing, ?_⟩
  have hoffs := hs.offs
  rw [hpc, ← hpending] at hoffs
  exact hoffs

theorem Matched.step (hs : Matched s) (hstep : GainControl.step s e = some t) : Matched t := by
  have hoffs := hs.offs
  cases step_sound hstep with
  | called hidle =>
      rw [hidle] at hoffs
      exact ⟨hs.clearing, hoffs⟩
  | publishOn hcalled =>
      refine ⟨hs.clearing, ?_⟩
      simp only [hcalled, Handler.pending, State.send, offs_on, ons_concat, Command.isOn,
        Bool.toNat_true] at hoffs ⊢
      omega
  | setNewTimer hpublished =>
      refine ⟨fun _ => rfl, ?_⟩
      simp only [hpublished, Handler.pending, Bool.toNat_true] at hoffs ⊢
      omega
  | setGainOn => exact ⟨hs.clearing, hoffs⟩
  | setGainOff => exact ⟨hs.clearing, hoffs⟩
  | stop => exact ⟨hs.clearing, hoffs⟩
  | firstOff hpc =>
      refine ⟨Pc.noConfusion, ?_⟩
      simp only [hpc, Pc.pending, State.send, offs_off, ons_concat, Command.isOn,
        Bool.toNat_false] at hoffs ⊢
      omega
  | exit hpc _ => exact hs.move hpc rfl Pc.noConfusion
  | goOn hpc _ => exact hs.move hpc rfl Pc.noConfusion
  | found hpc hset => exact hs.move hpc rfl fun _ => hset
  | notFound hpc _ => exact hs.move hpc rfl Pc.noConfusion
  | cleared hpc =>
      refine ⟨Pc.noConfusion, ?_⟩
      simp only [hpc, hs.clearing hpc, Pc.pending, Bool.toNat_true, Bool.toNat_false] at hoffs ⊢
      omega
  | started hpc => exact hs.move hpc rfl Pc.noConfusion
  | elapsed hpc => exact hs.move hpc rfl Pc.noConfusion
  | off hpc =>
      refine ⟨Pc.noConfusion, ?_⟩
      simp only [hpc, Pc.pending, State.send, offs_off, ons_concat, Command.isOn,
        Bool.toNat_false] at hoffs ⊢
      omega
  | woke hpc => exact hs.move hpc rfl Pc.noConfusion

/-- Behind the first OFF there is none without an ON of its own. -/
theorem offs_le_ons (run : Run gainOn gainOff h s) : offs s.log ≤ 1 + ons s.log := by
  have hmatched : Matched s := Transition.Run.invariant matched_initial Matched.step run
  have hoffs := hmatched.offs
  omega

/-- Two triggers, the second in front of the clearing of the flag. -/
theorem offs_le_ons_merged :
    ∃ r, Transition.exec step (initial 90 0)
        [.packetHandler, .publishOn, .setNewTimer, .work, .work, .work, .packetHandler,
          .publishOn, .setNewTimer, .work, .work, .work, .work, .work, .work] = some r ∧
      offs r.2.log = 2 ∧ ons r.2.log = 2 ∧ offs r.2.log ≤ 1 + ons r.2.log := by
  obtain ⟨r, hr, hoffs, hons⟩ :
      ∃ r, Transition.exec step (initial 90 0)
          [.packetHandler, .publishOn, .setNewTimer, .work, .work, .work, .packetHandler,
            .publishOn, .setNewTimer, .work, .work, .work, .work, .work, .work] = some r ∧
        offs r.2.log = 2 ∧ ons r.2.log = 2 := ⟨_, rfl, rfl, rfl⟩
  exact ⟨r, hr, hoffs, hons, offs_le_ons (Transition.exec_run hr)⟩

end GainControl

end GsSDR
