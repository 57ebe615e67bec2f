import Mathlib.Data.List.Basic

/-!
# Runs of a partial step function

A machine is a function `step : σ → ε → Option σ`, where `none` says that the
event cannot happen in the state.  A run is kept with its history: the states
it left, each with the event taken there.  So a statement about every step of a
run and a statement about every state it passes are both statements about
members of one list.

`Run.invariant` is the usual rule.  `Run.safe_iff` is the rule for a property
that a step may break: when a step keeps it exactly under a condition on the
state it leaves and the event, a run keeps it in every state exactly when all
its steps meet the condition.
-/

namespace Transition

variable {σ ε : Type*}

/-- `Run step s₀ h s`: the machine goes from `s₀` to `s`, and `h` lists the
states it left with the events taken there, oldest first. -/
inductive Run (step : σ → ε → Option σ) (s₀ : σ) : List (σ × ε) → σ → Prop where
  | nil : Run step s₀ [] s₀
  | snoc {h : List (σ × ε)} {s t : σ} {e : ε} :
      Run step s₀ h s → step s e = some t → Run step s₀ (h ++ [(s, e)]) t

variable {step : σ → ε → Option σ} {s₀ : σ} {h : List (σ × ε)} {s : σ}

/-- A property of the initial state that every step keeps holds at the end of
every run. -/
theorem Run.invariant {P : σ → Prop} (init : P s₀)
    (keep : ∀ {s e t}, P s → step s e = some t → P t)
    (run : Run step s₀ h s) : P s := by
  induction run with
  | nil => exact init
  | snoc _ hstep ih => exact keep ih hstep

/-- An invariant also holds in every state that the run has left. -/
theorem Run.invariant_history {P : σ → Prop} (init : P s₀)
    (keep : ∀ {s e t}, P s → step s e = some t → P t)
    (run : Run step s₀ h s) : ∀ p ∈ h, P p.1 := by
  induction run with
  | nil => intro p hp; cases hp
  | snoc prev _ ih =>
      intro p hp
      rcases List.mem_append.mp hp with hp | hp
      · exact ih p hp
      · rw [List.mem_singleton.mp hp]
        exact prev.invariant init keep

/-- The events of the history have been taken. -/
theorem Run.step_of_mem (run : Run step s₀ h s) : ∀ p ∈ h, ∃ t, step p.1 p.2 = some t := by
  induction run with
  | nil => intro p hp; cases hp
  | @snoc h s t e prev hstep ih =>
      intro p hp
      rcases List.mem_append.mp hp with hp | hp
      · exact ih p hp
      · rw [List.mem_singleton.mp hp]
        exact ⟨t, hstep⟩

/-- A run can go on with another one. -/
theorem Run.trans {h' : List (σ × ε)} {t : σ} (run : Run step s₀ h s) (next : Run step s h' t) :
    Run step s₀ (h ++ h') t := by
  induction next with
  | nil =>
      rw [List.append_nil]
      exact run
  | snoc _ hstep ih =>
      rw [← List.append_assoc]
      exact ih.snoc hstep

/-- What comes before an event of the history is a run of its own. -/
theorem Run.before (run : Run step s₀ h s) :
    ∀ {h₁ h₂ : List (σ × ε)} {p : σ × ε}, h = h₁ ++ p :: h₂ →
      Run step s₀ h₁ p.1 ∧ ∃ t, step p.1 p.2 = some t := by
  induction run with
  | nil => intro h₁ h₂ p hsplit; simp at hsplit
  | @snoc h s t e prev hstep ih =>
      intro h₁ h₂ p hsplit
      rcases List.eq_nil_or_concat h₂ with rfl | ⟨h₃, q, rfl⟩
      · obtain ⟨rfl, hlast⟩ := List.append_inj' hsplit rfl
        cases hlast
        exact ⟨prev, t, hstep⟩
      · rw [List.concat_eq_append, ← List.cons_append, ← List.append_assoc] at hsplit
        exact ih (List.append_inj' hsplit rfl).1

/-- What a state can only have if the state before has it, all states of a run
have that ends in such a state. -/
theorem Run.history_of_end {P : σ → Prop} (back : ∀ {s e t}, step s e = some t → P t → P s)
    (run : Run step s₀ h s) (hs : P s) : ∀ p ∈ h, P p.1 := by
  induction run with
  | nil => intro p hp; cases hp
  | snoc _ hstep ih =>
      intro p hp
      rcases List.mem_append.mp hp with hp | hp
      · exact ih (back hstep hs) p hp
      · rw [List.mem_singleton.mp hp]
        exact back hstep hs

/-- A property that steps keep under a condition holds in every state of a run
whose steps all meet the condition. -/
theorem Run.invariant_of_history {P : σ → Prop} {C : σ → ε → Prop} (init : P s₀)
    (keep : ∀ {s e t}, P s → C s e → step s e = some t → P t)
    (run : Run step s₀ h s) (cond : ∀ p ∈ h, C p.1 p.2) : (∀ p ∈ h, P p.1) ∧ P s := by
  induction run with
  | nil => exact ⟨by simp, init⟩
  | snoc _ hstep ih =>
      simp only [List.mem_append, List.mem_singleton, or_imp, forall_and, forall_eq] at cond ⊢
      obtain ⟨hh, hs⟩ := ih cond.1
      exact ⟨⟨hh, hs⟩, keep hs cond.2 hstep⟩

/-- In particular it holds at the end of the run. -/
theorem Run.invariant_of {P : σ → Prop} {C : σ → ε → Prop} (init : P s₀)
    (keep : ∀ {s e t}, P s → C s e → step s e = some t → P t)
    (run : Run step s₀ h s) (cond : ∀ p ∈ h, C p.1 p.2) : P s :=
  (run.invariant_of_history init keep cond).2

/-- If, under an invariant, a step out of a good state is good exactly when a
condition holds before it, then all states of a run are good exactly when all
its steps meet the condition. -/
theorem Run.safe_iff {P G : σ → Prop} {C : σ → ε → Prop}
    (init : P s₀) (good : G s₀)
    (keep : ∀ {s e t}, P s → step s e = some t → P t)
    (exact_step : ∀ {s e t}, P s → G s → step s e = some t → (G t ↔ C s e))
    (run : Run step s₀ h s) :
    ((∀ p ∈ h, G p.1) ∧ G s) ↔ ∀ p ∈ h, C p.1 p.2 := by
  induction run with
  | nil =>
      constructor
      · intro _ p hp
        cases hp
      · intro _
        exact ⟨by simp, good⟩
  | @snoc h s t e prev hstep ih =>
      have hinv : P s := prev.invariant init keep
      simp only [List.mem_append, List.mem_singleton, or_imp, forall_and, forall_eq]
      constructor
      · rintro ⟨⟨hh, hs⟩, ht⟩
        exact ⟨ih.mp ⟨hh, hs⟩, (exact_step hinv hs hstep).mp ht⟩
      · rintro ⟨hh, hlast⟩
        obtain ⟨hh', hs⟩ := ih.mpr hh
        exact ⟨⟨hh', hs⟩, (exact_step hinv hs hstep).mpr hlast⟩

/-- If each step of a machine is done by steps of another one, perhaps none, then a
state that corresponds to another one by `R` still does so behind every run. -/
theorem Run.simulation {τ κ : Type*} {step' : τ → κ → Option τ} {R : τ → σ → Prop} {u₀ : τ}
    (init : R u₀ s₀)
    (sim : ∀ {u s e t}, R u s → step s e = some t → ∃ h' v, Run step' u h' v ∧ R v t)
    (run : Run step s₀ h s) : ∃ h' u, Run step' u₀ h' u ∧ R u s := by
  induction run with
  | nil => exact ⟨[], u₀, .nil, init⟩
  | snoc _ hstep ih =>
      obtain ⟨h', u, run', hu⟩ := ih
      obtain ⟨h'', v, next, hv⟩ := sim hu hstep
      exact ⟨h' ++ h'', v, run'.trans next, hv⟩

/-- Run a list of events, oldest first. -/
def exec (step : σ → ε → Option σ) (s : σ) : List ε → Option (List (σ × ε) × σ)
  | [] => some ([], s)
  | e :: es =>
      match step s e with
      | none => none
      | some t => (exec step t es).map fun r => ((s, e) :: r.1, r.2)

/-- What steps keep, a list of events keeps. -/
theorem exec_invariant {P : σ → Prop} (keep : ∀ {s e t}, P s → step s e = some t → P t) :
    ∀ (es : List ε) {s : σ} {r : List (σ × ε) × σ}, P s → exec step s es = some r → P r.2
  | [], s, r, hs, hr => by
      cases hr
      exact hs
  | e :: es, s, r, hs, hr => by
      rw [exec] at hr
      split at hr
      next => cases hr
      next t hstep =>
        obtain ⟨r', hr', rfl⟩ := Option.map_eq_some_iff.mp hr
        exact exec_invariant (r := r') keep es (keep hs hstep) hr'

/-- If every event can be taken in every state, so can every list of events. -/
theorem exec_total (total : ∀ s e, ∃ t, step s e = some t) (es : List ε) :
    ∀ s, ∃ r, exec step s es = some r := by
  induction es with
  | nil =>
      intro s
      exact ⟨_, rfl⟩
  | cons e es ih =>
      intro s
      obtain ⟨t, ht⟩ := total s e
      obtain ⟨r, hr⟩ := ih t
      refine ⟨((s, e) :: r.1, r.2), ?_⟩
      rw [exec, ht]
      simp only [hr, Option.map_some]

/-- A run can be extended at its end by the run of a list of events. -/
theorem Run.append_exec {h : List (σ × ε)} {s : σ} (run : Run step s₀ h s) :
    ∀ (es : List ε) {r : List (σ × ε) × σ},
      exec step s es = some r → Run step s₀ (h ++ r.1) r.2
  | [], r, hr => by
      cases hr
      simpa using run
  | e :: es, r, hr => by
      rw [exec] at hr
      cases hstep : step s e with
      | none => rw [hstep] at hr; cases hr
      | some t =>
          rw [hstep] at hr
          obtain ⟨r', hr', rfl⟩ := Option.map_eq_some_iff.mp hr
          have hrun := (run.snoc hstep).append_exec es hr'
          simpa using hrun

/-- The events of a list that can all be taken form a run. -/
theorem exec_run {es : List ε} {r : List (σ × ε) × σ} (hr : exec step s₀ es = some r) :
    Run step s₀ r.1 r.2 := by
  have hrun := Run.nil.append_exec es hr
  rwa [List.nil_append] at hrun

end Transition
