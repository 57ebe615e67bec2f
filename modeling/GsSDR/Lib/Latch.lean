import GsSDR.Lib.Runs

/-!
# A flag that some events set and others clear

A flag that is set by some events of a machine, cleared by others and left alone
by the rest tells of the past that one of the first has happened and none of the
others since (`Run.latch`).
-/

namespace Transition

variable {σ ε : Type*}

/-- An event sets the flag, and none behind it clears it. -/
def Latched (sets clears : ε → Bool) (es : List ε) : Prop :=
  ∃ before e after, es = before ++ e :: after ∧ sets e = true ∧ ∀ x ∈ after, clears x = false

variable {sets clears : ε → Bool} {es : List ε} {e : ε}

theorem not_latched_nil : ¬ Latched sets clears [] := by
  rintro ⟨before, e, after, heq, _⟩
  simp at heq

theorem latched_concat :
    Latched sets clears (es ++ [e]) ↔
      sets e = true ∨ clears e = false ∧ Latched sets clears es := by
  constructor
  · rintro ⟨before, x, after, heq, hx, hafter⟩
    rcases List.eq_nil_or_concat after with rfl | ⟨after', y, rfl⟩
    · obtain ⟨_, hlast⟩ := List.append_inj' heq rfl
      cases hlast
      exact .inl hx
    · rw [List.concat_eq_append, ← List.cons_append, ← List.append_assoc] at heq
      obtain ⟨hes, hlast⟩ := List.append_inj' heq rfl
      cases hlast
      refine .inr ⟨hafter e (by simp), before, x, after', hes, hx, fun z hz => ?_⟩
      exact hafter z (by simp [hz])
  · rintro (he | ⟨hclear, before, x, after, rfl, hx, hafter⟩)
    · exact ⟨es, e, [], rfl, he, by simp⟩
    · refine ⟨before, x, after ++ [e], by simp, hx, fun z hz => ?_⟩
      rcases List.mem_append.mp hz with hz | hz
      · exact hafter z hz
      · rw [List.mem_singleton.mp hz]
        exact hclear

variable {step : σ → ε → Option σ} {s₀ s : σ} {h : List (σ × ε)}

/-- The flag is set exactly if it has been set since it was last cleared. -/
theorem Run.latch {f : σ → Bool} (init : f s₀ = false)
    (turn : ∀ {s e t}, step s e = some t → f t = (sets e || (!clears e && f s)))
    (run : Run step s₀ h s) :
    f s = true ↔ Latched sets clears (h.map Prod.snd) := by
  induction run with
  | nil =>
      rw [init]
      exact iff_of_false Bool.false_ne_true not_latched_nil
  | @snoc h s t e prev hstep ih =>
      rw [turn hstep, List.map_append, List.map_singleton, latched_concat, ← ih, Bool.or_eq_true,
        Bool.and_eq_true, Bool.not_eq_true']

end Transition
