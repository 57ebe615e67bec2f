import GsSDR.Lib.Runs

/-!
# Progress within a number of calls

Some events of a machine are its own calls, the others come from outside.
`Within T G` says that in a state with `T n` the machine reaches `G` with at most `n`
more calls of its own, and that nothing from outside takes it further away.  The
events are restricted to those that `ok` allows.

So behind that many calls every run has reached `G` (`Within.reached`), and there is
such a run (`Within.reachable`).  Where a measure counts the calls that are left,
`calls_add_measure` bounds those of a run.
-/

namespace Transition

variable {σ ε : Type*} {step : σ → ε → Option σ} {own ok : ε → Bool}
variable {T : Nat → σ → Prop} {G : σ → Prop} {h : List (σ × ε)} {s t : σ}

/-- The calls of the machine in a history. -/
def calls (own : ε → Bool) (h : List (σ × ε)) : Nat := h.countP fun p => own p.2

theorem calls_concat (h : List (σ × ε)) (s : σ) (e : ε) :
    calls own (h ++ [(s, e)]) = calls own h + if own e then 1 else 0 := by
  simp [calls, List.countP_append]

/-- Each call uses up one of what a measure leaves, and nothing adds to it. -/
theorem calls_add_measure {P : σ → Prop} {m : σ → Nat}
    (keep : ∀ {s e t}, P s → step s e = some t → ok e = true →
      P t ∧ m t + (if own e then 1 else 0) ≤ m s)
    (hs : P s) (run : Run step s h t) (hok : ∀ p ∈ h, ok p.2 = true) :
    P t ∧ calls own h + m t ≤ m s := by
  induction run with
  | nil => exact ⟨hs, Nat.le_of_eq (Nat.zero_add _)⟩
  | @snoc h u t e _ hstep ih =>
      simp only [List.mem_append, List.mem_singleton, or_imp, forall_and, forall_eq] at hok
      obtain ⟨hu, hcalls⟩ := ih hok.1
      obtain ⟨ht, hleft⟩ := keep hu hstep hok.2
      refine ⟨ht, ?_⟩
      rw [calls_concat]
      omega

/-- The machine reaches `G` within the calls that `T` leaves it. -/
structure Within (step : σ → ε → Option σ) (own ok : ε → Bool) (T : Nat → σ → Prop)
    (G : σ → Prop) : Prop where
  done : ∀ {s}, T 0 s → G s
  call : ∀ {n s e t}, T (n + 1) s → step s e = some t → ok e = true → own e = true →
    T n t ∨ G t
  outside : ∀ {n s e t}, T n s → step s e = some t → ok e = true → own e = false →
    T n t ∨ G t
  stays : ∀ {s e t}, G s → step s e = some t → ok e = true → G t
  /-- The machine has a next call until it gets there. -/
  next : ∀ {n s}, T n s → ¬ G s → ∃ e t, own e = true ∧ ok e = true ∧ step s e = some t

namespace Within

variable (within : Within step own ok T G)

include within

/-- What a run leaves of the calls. -/
theorem left {n : Nat} (hs : T n s) (run : Run step s h t) (hok : ∀ p ∈ h, ok p.2 = true) :
    G t ∨ T (n - calls own h) t := by
  induction run with
  | nil => exact .inr hs
  | @snoc h u t e _ hstep ih =>
      simp only [List.mem_append, List.mem_singleton, or_imp, forall_and, forall_eq] at hok
      rw [calls_concat]
      rcases ih hok.1 with hu | hu
      · exact .inl (within.stays hu hstep hok.2)
      · cases howned : own e with
        | false => exact (within.outside hu hstep hok.2 howned).symm
        | true =>
            cases hleft : n - calls own h with
            | zero =>
                rw [hleft] at hu
                exact .inl (within.stays (within.done hu) hstep hok.2)
            | succ k =>
                rw [hleft] at hu
                have hnext : n - (calls own h + 1) = k := by omega
                rw [if_pos rfl, hnext]
                exact (within.call hu hstep hok.2 howned).symm

/-- Behind that many calls every run has got there. -/
theorem reached {n : Nat} (hs : T n s) (run : Run step s h t) (hok : ∀ p ∈ h, ok p.2 = true)
    (hcalls : n ≤ calls own h) : G t := by
  rcases within.left hs run hok with ht | ht
  · exact ht
  · rw [Nat.sub_eq_zero_of_le hcalls] at ht
    exact within.done ht

/-- If the machine makes no call when it has got there, a run has no more calls than
were left. -/
theorem calls_le (last : ∀ {s e t}, G s → step s e = some t → own e = false) {n : Nat}
    (hs : T n s) (run : Run step s h t) (hok : ∀ p ∈ h, ok p.2 = true) : calls own h ≤ n := by
  induction run with
  | nil => exact Nat.zero_le n
  | @snoc h u t e prev hstep ih =>
      simp only [List.mem_append, List.mem_singleton, or_imp, forall_and, forall_eq] at hok
      have hle := ih hok.1
      rw [calls_concat]
      cases howned : own e with
      | false => simpa using hle
      | true =>
          have hu : T (n - calls own h) u := by
            rcases within.left hs prev hok.1 with hu | hu
            · rw [last hu hstep] at howned
              cases howned
            · exact hu
          have hne : n - calls own h ≠ 0 := by
            intro hzero
            rw [hzero] at hu
            rw [last (within.done hu) hstep] at howned
            cases howned
          rw [if_pos rfl]
          omega

/-- Calls of the machine alone get there. -/
theorem reachable {n : Nat} (hs : T n s) :
    ∃ h t, Run step s h t ∧ (∀ p ∈ h, own p.2 = true ∧ ok p.2 = true) ∧ h.length ≤ n ∧ G t := by
  induction n generalizing s with
  | zero => exact ⟨[], s, .nil, by simp, Nat.le_refl 0, within.done hs⟩
  | succ n ih =>
      by_cases hG : G s
      · exact ⟨[], s, .nil, by simp, Nat.zero_le _, hG⟩
      · obtain ⟨e, u, hown, hok, hstep⟩ := within.next hs hG
        have hone : Run step s [(s, e)] u := Run.nil.snoc hstep
        rcases within.call hs hstep hok hown with hu | hu
        · obtain ⟨h, t, run, hevents, hlength, ht⟩ := ih hu
          refine ⟨(s, e) :: h, t, hone.trans run, ?_, Nat.succ_le_succ hlength, ht⟩
          intro p hp
          rcases List.mem_cons.mp hp with rfl | hp
          · exact ⟨hown, hok⟩
          · exact hevents p hp
        · exact ⟨[(s, e)], u, hone, by simp [hown, hok], by simp, hu⟩

end Within

end Transition
