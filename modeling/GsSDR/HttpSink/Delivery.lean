import GsSDR.HttpSink.Invariant

/-!
# Which packets the HTTP sink loses

A packet read out of the FIFO is safe while the server has accepted it, or the
worker is sending the batch it is in, or the worker will send that batch again
because `data_sent_success` is cleared.

The flag is left as it is by an exception and overwritten by every answer.  So
a pass gives up its batch when its last answer is 200, whatever the others
were, and a pass that gets no answer gives it up when the batch is new.
`noLoss_iff` says that these are the only ways to lose a packet.
-/

namespace GsSDR

namespace HttpSink

/-- While no stop is requested, every packet read out of the FIFO has been
accepted by the server, or is in a batch that the worker is sending or will send
again before it reads the FIFO. -/
def NoLoss (s : State) : Prop :=
  s.exitRequested = false → ∀ p ∈ s.taken,
    Answered s.log p ∨ (p ∈ s.batch ∧ (s.pc.sending = true ∨ s.dataSentSuccess = false))

/-- If this event ends a pass whose last answer was 200, or a pass over a new
batch that got no answer, then every packet of the batch has been answered with
200, by this pass or an earlier one. -/
def GivesUpSafely (s : State) (e : Event) : Prop :=
  s.exitRequested = false → e.endsAttempt = true →
    (s.statuses.getLast? = some 200 ∨ (s.statuses = [] ∧ s.fresh = true)) →
    ∀ p ∈ s.batch, Answered s.log p

theorem noLoss_initial : NoLoss initial := by
  intro _ p hp
  cases hp

/-- A packet stays safe when the log grows and the batch is still sent. -/
theorem NoLoss.of_sending {s t : State} (h : NoLoss s)
    (hexit : t.exitRequested = s.exitRequested) (htaken : t.taken = s.taken)
    (hbatch : t.batch = s.batch) (hlog : ∀ x ∈ s.log, x ∈ t.log)
    (hsend : t.pc.sending = true) : NoLoss t := by
  intro hx p hp
  rw [hexit] at hx
  rw [htaken] at hp
  rcases h hx p hp with ha | ⟨hb, _⟩
  · exact .inl (hlog _ ha)
  · exact .inr ⟨hbatch ▸ hb, .inl hsend⟩

/-- Outside the `try` block nothing is lost as long as the flag says whether the
batch is kept. -/
theorem NoLoss.of_idle {s t : State} (h : NoLoss s) (hidle : s.pc.sending = false)
    (hexit : t.exitRequested = s.exitRequested) (htaken : t.taken = s.taken)
    (hbatch : t.batch = s.batch) (hlog : t.log = s.log)
    (hflag : t.dataSentSuccess = s.dataSentSuccess) : NoLoss t := by
  intro hx p hp
  rw [hexit] at hx
  rw [htaken] at hp
  rcases h hx p hp with ha | ⟨hb, hs | hf⟩
  · exact .inl (by rw [hlog]; exact ha)
  · rw [hidle] at hs
    cases hs
  · exact .inr ⟨hbatch ▸ hb, .inr (hflag ▸ hf)⟩

/-- A pass begins with a new batch only if the old one is done with. -/
theorem NoLoss.beginPass {s : State} (h : NoLoss s) (hpc : s.pc = .loopTop) :
    NoLoss (beginPass s) := by
  cases hflag : s.dataSentSuccess with
  | true =>
      obtain ⟨hbatch, htaken, _⟩ := beginPass_batch hflag
      intro hx p hp
      have hx' : s.exitRequested = false := by simpa [HttpSink.beginPass, hflag] using hx
      rw [htaken] at hp
      rcases List.mem_append.mp hp with hold | hnew
      · rcases h hx' p hold with ha | ⟨_, hs | hf⟩
        · exact .inl (by simpa [HttpSink.beginPass, hflag] using ha)
        · rw [hpc] at hs
          cases hs
        · rw [hflag] at hf
          cases hf
      · refine .inr ⟨hbatch ▸ hnew, .inl ?_⟩
        have hpos : 0 < (s.fifo.read writeBufferSize).1 := by
          obtain ⟨hcount, hitems, _⟩ := s.fifo.read_spec writeBufferSize
          have := List.length_pos_of_mem hnew
          rw [List.length_take] at this
          omega
        simp [HttpSink.beginPass, hflag, hpos, Pc.sending]
  | false =>
      obtain ⟨hbatch, htaken⟩ := beginPass_retry hflag
      have hidle : s.pc.sending = false := by rw [hpc]; rfl
      refine h.of_idle hidle ?_ htaken hbatch ?_ ?_ <;> simp [HttpSink.beginPass, hflag]

/-- The end of a pass keeps all packets safe exactly if the packets that the
flag gives up have been accepted. -/
theorem noLoss_end_iff {s t : State} {e : Event} (c : Consistent s) (h : NoLoss s)
    (hs : s.pc.sending = true) (he : e.endsAttempt = true)
    (hexit : t.exitRequested = s.exitRequested) (htaken : t.taken = s.taken)
    (hbatch : t.batch = s.batch) (hlog : ∀ p, Answered t.log p ↔ Answered s.log p)
    (hflag : t.dataSentSuccess = s.dataSentSuccess) (hsleep : t.pc = .sleep) :
    NoLoss t ↔ GivesUpSafely s e := by
  have hverdict := c.flag hs
  constructor
  · intro ht hx _ hdone p hp
    have htrue : s.dataSentSuccess = true := by
      rw [hverdict]
      exact verdict_eq_true.mpr hdone
    rcases ht (hexit ▸ hx) p (htaken ▸ c.batch_subset hp) with ha | ⟨_, hsend | hf⟩
    · exact (hlog p).mp ha
    · rw [hsleep] at hsend
      cases hsend
    · rw [hflag, htrue] at hf
      cases hf
  · intro hsafe hx p hp
    rw [hexit] at hx
    rw [htaken] at hp
    rcases h hx p hp with ha | ⟨hb, _⟩
    · exact .inl ((hlog p).mpr ha)
    · cases hf : s.dataSentSuccess with
      | false => exact .inr ⟨hbatch ▸ hb, .inr (hflag ▸ hf)⟩
      | true =>
          rw [hverdict] at hf
          exact .inl ((hlog p).mpr (hsafe hx he (verdict_eq_true.mp hf) p hb))

/-- A step keeps all packets safe exactly under the condition. -/
theorem noLoss_step_iff {s t : State} {e : Event} (c : Consistent s) (h : NoLoss s)
    (hstep : step s e = some t) : NoLoss t ↔ GivesUpSafely s e := by
  have hother : e.endsAttempt = false → GivesUpSafely s e := by
    intro he _ he'
    rw [he] at he'
    cases he'
  cases step_sound hstep with
  | packetHandler storage =>
      refine ⟨fun _ => hother rfl, fun _ => ?_⟩
      intro hx p hp
      exact h hx p hp
  | stop =>
      refine ⟨fun _ => hother rfl, fun _ => ?_⟩
      intro hx
      cases hx
  | enter hpc =>
      refine ⟨fun _ => hother rfl, fun _ => ?_⟩
      exact h.of_idle (by rw [hpc]; rfl) rfl rfl rfl rfl rfl
  | pass hpc => exact ⟨fun _ => hother rfl, fun _ => h.beginPass hpc⟩
  | connected hpc =>
      refine ⟨fun _ => hother rfl, fun _ => ?_⟩
      exact h.of_sending rfl rfl rfl (fun _ hx => hx) (forTest_sending s 0)
  | posted i p hpc _ =>
      refine ⟨fun _ => hother rfl, fun _ => ?_⟩
      exact h.of_sending rfl rfl rfl (fun _ hx => List.mem_append_left _ hx) rfl
  | answered i p status hpc _ =>
      refine ⟨fun _ => hother rfl, fun _ => ?_⟩
      exact h.of_sending rfl rfl rfl (fun _ hx => List.mem_append_left _ hx)
        (forTest_sending s (i + 1))
  | writeThrew i p hpc _ =>
      refine noLoss_end_iff c h (by rw [hpc]; rfl) rfl rfl rfl rfl (fun q => ?_) rfl rfl
      simp [Answered]
  | ended _ hs he _ => exact noLoss_end_iff c h hs he rfl rfl rfl (fun _ => Iff.rfl) rfl rfl
  | wake hpc =>
      refine ⟨fun _ => hother rfl, fun _ => ?_⟩
      exact h.of_idle (by rw [hpc]; rfl) rfl rfl rfl rfl rfl

/-- In a run no packet is lost in any state exactly if every pass gives up its
batch safely. -/
theorem noLoss_iff {h : List (State × Event)} {s : State} (run : Run h s) :
    ((∀ p ∈ h, NoLoss p.1) ∧ NoLoss s) ↔ ∀ p ∈ h, GivesUpSafely p.1 p.2 :=
  run.safe_iff consistent_initial noLoss_initial Consistent.step noLoss_step_iff

/-- Two packets, the first refused and the second accepted. -/
def refusedThenAccepted : List Event :=
  [.enter, .packetHandler ⟨0, ['a']⟩, .packetHandler ⟨0, ['b']⟩, .pass, .connect true,
    .write true, .read (some 500), .write true, .read (some 200), .shutdown true]

theorem noLoss_iff_refusedThenAccepted :
    ∃ (h : List (State × Event)) (s : State), h.length = 10 ∧
      (((∀ p ∈ h, NoLoss p.1) ∧ NoLoss s) ↔ ∀ p ∈ h, GivesUpSafely p.1 p.2) := by
  obtain ⟨r, hr, hlen⟩ :
      ∃ r, Transition.exec step initial refusedThenAccepted = some r ∧ r.1.length = 10 :=
    ⟨_, rfl, rfl⟩
  exact ⟨r.1, r.2, hlen, noLoss_iff (Transition.exec_run hr)⟩

/-- A packet is lost when the first connection after its read fails: the flag is
still set, and the next pass reads the FIFO over the batch. -/
theorem noLoss_fails_unreachable : ¬ ∀ h s, Run h s → NoLoss s := by
  intro hall
  obtain ⟨r, hr, hexit, hflag, hpc, htaken, hlog⟩ :
      ∃ r, Transition.exec step initial
          [.enter, .packetHandler ⟨0, ['a']⟩, .pass, .connect false] = some r ∧
        r.2.exitRequested = false ∧ r.2.dataSentSuccess = true ∧ r.2.pc = .sleep ∧
        r.2.taken = [⟨0, ⟨0, ['a']⟩⟩] ∧ r.2.log = [] :=
    ⟨_, rfl, rfl, rfl, rfl, rfl, rfl⟩
  rcases hall _ _ (Transition.exec_run hr) hexit ⟨0, ⟨0, ['a']⟩⟩ (by simp [htaken]) with
    ha | ⟨_, hs | hf⟩
  · simp [Answered, hlog] at ha
  · simp [hpc, Pc.sending] at hs
  · simp [hflag] at hf

end HttpSink

end GsSDR
