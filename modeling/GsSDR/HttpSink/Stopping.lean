import GsSDR.HttpSink.Order
import GsSDR.Lib.Progress

/-!
# How long a stop of the HTTP sink takes

A pass of the worker makes at most 24 calls: the read of the FIFO, the connection, a
request and an answer for each of ten packets, the shutdown and the sleep.  A call may
take any time, so time is counted in calls.

The flag of a stop is tested at the end of a pass only.  So behind a stop the worker
makes at most 24 calls and sends at most ten requests, whatever the calls return, and
it is never stuck before it has returned (`stop_within`).
-/

namespace GsSDR

namespace HttpSink

open Transition (Within calls)

variable {h h' : List (State × Event)} {s t : State} {e : Event} {p : Packet}

/-- The event is a call of the worker. -/
def Event.isCall : Event → Bool
  | .packetHandler _ | .threadTransferDeInit => false
  | _ => true

/-- The calls from here to the end of the pass. -/
def Pc.callsLeft (items : Nat) : Pc → Nat
  | .entry => 1
  | .loopTop => 0
  | .connect => 2 * items + 3
  | .write i => 2 * (items - i) + 2
  | .read i => 2 * (items - i) + 1
  | .shutdown => 2
  | .sleep => 1
  | .returned => 0

/-- The worker keeps the size of its buffer, and has something to send when it
connects or has to send again. -/
structure Prepared (s : State) : Prop where
  consistent : Consistent s
  buffer : s.bufferWriteStorage.length = writeBufferSize
  again : s.dataSentSuccess = false → 0 < s.niutputItemsReal
  connecting : s.pc = .connect → 0 < s.niutputItemsReal

theorem prepared_initial : Prepared initial where
  consistent := consistent_initial
  buffer := rfl
  again := by
    intro h
    cases h
  connecting := by
    intro h
    cases h

namespace Prepared

theorem items_le (c : Prepared s) : s.niutputItemsReal ≤ 10 := by
  have hfits := c.consistent.fits
  rwa [c.buffer] at hfits

theorem beginPass (c : Prepared s) (hstep : HttpSink.step s .pass = some (beginPass s)) :
    Prepared (beginPass s) := by
  have hconsistent := c.consistent.step hstep
  cases hflag : s.dataSentSuccess with
  | true =>
      obtain ⟨hcount, hitems, _⟩ := s.fifo.read_spec writeBufferSize
      refine ⟨hconsistent, ?_, ?_, ?_⟩
      · simp only [HttpSink.beginPass, hflag, if_true, List.length_append, List.length_drop,
          hitems, hcount, List.length_take, c.buffer]
        omega
      · simp [HttpSink.beginPass, hflag]
      · simp [HttpSink.beginPass, hflag, Nat.pos_iff_ne_zero]
  | false =>
      refine ⟨hconsistent, ?_, ?_, ?_⟩
      · simp [HttpSink.beginPass, hflag, c.buffer]
      · simpa [HttpSink.beginPass, hflag] using c.again hflag
      · simp [HttpSink.beginPass, hflag, Nat.pos_iff_ne_zero]

/-- Every step keeps this. -/
theorem step (c : Prepared s) (hstep : HttpSink.step s e = some t) : Prepared t := by
  have hconsistent := c.consistent.step hstep
  have hindex := c.consistent.index
  cases step_sound hstep with
  | packetHandler storage => exact ⟨hconsistent, c.buffer, c.again, c.connecting⟩
  | stop => exact ⟨hconsistent, c.buffer, c.again, c.connecting⟩
  | enter _ =>
      refine ⟨hconsistent, c.buffer, c.again, fun hpc => ?_⟩
      have hns := exitTest_not_sending s
      rw [show exitTest s = .connect from hpc] at hns
      cases hns
  | pass _ => exact c.beginPass hstep
  | connected _ =>
      refine ⟨hconsistent, c.buffer, c.again, fun hpc => ?_⟩
      replace hpc : forTest s 0 = .connect := hpc
      rw [forTest] at hpc
      split at hpc <;> cases hpc
  | posted i p _ _ => exact ⟨hconsistent, c.buffer, c.again, fun hpc => by cases hpc⟩
  | answered i p status hpc _ =>
      rw [hpc] at hindex
      exact ⟨hconsistent, c.buffer, fun _ => Nat.lt_of_le_of_lt (Nat.zero_le i) hindex,
        fun _ => Nat.lt_of_le_of_lt (Nat.zero_le i) hindex⟩
  | writeThrew i p _ _ => exact ⟨hconsistent, c.buffer, c.again, fun hpc => by cases hpc⟩
  | ended _ _ _ => exact ⟨hconsistent, c.buffer, c.again, fun hpc => by cases hpc⟩
  | wake _ =>
      refine ⟨hconsistent, c.buffer, c.again, fun hpc => ?_⟩
      have hns := exitTest_not_sending s
      rw [show exitTest s = .connect from hpc] at hns
      cases hns

/-- The cell with an index of the batch is in the buffer. -/
theorem cell (c : Prepared s) {i : Nat} (hi : i < s.niutputItemsReal) :
    ∃ p, s.bufferWriteStorage[i]? = some p :=
  ⟨_, List.getElem?_eq_getElem (Nat.lt_of_lt_of_le hi c.consistent.fits)⟩

/-- Until it has returned, the worker has a next call, and it may succeed. -/
theorem next (c : Prepared s) (hpc : s.pc ≠ .returned) :
    ∃ e t, e.isCall = true ∧ e.succeeds = true ∧ HttpSink.step s e = some t := by
  have hindex := c.consistent.index
  suffices hcall : ∃ e : Event, e.isCall = true ∧ e.succeeds = true ∧
      (HttpSink.step s e).isSome by
    obtain ⟨e, hown, hsucceeds, hsome⟩ := hcall
    obtain ⟨t, ht⟩ := Option.isSome_iff_exists.mp hsome
    exact ⟨e, t, hown, hsucceeds, ht⟩
  cases h : s.pc with
  | entry => exact ⟨.enter, rfl, rfl, by simp [HttpSink.step, h]⟩
  | loopTop => exact ⟨.pass, rfl, rfl, by simp [HttpSink.step, h]⟩
  | connect => exact ⟨.connect true, rfl, rfl, by simp [HttpSink.step, h]⟩
  | write i =>
      rw [h] at hindex
      obtain ⟨p, hp⟩ := c.cell hindex
      exact ⟨.write true, rfl, rfl, by simp [HttpSink.step, h, hp]⟩
  | read i =>
      rw [h] at hindex
      obtain ⟨p, hp⟩ := c.cell hindex
      exact ⟨.read (some 200), rfl, rfl, by simp [HttpSink.step, h, hp]⟩
  | shutdown => exact ⟨.shutdown true, rfl, rfl, by simp [HttpSink.step, h]⟩
  | sleep => exact ⟨.wake, rfl, rfl, by simp [HttpSink.step, h]⟩
  | returned => exact absurd h hpc

end Prepared

theorem Run.prepared (run : Run h s) : Prepared s :=
  Transition.Run.invariant prepared_initial Prepared.step run

theorem forTest_callsLeft (s : State) (i : Nat) :
    (forTest s i).callsLeft s.niutputItemsReal = 2 * (s.niutputItemsReal - i) + 2 := by
  rw [forTest]
  split
  next => rfl
  next hend =>
    rw [Nat.sub_eq_zero_of_le (Nat.le_of_not_lt hend)]
    rfl

theorem exitTest_stopped (hexit : s.exitRequested = true) : exitTest s = .returned := by
  simp [exitTest, hexit]

theorem exitTest_goes (hexit : s.exitRequested = false) : exitTest s = .loopTop := by
  simp [exitTest, hexit]

/-- The calls from here to the end of the pass. -/
def State.callsLeft (s : State) : Nat := s.pc.callsLeft s.niutputItemsReal

theorem exitTest_callsLeft (s : State) (items : Nat) : (exitTest s).callsLeft items = 0 := by
  rw [exitTest]
  split <;> rfl

/-- A pass that has been begun makes at most 23 more calls. -/
theorem beginPass_callsLeft (ht : Prepared (beginPass s)) : (beginPass s).callsLeft ≤ 23 := by
  have hitems := ht.items_le
  rcases beginPass_pc s with hnext | hnext
  · simp only [State.callsLeft, hnext, Pc.callsLeft]
    omega
  · simp only [State.callsLeft, hnext, Pc.callsLeft]
    omega

/-- At the top of the loop the worker begins a pass. -/
theorem pass_of_loopTop (hpc : s.pc = .loopTop) (hown : e.isCall = true)
    (hstep : step s e = some t) : e = .pass ∧ t = beginPass s := by
  cases step_sound hstep with
  | packetHandler => cases hown
  | stop => cases hown
  | pass _ => exact ⟨rfl, rfl⟩
  | enter h => simp [hpc] at h
  | connected h => simp [hpc] at h
  | posted i p h _ => simp [hpc] at h
  | answered i p status h _ => simp [hpc] at h
  | writeThrew i p h _ => simp [hpc] at h
  | ended _ h _ _ => simp [hpc, Pc.sending] at h
  | wake h => simp [hpc] at h

/-- Each call of a pass is one of the calls that were left. -/
theorem Prepared.callsLeft_step (c : Prepared s) (hpc : s.pc ≠ .loopTop)
    (hown : e.isCall = true) (hstep : HttpSink.step s e = some t) :
    t.callsLeft + 1 ≤ s.callsLeft := by
  have hindex := c.consistent.index
  cases step_sound hstep with
  | packetHandler => cases hown
  | stop => cases hown
  | enter h =>
      show (exitTest s).callsLeft _ + 1 ≤ s.pc.callsLeft _
      rw [exitTest_callsLeft, h]
      exact Nat.le_refl 1
  | pass h => exact absurd h hpc
  | connected h =>
      show (forTest s 0).callsLeft s.niutputItemsReal + 1 ≤ s.pc.callsLeft _
      rw [forTest_callsLeft, h, Pc.callsLeft]
      omega
  | posted i p h _ =>
      simp only [State.callsLeft, h, Pc.callsLeft]
      omega
  | answered i p status h _ =>
      rw [h] at hindex
      have hi : i < s.niutputItemsReal := hindex
      show (forTest s (i + 1)).callsLeft s.niutputItemsReal + 1 ≤ s.pc.callsLeft _
      rw [forTest_callsLeft, h, Pc.callsLeft]
      omega
  | writeThrew i p h _ =>
      simp only [State.callsLeft, h, Pc.callsLeft]
      omega
  | ended _ hs _ _ =>
      show 1 + 1 ≤ s.callsLeft
      rw [State.callsLeft]
      cases h : s.pc with
      | read i =>
          rw [h] at hindex
          have hi : i < s.niutputItemsReal := hindex
          simp only [Pc.callsLeft]
          omega
      | connect => simp [Pc.callsLeft]
      | write i => simp [Pc.callsLeft]
      | shutdown => simp [Pc.callsLeft]
      | _ => simp [h, Pc.sending] at hs
  | wake h =>
      show (exitTest s).callsLeft _ + 1 ≤ s.pc.callsLeft _
      rw [exitTest_callsLeft, h]
      exact Nat.le_refl 1

/-- A worker that has returned makes no call. -/
theorem not_call_of_returned (hpc : s.pc = .returned) (hstep : step s e = some t) :
    e.isCall = false ∧ t.pc = .returned := by
  cases step_sound hstep with
  | packetHandler => exact ⟨rfl, hpc⟩
  | stop => exact ⟨rfl, hpc⟩
  | enter h => simp [hpc] at h
  | pass h => simp [hpc] at h
  | connected h => simp [hpc] at h
  | posted i p h _ => simp [hpc] at h
  | answered i p status h _ => simp [hpc] at h
  | writeThrew i p h _ => simp [hpc] at h
  | ended _ h _ _ => simp [hpc, Pc.sending] at h
  | wake h => simp [hpc] at h

/-! ## Stopping -/

/-- The calls that are left when a stop has been requested. -/
def State.stopCalls (s : State) : Nat := if s.pc = .loopTop then 24 else s.callsLeft

/-- A stop has been requested, and the worker has at most this many calls left. -/
def Stopping (n : Nat) (s : State) : Prop :=
  Prepared s ∧ s.exitRequested = true ∧ s.stopCalls ≤ n

/-- No step takes back a stop. -/
theorem exitRequested_step (hexit : s.exitRequested = true) (hstep : step s e = some t) :
    t.exitRequested = true := by
  cases step_sound hstep with
  | pass _ =>
      rw [beginPass]
      split <;> exact hexit
  | stop => rfl
  | _ => exact hexit

/-- With a stop requested, the worker does not come back to the top of the loop. -/
theorem not_loopTop (hexit : s.exitRequested = true) (hown : e.isCall = true)
    (hstep : step s e = some t) : t.pc ≠ .loopTop := by
  have hfor : ∀ i, forTest s i ≠ .loopTop := by
    intro i
    rw [forTest]
    split <;> exact Pc.noConfusion
  have hreturned : exitTest s ≠ .loopTop := by simp [exitTest, hexit]
  cases step_sound hstep with
  | packetHandler => cases hown
  | stop => cases hown
  | enter _ => exact hreturned
  | wake _ => exact hreturned
  | pass _ => rcases beginPass_pc s with h | h <;> rw [h] <;> exact Pc.noConfusion
  | connected _ => exact hfor 0
  | answered i p status _ _ => exact hfor (i + 1)
  | posted i p _ _ => exact Pc.noConfusion
  | writeThrew i p _ _ => exact Pc.noConfusion
  | ended _ _ _ _ => exact Pc.noConfusion

theorem stopping : Within step Event.isCall (fun _ => true) Stopping (·.pc = .returned) where
  done := by
    rintro s ⟨c, _, hcalls⟩
    rw [State.stopCalls] at hcalls
    split at hcalls
    next => omega
    next hpc =>
      rw [State.callsLeft] at hcalls
      cases h : s.pc with
      | returned => rfl
      | loopTop => exact absurd h hpc
      | _ => simp [h, Pc.callsLeft] at hcalls
  call := by
    rintro n s e t ⟨c, hexit, hcalls⟩ hstep _ hown
    have ht := c.step hstep
    refine .inl ⟨ht, exitRequested_step hexit hstep, ?_⟩
    rw [State.stopCalls, if_neg (not_loopTop hexit hown hstep)]
    by_cases hpc : s.pc = .loopTop
    · rw [State.stopCalls, if_pos hpc] at hcalls
      obtain ⟨_, rfl⟩ := pass_of_loopTop hpc hown hstep
      have hbegun := beginPass_callsLeft ht
      omega
    · rw [State.stopCalls, if_neg hpc] at hcalls
      have hless := c.callsLeft_step hpc hown hstep
      omega
  outside := by
    rintro n s e t ⟨c, hexit, hcalls⟩ hstep _ hown
    refine .inl ⟨c.step hstep, exitRequested_step hexit hstep, ?_⟩
    cases e with
    | packetHandler storage =>
        cases hstep
        exact hcalls
    | threadTransferDeInit =>
        cases hstep
        exact hcalls
    | _ => cases hown
  stays := by
    intro s e t hpc hstep _
    exact (not_call_of_returned hpc hstep).2
  next := by
    rintro n s ⟨c, _, _⟩ hpc
    obtain ⟨e, t, hown, _, hstep⟩ := c.next hpc
    exact ⟨e, t, hown, rfl, hstep⟩

/-- The requests that are left when a stop has been requested. -/
def State.stopPosts (s : State) : Nat :=
  if s.pc = .loopTop then writeBufferSize else s.unsent.length

theorem stopPosts_eq {pc : Pc} (hpc : s.pc = pc) (hne : pc ≠ .loopTop) :
    s.stopPosts = (pc.unsent s.batch).length := by
  rw [State.stopPosts, State.unsent, hpc, if_neg hne]

theorem Prepared.unsent_le (c : Prepared s) : s.unsent.length ≤ 10 := by
  have hbatch : s.batch.length ≤ 10 := by
    rw [batch_length c.consistent]
    exact c.items_le
  rw [State.unsent]
  cases s.pc with
  | connect => exact hbatch
  | write i =>
      rw [Pc.unsent, List.length_drop]
      omega
  | read i =>
      rw [Pc.unsent, List.length_drop]
      omega
  | _ => exact Nat.zero_le _

/-- A request is one of those that were left. -/
theorem Prepared.stopPosts_step (c : Prepared s) (hexit : s.exitRequested = true)
    (hstep : HttpSink.step s e = some t) :
    (posts t.log).length + t.stopPosts ≤ (posts s.log).length + s.stopPosts := by
  have ht := c.step hstep
  have hbatch := batch_length c.consistent
  have hindex := c.consistent.index
  cases hown : e.isCall with
  | false =>
      cases e with
      | packetHandler storage =>
          cases hstep
          exact Nat.le_refl _
      | threadTransferDeInit =>
          cases hstep
          exact Nat.le_refl _
      | _ => cases hown
  | true =>
      rw [stopPosts_eq rfl (not_loopTop hexit hown hstep)]
      cases step_sound hstep with
      | packetHandler => cases hown
      | stop => cases hown
      | enter _ =>
          show _ + ((exitTest s).unsent s.batch).length ≤ _
          rw [unsent_exitTest]
          exact Nat.le_add_right _ _
      | pass hpc =>
          have hunsent := ht.unsent_le
          rw [beginPass_log, State.stopPosts, if_pos hpc]
          exact Nat.add_le_add_left hunsent _
      | connected hpc =>
          rw [stopPosts_eq hpc Pc.noConfusion]
          show _ + ((forTest s 0).unsent s.batch).length ≤ _
          rw [unsent_forTest c.consistent]
          exact Nat.le_refl _
      | posted i p hpc _ =>
          rw [hpc] at hindex
          have hi : i < s.niutputItemsReal := hindex
          rw [stopPosts_eq hpc Pc.noConfusion, posts_post]
          show (posts s.log ++ [p]).length + (s.batch.drop (i + 1)).length ≤
            _ + (s.batch.drop i).length
          simp only [List.length_append, List.length_singleton, List.length_drop]
          omega
      | answered i p status hpc _ =>
          rw [stopPosts_eq hpc Pc.noConfusion]
          show (posts (s.log ++ [.answer p status])).length +
            ((forTest s (i + 1)).unsent s.batch).length ≤ _
          rw [posts_answer, unsent_forTest c.consistent]
          exact Nat.le_refl _
      | writeThrew i p hpc _ =>
          rw [hpc] at hindex
          have hi : i < s.niutputItemsReal := hindex
          rw [stopPosts_eq hpc Pc.noConfusion, posts_post]
          show (posts s.log ++ [p]).length + 0 ≤ _ + (s.batch.drop i).length
          simp only [List.length_append, List.length_singleton, List.length_drop]
          omega
      | ended _ _ _ _ => exact Nat.le_add_right _ _
      | wake _ =>
          show _ + ((exitTest s).unsent s.batch).length ≤ _
          rw [unsent_exitTest]
          exact Nat.le_add_right _ _

/-- Behind a stop the worker makes at most 24 calls and sends at most ten requests.
Until it has returned it has a next call. -/
theorem stop_within (run : Run h s) (hstop : s.exitRequested = true)
    (go : Transition.Run step s h' t) :
    calls Event.isCall h' ≤ 24 ∧ (posts t.log).length ≤ (posts s.log).length + 10 ∧
      (t.pc = .returned ∨ ∃ e u, e.isCall = true ∧ step t e = some u) := by
  have hs : Stopping 24 s := by
    refine ⟨run.prepared, hstop, ?_⟩
    rw [State.stopCalls]
    split
    next => exact Nat.le_refl 24
    next =>
      have hitems := run.prepared.items_le
      rw [State.callsLeft]
      cases s.pc <;> simp only [Pc.callsLeft] <;> omega
  refine ⟨?_, ?_, ?_⟩
  · exact stopping.calls_le (fun hpc hstep => (not_call_of_returned hpc hstep).1) hs go
      fun _ _ => rfl
  · have hposts : (Prepared t ∧ t.exitRequested = true) ∧
        (posts t.log).length + t.stopPosts ≤ (posts s.log).length + s.stopPosts := by
      refine go.invariant (P := fun t => (Prepared t ∧ t.exitRequested = true) ∧
        (posts t.log).length + t.stopPosts ≤ (posts s.log).length + s.stopPosts)
        ⟨⟨run.prepared, hstop⟩, Nat.le_refl _⟩ ?_
      rintro u e v ⟨⟨c, hexit⟩, hle⟩ hstep
      exact ⟨⟨c.step hstep, exitRequested_step hexit hstep⟩,
        Nat.le_trans (c.stopPosts_step hexit hstep) hle⟩
    have hleft : s.stopPosts ≤ 10 := by
      rw [State.stopPosts]
      split
      next => exact Nat.le_refl 10
      next => exact run.prepared.unsent_le
    omega
  · by_cases hpc : t.pc = .returned
    · exact .inl hpc
    · have ht : Prepared t := go.invariant run.prepared Prepared.step
      obtain ⟨e, u, hown, _, hstep⟩ := ht.next hpc
      exact .inr ⟨e, u, hown, hstep⟩

/-- A stop during the sleep, with a packet in the FIFO. -/
theorem stop_within_sleeping :
    ∃ r r', Transition.exec step initial
        [.enter, .pass, .packetHandler ⟨0, ['a']⟩, .threadTransferDeInit] = some r ∧
      Transition.exec step r.2 [.wake] = some r' ∧
      calls Event.isCall r'.1 ≤ 24 ∧ (posts r'.2.log).length ≤ (posts r.2.log).length + 10 ∧
      (r'.2.pc = .returned ∨ ∃ e u, e.isCall = true ∧ step r'.2 e = some u) := by
  obtain ⟨r, hr, r', hr', hexit⟩ :
      ∃ r, Transition.exec step initial
          [.enter, .pass, .packetHandler ⟨0, ['a']⟩, .threadTransferDeInit] = some r ∧
        ∃ r', Transition.exec step r.2 [.wake] = some r' ∧ r.2.exitRequested = true :=
    ⟨_, rfl, _, rfl, rfl⟩
  exact ⟨r, r', hr, hr',
    stop_within (Transition.exec_run hr) hexit (Transition.exec_run hr')⟩

end HttpSink

end GsSDR
