import GsSDR.HttpSink.Resend
import GsSDR.HttpSink.Stopping

/-!
# How long the HTTP sink takes to deliver

When all calls succeed, each pass posts the ten oldest packets of the FIFO, behind a
batch that has to be sent again.  So a packet in the FIFO has been accepted by the
server after a number of calls that depends on its place there and on nothing else
(`accepted_within`): neither on where the worker is nor on what comes in meanwhile.
-/

namespace GsSDR

namespace HttpSink

open Transition (Within calls)

variable {h h' : List (State × Event)} {s t : State} {e : Event} {p : Packet} {k : Nat}

/-- A call that succeeds, or an event from outside but for a stop. -/
def Event.smooth (e : Event) : Bool := e.succeeds && e != .threadTransferDeInit

/-- The calls of a pass over the old batch, if the next pass makes one. -/
def State.againCalls (s : State) : Nat :=
  match s.pc with
  | .connect | .write _ | .read _ | .returned => 0
  | _ => if s.dataSentSuccess then 0 else 24

/-- The calls up to the answer to the packet with this index, from where the worker
is in the pass. -/
def Pc.Due (j n : Nat) : Pc → Prop
  | .connect => 2 * j + 3 ≤ n
  | .write i => i ≤ j ∧ 2 * (j - i) + 2 ≤ n
  | .read i => i ≤ j ∧ 2 * (j - i) + 1 ≤ n
  | _ => False

/-- The packet is in the FIFO. -/
def Queued (p : Packet) (n : Nat) (s : State) : Prop :=
  ∃ k, s.fifo.queue[k]? = some p ∧ s.callsLeft + s.againCalls + 24 * (k / 10) + 22 ≤ n

/-- The packet is in the batch, and its answer is still to come. -/
def Sending (p : Packet) (n : Nat) (s : State) : Prop :=
  ∃ j < s.niutputItemsReal, s.bufferWriteStorage[j]? = some p ∧ s.pc.Due j n

/-- The packet is answered with at most this many more calls. -/
def Awaited (p : Packet) (n : Nat) (s : State) : Prop :=
  Prepared s ∧ s.exitRequested = false ∧ s.pc ≠ .returned ∧ (Queued p n s ∨ Sending p n s)

theorem smooth_calls (he : e.smooth = true) : e.succeeds = true ∧ e ≠ .threadTransferDeInit := by
  simpa [Event.smooth] using he

theorem againCalls_of_flag (hflag : s.dataSentSuccess = true) : s.againCalls = 0 := by
  rw [State.againCalls]
  split <;> simp [hflag]

theorem forTest_again (s : State) {i : Nat} (hi : i < s.niutputItemsReal) :
    forTest s i = .write i := if_pos hi

/-- A call within a pass that succeeds does not touch the FIFO and is one of those that
were left. -/
theorem Prepared.smooth_call (c : Prepared s) (hexit : s.exitRequested = false)
    (hok : e.succeeds = true) (hown : e.isCall = true) (hpc : s.pc ≠ .loopTop)
    (hstep : HttpSink.step s e = some t) :
    t.fifo = s.fifo ∧ t.exitRequested = false ∧ t.pc ≠ .returned ∧
      t.againCalls ≤ s.againCalls := by
  have hfor : ∀ i, forTest s i ≠ .returned := by
    intro i
    rw [forTest]
    split <;> exact Pc.noConfusion
  have hgoes : exitTest s ≠ .returned := by simp [exitTest, hexit]
  cases step_sound hstep with
  | packetHandler => cases hown
  | stop => cases hown
  | enter h =>
      refine ⟨rfl, hexit, hgoes, ?_⟩
      simp [State.againCalls, h, exitTest_goes hexit]
  | pass h => exact absurd h hpc
  | connected h =>
      refine ⟨rfl, hexit, hfor 0, ?_⟩
      simp [State.againCalls, forTest_again s (c.connecting h)]
  | posted i q h _ => exact ⟨rfl, hexit, Pc.noConfusion, Nat.zero_le _⟩
  | answered i q status h _ =>
      refine ⟨rfl, hexit, hfor (i + 1), ?_⟩
      rw [againCalls_of_flag (s := readAnswer s i q status)
        (by simpa [readAnswer, Event.succeeds] using hok)]
      exact Nat.zero_le _
  | writeThrew i q h _ => cases hok
  | ended _ hs he _ =>
      obtain rfl := ended_succeeds he hok
      refine ⟨rfl, hexit, Pc.noConfusion, ?_⟩
      simp [State.againCalls, shutdown_pc hstep]
  | wake h =>
      refine ⟨rfl, hexit, hgoes, ?_⟩
      simp [State.againCalls, h, exitTest_goes hexit]

/-- A pass over the old batch is one that was left. -/
theorem begin_again (c : Prepared s) (hpc : s.pc = .loopTop)
    (hflag : s.dataSentSuccess = false) (ht : Prepared (beginPass s)) :
    (beginPass s).fifo = s.fifo ∧
      (beginPass s).callsLeft + (beginPass s).againCalls + 1 ≤ s.callsLeft + s.againCalls := by
  have hconnect : (beginPass s).pc = .connect := by
    simp [beginPass, hflag, c.again hflag]
  have hleft := beginPass_callsLeft ht
  have hagain : (beginPass s).againCalls = 0 := by
    rw [State.againCalls, hconnect]
  have hbefore : s.againCalls = 24 := by
    simp [State.againCalls, hpc, hflag]
  refine ⟨by simp [beginPass, hflag], ?_⟩
  omega

/-- A pass over a new batch moves the FIFO on by ten packets. -/
theorem Queued.begin_new {n : Nat} (hq : Queued p (n + 1) s)
    (hflag : s.dataSentSuccess = true) (ht : Prepared (beginPass s)) :
    Queued p n (beginPass s) ∨ Sending p n (beginPass s) := by
  obtain ⟨k, hk, hn⟩ := hq
  obtain ⟨hcount, hitems, hqueue⟩ := s.fifo.read_spec writeBufferSize
  have hlength : k < s.fifo.queue.length := (List.getElem?_eq_some_iff.mp hk).1
  have hsome : 0 < (s.fifo.read writeBufferSize).1 := by
    rw [hcount, writeBufferSize]
    omega
  have hconnect : (beginPass s).pc = .connect := by
    simp only [beginPass, hflag, if_true, if_pos hsome]
  have hleft := beginPass_callsLeft ht
  have hagain : (beginPass s).againCalls = 0 := by
    rw [State.againCalls, hconnect]
  rcases Nat.lt_or_ge k writeBufferSize with hten | hten
  · refine .inr ⟨k, ?_, ?_, ?_⟩
    · simp only [beginPass, hflag, if_true, hcount]
      omega
    · simp only [beginPass, hflag, if_true, hitems]
      rw [List.getElem?_append_left (by rw [List.length_take]; omega),
        List.getElem?_take_of_lt hten]
      exact hk
    · rw [hconnect]
      simp only [Pc.Due]
      rw [writeBufferSize] at hten
      omega
  · refine .inl ⟨k - writeBufferSize, ?_, ?_⟩
    · simp only [beginPass, hflag, if_true, hqueue, List.getElem?_drop]
      rw [Nat.add_sub_cancel' hten]
      exact hk
    · rw [writeBufferSize] at hten ⊢
      omega

/-- A call that succeeds brings the answer to the packet nearer. -/
theorem Sending.call {n : Nat} (hp : Sending p (n + 1) s) (hok : e.succeeds = true)
    (hown : e.isCall = true) (hstep : step s e = some t) :
    Sending p n t ∨ Answered t.log p := by
  obtain ⟨j, hj, hcell, hdue⟩ := hp
  cases step_sound hstep with
  | packetHandler => cases hown
  | stop => cases hown
  | enter h => simp [h, Pc.Due] at hdue
  | pass h => simp [h, Pc.Due] at hdue
  | connected h =>
      simp only [h, Pc.Due] at hdue
      refine .inl ⟨j, hj, hcell, ?_⟩
      show (forTest s 0).Due j n
      rw [forTest_again s (Nat.lt_of_le_of_lt (Nat.zero_le j) hj)]
      exact ⟨Nat.zero_le j, by omega⟩
  | posted i q h _ =>
      simp only [h, Pc.Due] at hdue
      exact .inl ⟨j, hj, hcell, hdue.1, by omega⟩
  | answered i q status h hq =>
      simp only [h, Pc.Due] at hdue
      have hstatus : status = 200 := by simpa [Event.succeeds] using hok
      rcases Nat.lt_or_eq_of_le hdue.1 with hlt | heq
      · refine .inl ⟨j, hj, hcell, ?_⟩
        show (forTest s (i + 1)).Due j n
        rw [forTest_again s (Nat.lt_of_le_of_lt hlt hj)]
        exact ⟨hlt, by omega⟩
      · subst heq
        have hpq : q = p := Option.some.inj (hq.symm.trans hcell)
        exact .inr (by simp [Answered, readAnswer, hpq, hstatus])
  | writeThrew i q h _ => cases hok
  | ended _ hs he _ =>
      obtain rfl := ended_succeeds he hok
      simp [shutdown_pc hstep, Pc.Due] at hdue
  | wake h => simp [h, Pc.Due] at hdue

theorem awaited : Within step Event.isCall Event.smooth (Awaited p) (Answered ·.log p) where
  done := by
    rintro s ⟨_, _, _, ⟨k, _, hn⟩ | ⟨j, _, _, hdue⟩⟩
    · omega
    · cases h : s.pc <;> simp [h, Pc.Due] at hdue
  call := by
    rintro n s e t ⟨c, hexit, hpc, hp⟩ hstep hsmooth hown
    obtain ⟨hok, _⟩ := smooth_calls hsmooth
    have ht := c.step hstep
    by_cases htop : s.pc = .loopTop
    · obtain ⟨_, rfl⟩ := pass_of_loopTop htop hown hstep
      have hexit' : (beginPass s).exitRequested = false := by
        rw [beginPass]
        split <;> exact hexit
      have hnot : (beginPass s).pc ≠ .returned := by
        rcases beginPass_pc s with h | h <;> rw [h] <;> exact Pc.noConfusion
      refine .inl ⟨ht, hexit', hnot, ?_⟩
      rcases hp with hq | ⟨j, _, _, hdue⟩
      · cases hflag : s.dataSentSuccess with
        | true => exact hq.begin_new hflag ht
        | false =>
            obtain ⟨k, hk, hn⟩ := hq
            obtain ⟨hfifo, hless⟩ := begin_again c htop hflag ht
            exact .inl ⟨k, by rw [hfifo]; exact hk, by omega⟩
      · simp [htop, Pc.Due] at hdue
    · obtain ⟨hfifo, hexit', hnot, hagain⟩ := c.smooth_call hexit hok hown htop hstep
      rcases hp with ⟨k, hk, hn⟩ | hsending
      · have hless := c.callsLeft_step htop hown hstep
        exact .inl ⟨ht, hexit', hnot, .inl ⟨k, by rw [hfifo]; exact hk, by omega⟩⟩
      · exact (hsending.call hok hown hstep).imp (fun h => ⟨ht, hexit', hnot, .inr h⟩) id
  outside := by
    rintro n s e t ⟨c, hexit, hpc, hp⟩ hstep hsmooth hown
    cases e with
    | packetHandler storage =>
        have ht := c.step hstep
        cases hstep
        refine .inl ⟨ht, hexit, hpc, ?_⟩
        rcases hp with ⟨k, hk, hn⟩ | hsending
        · refine .inl ⟨k, ?_, hn⟩
          show (s.fifo.write _).2.queue[k]? = some p
          rw [(s.fifo.write_spec _).2,
            List.getElem?_append_left (List.getElem?_eq_some_iff.mp hk).1]
          exact hk
        · exact .inr hsending
    | threadTransferDeInit => cases hsmooth
    | _ => cases hown
  stays := by
    intro s e t hp hstep _
    cases step_sound hstep with
    | pass _ =>
        rw [beginPass_log]
        exact hp
    | posted i q _ _ => exact List.mem_append_left _ hp
    | answered i q status _ _ => exact List.mem_append_left _ hp
    | writeThrew i q _ _ => exact List.mem_append_left _ hp
    | _ => exact hp
  next := by
    rintro n s ⟨c, _, hpc, _⟩ _
    obtain ⟨e, t, hown, hok, hstep⟩ := c.next hpc
    refine ⟨e, t, hown, ?_, hstep⟩
    cases e with
    | threadTransferDeInit => cases hown
    | _ => simpa [Event.smooth] using hok

/-- The flag of the constructor is only set by a stop, and the worker returns only
behind one. -/
theorem Run.not_returned (run : Run h s) (hexit : s.exitRequested = false) :
    s.pc ≠ .returned := by
  have hinv : s.pc = .returned → s.exitRequested = true := by
    refine run.invariant (P := fun s => s.pc = .returned → s.exitRequested = true) ?_ ?_
    · intro h
      cases h
    · intro s e t hs hstep hpc
      have hexit : exitTest s = .returned → s.exitRequested = true := by
        intro h
        rw [exitTest] at h
        split at h
        next hx => exact hx
        next => cases h
      have hfor : ∀ i, forTest s i ≠ .returned := by
        intro i
        rw [forTest]
        split <;> exact Pc.noConfusion
      cases step_sound hstep with
      | packetHandler => exact hs hpc
      | stop => rfl
      | enter _ => exact hexit hpc
      | wake _ => exact hexit hpc
      | pass _ => rcases beginPass_pc s with h | h <;> rw [h] at hpc <;> cases hpc
      | connected _ => exact absurd hpc (hfor 0)
      | answered i p status _ _ => exact absurd hpc (hfor (i + 1))
      | posted i p _ _ => cases hpc
      | writeThrew i p _ _ => cases hpc
      | ended _ _ _ _ => cases hpc
  intro hpc
  rw [hinv hpc] at hexit
  cases hexit

/-- While no stop is requested and all calls succeed, the packet at place `k` of the
FIFO has been answered with 200 behind `24 * (k / 10 + 2)` calls of the worker, from
every state that a run reaches and whatever comes in meanwhile.  The calls of the worker
alone get there. -/
theorem accepted_within (run : Run h s) (hexit : s.exitRequested = false)
    (hk : s.fifo.queue[k]? = some p) :
    (∀ h' t, Transition.Run step s h' t → (∀ q ∈ h', q.2.smooth = true) →
        24 * (k / 10 + 2) ≤ calls Event.isCall h' → Answered t.log p) ∧
      ∃ h' t, Transition.Run step s h' t ∧
        (∀ q ∈ h', q.2.isCall = true ∧ q.2.smooth = true) ∧
        h'.length ≤ 24 * (k / 10 + 2) ∧ Answered t.log p := by
  have hs : Awaited p (24 * (k / 10 + 2)) s := by
    refine ⟨run.prepared, hexit, Run.not_returned run hexit, .inl ⟨k, hk, ?_⟩⟩
    have hitems := run.prepared.items_le
    have hleft : s.callsLeft + s.againCalls ≤ 26 := by
      rw [State.callsLeft, State.againCalls]
      cases s.pc <;> simp only [Pc.callsLeft] <;> (try split) <;> omega
    omega
  exact ⟨fun h' t go hsmooth hcalls => awaited.reached hs go hsmooth hcalls,
    awaited.reachable hs⟩

/-- A packet comes in before the first pass. -/
theorem accepted_within_first :
    ∃ r p, Transition.exec step initial [.enter, .packetHandler ⟨0, ['a']⟩] = some r ∧
      r.2.fifo.queue[0]? = some p ∧
      (∀ h' t, Transition.Run step r.2 h' t → (∀ q ∈ h', q.2.smooth = true) →
          24 * (0 / 10 + 2) ≤ calls Event.isCall h' → Answered t.log p) ∧
        ∃ h' t, Transition.Run step r.2 h' t ∧
          (∀ q ∈ h', q.2.isCall = true ∧ q.2.smooth = true) ∧
          h'.length ≤ 24 * (0 / 10 + 2) ∧ Answered t.log p := by
  obtain ⟨r, hr, hexit, hqueue⟩ :
      ∃ r, Transition.exec step initial [.enter, .packetHandler ⟨0, ['a']⟩] = some r ∧
        r.2.exitRequested = false ∧ r.2.fifo.queue[0]? = some ⟨0, ⟨0, ['a']⟩⟩ :=
    ⟨_, rfl, rfl, rfl⟩
  exact ⟨r, _, hr, hqueue, accepted_within (Transition.exec_run hr) hexit hqueue⟩

end HttpSink

end GsSDR
