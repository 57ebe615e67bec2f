import GsSDR.Lib.Progress
import GsSDR.WebSocketSink.Delivery

/-!
# How long the WebSocket sink takes

Time is counted in calls of the worker, as each may take any time.  A pass makes at
most five: it reads the FIFO or connects again, writes a packet, reads a message and
sleeps.

Behind a stop the worker makes at most six calls and writes at most one packet,
whatever the calls return (`stopped_within`).  When all calls succeed, it needs four calls
for each packet that is not acknowledged yet, and a few to connect first
(`acknowledged_within`).

The worker has returned when it has left its loop.  The close of the connection, behind
the loop, is not counted.
-/

namespace GsSDR

namespace WebSocketSink

open HttpSink (Packet)
open Transition (Within calls)

variable {h h' : List (State × Event)} {s t : State} {e : Event} {p : Packet}

/-- The event is a call of the worker. -/
def Event.isCall : Event → Bool
  | .packetHandler _ | .threadTransferDeInit => false
  | _ => true

/-- The call returns. -/
def Event.succeeds : Event → Bool
  | .connect ok | .write ok | .read ok => ok
  | _ => true

/-- Until it has returned, the worker has a next call, and it may succeed. -/
theorem Consistent.next (c : Consistent s) (hpc : s.pc ≠ .returned) :
    ∃ e t, e.isCall = true ∧ e.succeeds = true ∧ WebSocketSink.step s e = some t := by
  have hret := c.retained
  suffices hcall : ∃ e : Event, e.isCall = true ∧ e.succeeds = true ∧
      (WebSocketSink.step s e).isSome by
    obtain ⟨e, hown, hsucceeds, hsome⟩ := hcall
    obtain ⟨t, ht⟩ := Option.isSome_iff_exists.mp hsome
    exact ⟨e, t, hown, hsucceeds, ht⟩
  cases h : s.pc with
  | entry => exact ⟨.enter, rfl, rfl, by simp [WebSocketSink.step, h]⟩
  | firstConnect => exact ⟨.connect true, rfl, rfl, by simp [WebSocketSink.step, h]⟩
  | loopTop => exact ⟨.pass, rfl, rfl, by simp [WebSocketSink.step, h]⟩
  | reconnect => exact ⟨.connect true, rfl, rfl, by simp [WebSocketSink.step, h]⟩
  | write i =>
      simp only [Retained, h] at hret
      obtain ⟨rfl, _, p, howing⟩ := hret
      exact ⟨.write true, rfl, rfl, by simp [WebSocketSink.step, h, howing.2.1]⟩
  | read i =>
      simp only [Retained, h] at hret
      obtain ⟨rfl, _, p, howing⟩ := hret
      exact ⟨.read true, rfl, rfl, by simp [WebSocketSink.step, h, howing.2.1]⟩
  | sleep => exact ⟨.wake, rfl, rfl, by simp [WebSocketSink.step, h]⟩
  | returned => exact absurd h hpc

theorem sendTest_cases (s : State) : sendTest s = .write 0 ∨ sendTest s = .sleep := by
  rw [sendTest]
  split
  next h => exact .inl (if_pos h.2)
  next => exact .inr rfl

theorem exitTest_stopped {next : Pc} (hexit : s.exitRequested = true) :
    exitTest s next = .returned := by
  simp [exitTest, hexit]

theorem exitTest_goes {next : Pc} (hexit : s.exitRequested = false) :
    exitTest s next = next := by
  simp [exitTest, hexit]

/-- The loop ends behind the packet that is owing. -/
theorem Consistent.forTest_next (c : Consistent s) {i : Nat} {q : Packet}
    (hpc : s.pc = .write i ∨ s.pc = .read i) (hq : s.bufferWriteStorage[i]? = some q) :
    forTest s (i + 1) = .sleep := by
  have hitems := (c.owing_of_sending hpc hq).1
  rw [forTest, hitems]
  exact if_neg (by omega)

/-- A worker that has returned makes no call. -/
theorem not_call_of_returned (hpc : s.pc = .returned) (hstep : step s e = some t) :
    e.isCall = false ∧ t.pc = .returned := by
  cases step_sound hstep with
  | packetHandler => exact ⟨rfl, hpc⟩
  | stop => exact ⟨rfl, hpc⟩
  | enter h => simp [hpc] at h
  | firstConnect h => simp [hpc] at h
  | pass h => simp [hpc] at h
  | reconnect h => simp [hpc] at h
  | written h _ => simp [hpc] at h
  | writeThrew h _ => simp [hpc] at h
  | acked h _ => simp [hpc] at h
  | readThrew h _ => simp [hpc] at h
  | wake h => simp [hpc] at h

/-! ## Stopping -/

/-- The calls that are left when a stop has been requested. -/
def Pc.stopCalls : Pc → Nat
  | .entry => 1
  | .firstConnect => 6
  | .loopTop => 5
  | .reconnect => 4
  | .write _ => 3
  | .read _ => 2
  | .sleep => 1
  | .returned => 0

/-- The packets that can still be written then. -/
def Pc.stopWrites : Pc → Nat
  | .firstConnect | .loopTop | .reconnect | .write _ => 1
  | _ => 0

/-- A stop has been requested, and the worker has at most this many calls left. -/
def Stopping (n : Nat) (s : State) : Prop :=
  Consistent s ∧ s.exitRequested = true ∧ s.pc.stopCalls ≤ n

/-- The conclusion for a call, from where the worker was and is. -/
theorem stop_moves {pc pc' : Pc} (hexit : t.exitRequested = true) (hs : s.pc = pc)
    (ht : t.pc = pc') (hcalls : pc'.stopCalls + 1 ≤ pc.stopCalls)
    (hwrites : t.written.length + pc'.stopWrites ≤ s.written.length + pc.stopWrites) :
    t.exitRequested = true ∧ t.pc.stopCalls + 1 ≤ s.pc.stopCalls ∧
      t.written.length + t.pc.stopWrites ≤ s.written.length + s.pc.stopWrites := by
  rw [hs, ht]
  exact ⟨hexit, hcalls, hwrites⟩

/-- With a stop requested, each call is one of those that were left, and so is each
write. -/
theorem Consistent.stop_step (c : Consistent s) (hexit : s.exitRequested = true)
    (hown : e.isCall = true) (hstep : WebSocketSink.step s e = some t) :
    t.exitRequested = true ∧ t.pc.stopCalls + 1 ≤ s.pc.stopCalls ∧
      t.written.length + t.pc.stopWrites ≤ s.written.length + s.pc.stopWrites := by
  cases step_sound hstep with
  | packetHandler => cases hown
  | stop => cases hown
  | enter h =>
      exact stop_moves hexit h (exitTest_stopped hexit) (by decide) (Nat.le_refl _)
  | firstConnect h => exact stop_moves hexit h rfl (Nat.le_refl 6) (Nat.le_refl _)
  | pass h =>
      rw [beginPass]
      split
      next =>
        rcases sendTest_cases (readFifo s) with hnext | hnext
        · exact stop_moves hexit h hnext (by decide) (Nat.le_refl _)
        · exact stop_moves hexit h hnext (by decide) (Nat.le_succ _)
      next => exact stop_moves hexit h rfl (Nat.le_refl 5) (Nat.le_refl _)
  | @reconnect ok h =>
      rcases sendTest_cases { s with websocketConnected := ok } with hnext | hnext
      · exact stop_moves hexit h hnext (by decide) (Nat.le_refl _)
      · exact stop_moves hexit h hnext (by decide) (Nat.le_succ _)
  | written h _ => exact stop_moves hexit h rfl (Nat.le_refl 3) (by simp [Pc.stopWrites])
  | writeThrew h hq =>
      exact stop_moves hexit h (c.forTest_next (.inl h) hq) (by simp [Pc.stopCalls])
        (by simp [dropConnection, Pc.stopWrites])
  | acked h hq =>
      exact stop_moves hexit h (c.forTest_next (.inr h) hq) (Nat.le_refl 2) (Nat.le_refl _)
  | readThrew h hq =>
      exact stop_moves hexit h (c.forTest_next (.inr h) hq) (Nat.le_refl 2) (Nat.le_refl _)
  | wake h =>
      exact stop_moves hexit h (exitTest_stopped hexit) (by decide) (Nat.le_refl _)

/-- An event from outside leaves the worker where it is. -/
theorem outside_step (hown : e.isCall = false) (hstep : step s e = some t) :
    t.pc = s.pc ∧ t.written = s.written ∧ t.acked = s.acked ∧
      (s.exitRequested = true → t.exitRequested = true) := by
  cases e with
  | packetHandler storage =>
      cases hstep
      exact ⟨rfl, rfl, rfl, id⟩
  | threadTransferDeInit =>
      cases hstep
      exact ⟨rfl, rfl, rfl, fun _ => rfl⟩
  | _ => cases hown

theorem stopping : Within step Event.isCall (fun _ => true) Stopping (·.pc = .returned) where
  done := by
    rintro s ⟨_, _, hcalls⟩
    cases h : s.pc with
    | returned => rfl
    | _ => simp [h, Pc.stopCalls] at hcalls
  call := by
    rintro n s e t ⟨c, hexit, hcalls⟩ hstep _ hown
    obtain ⟨hexit', hless, _⟩ := c.stop_step hexit hown hstep
    exact .inl ⟨c.step hstep, hexit', by omega⟩
  outside := by
    rintro n s e t ⟨c, hexit, hcalls⟩ hstep _ hown
    obtain ⟨hpc, _, _, hkeep⟩ := outside_step hown hstep
    exact .inl ⟨c.step hstep, hkeep hexit, by rw [hpc]; exact hcalls⟩
  stays := by
    intro s e t hpc hstep _
    exact (not_call_of_returned hpc hstep).2
  next := by
    rintro n s ⟨c, _, _⟩ hpc
    obtain ⟨e, t, hown, _, hstep⟩ := c.next hpc
    exact ⟨e, t, hown, rfl, hstep⟩

/-- Behind a stop the worker makes at most six calls and writes at most one packet.
Until it has returned it has a next call. -/
theorem stopped_within (run : Run h s) (hstop : s.exitRequested = true)
    (go : Transition.Run step s h' t) :
    calls Event.isCall h' ≤ 6 ∧ t.written.length ≤ s.written.length + 1 ∧
      (t.pc = .returned ∨ ∃ e u, e.isCall = true ∧ step t e = some u) := by
  have hs : Stopping 6 s := by
    refine ⟨run.consistent, hstop, ?_⟩
    cases s.pc <;> simp [Pc.stopCalls]
  refine ⟨?_, ?_, ?_⟩
  · exact stopping.calls_le (fun hpc hstep => (not_call_of_returned hpc hstep).1) hs go
      fun _ _ => rfl
  · have hwritten : (Consistent t ∧ t.exitRequested = true) ∧
        t.written.length + t.pc.stopWrites ≤ s.written.length + s.pc.stopWrites := by
      refine go.invariant (P := fun t => (Consistent t ∧ t.exitRequested = true) ∧
        t.written.length + t.pc.stopWrites ≤ s.written.length + s.pc.stopWrites)
        ⟨⟨run.consistent, hstop⟩, Nat.le_refl _⟩ ?_
      rintro u e v ⟨⟨c, hexit⟩, hle⟩ hstep
      cases hown : e.isCall with
      | true =>
          obtain ⟨hexit', _, hwrites⟩ := c.stop_step hexit hown hstep
          exact ⟨⟨c.step hstep, hexit'⟩, Nat.le_trans hwrites hle⟩
      | false =>
          obtain ⟨hpc, hsame, _, hkeep⟩ := outside_step hown hstep
          exact ⟨⟨c.step hstep, hkeep hexit⟩, by rw [hpc, hsame]; exact hle⟩
    have hleft : s.pc.stopWrites ≤ 1 := by
      cases s.pc <;> simp [Pc.stopWrites]
    omega
  · by_cases hpc : t.pc = .returned
    · exact .inl hpc
    · have ht : Consistent t := go.invariant run.consistent Consistent.step
      obtain ⟨e, u, hown, _, hstep⟩ := ht.next hpc
      exact .inr ⟨e, u, hown, hstep⟩

/-- A stop while the worker is connecting for the first time. -/
theorem stopped_within_connecting :
    ∃ r r', Transition.exec step initial [.enter, .threadTransferDeInit] = some r ∧
      Transition.exec step r.2 [.connect false, .pass] = some r' ∧
      calls Event.isCall r'.1 ≤ 6 ∧ r'.2.written.length ≤ r.2.written.length + 1 ∧
      (r'.2.pc = .returned ∨ ∃ e u, e.isCall = true ∧ step r'.2 e = some u) := by
  obtain ⟨r, hr, r', hr', hexit⟩ :
      ∃ r, Transition.exec step initial [.enter, .threadTransferDeInit] = some r ∧
        ∃ r', Transition.exec step r.2 [.connect false, .pass] = some r' ∧
          r.2.exitRequested = true := ⟨_, rfl, _, rfl, rfl⟩
  exact ⟨r, r', hr, hr',
    stopped_within (Transition.exec_run hr) hexit (Transition.exec_run hr')⟩

/-! ## Acknowledgements -/

/-- The accepted packets that are not acknowledged. -/
def State.pending (s : State) : List Packet := s.accepted.drop s.acked.length

/-- The calls up to the acknowledgement of the packet at place `k` of these, when all
calls succeed. -/
def State.callsTo (s : State) (k : Nat) : Nat :=
  match s.pc with
  | .entry => 4 * k + 5
  | .firstConnect => 4 * k + 4
  | .loopTop => if s.websocketConnected then 4 * k + 3 else 4 * k + 6
  | .reconnect => 4 * k + 5
  | .write _ => 4 * k + 2
  | .read _ => 4 * k + 1
  | .sleep => if s.websocketConnected then 4 * k + 4 else 4 * k + 7
  | .returned => 0

/-- A call that succeeds, or an event from outside but for a stop. -/
def Event.smooth (e : Event) : Bool := e.succeeds && e != .threadTransferDeInit

/-- The packet is acknowledged with at most this many more calls. -/
def Awaited (p : Packet) (n : Nat) (s : State) : Prop :=
  Consistent s ∧ s.exitRequested = false ∧ s.pc ≠ .returned ∧
    ∃ k, s.pending[k]? = some p ∧ s.callsTo k ≤ n

/-- The pending packets are one that is owing, if any, and those in the FIFO. -/
theorem Consistent.pending_eq (c : Consistent s) :
    (Settled s → s.pending = s.fifo.queue) ∧
      ∀ q, Owing s q → s.pending = q :: s.fifo.queue := by
  have haccepted : s.accepted = s.taken ++ s.fifo.queue := c.inOrder.conserve
  constructor
  · intro hsettled
    rw [State.pending, haccepted, show s.taken = s.acked from hsettled, List.drop_left]
  · intro q howing
    rw [State.pending, haccepted, howing.2.2, List.append_assoc, List.drop_left]
    rfl

theorem smooth_calls (he : e.smooth = true) : e.succeeds = true ∧ e ≠ .threadTransferDeInit := by
  simpa [Event.smooth] using he

/-- The worker goes on with the same packets pending. -/
theorem Awaited.move {n k : Nat} (hs : Consistent t) (hexit : t.exitRequested = false)
    (hpc : t.pc ≠ .returned) (hpending : t.pending = s.pending) (hk : s.pending[k]? = some p)
    (hn : t.callsTo k ≤ n) : Awaited p n t :=
  ⟨hs, hexit, hpc, k, by rw [hpending]; exact hk, hn⟩

/-- A connected worker reads the next packet and writes it. -/
theorem Awaited.pass {n k : Nat} (hs : Consistent s) (hexit : s.exitRequested = false)
    (hpc : s.pc = .loopTop) (hk : s.pending[k]? = some p) (hn : s.callsTo k ≤ n + 1)
    (ht : Consistent (beginPass s)) : Awaited p n (beginPass s) := by
  have hret := hs.retained
  simp only [Retained, hpc] at hret
  simp only [State.callsTo, hpc] at hn
  cases hconnected : s.websocketConnected with
  | true =>
      have hsettled : Settled s := hret.1 hconnected
      have hbegin : beginPass s = { readFifo s with pc := sendTest (readFifo s) } := by
        rw [beginPass, if_pos hconnected]
      rw [hconnected, if_pos rfl] at hn
      rcases readFifo_cases hsettled with ⟨hitems, _⟩ | ⟨q, howing⟩
      · -- the FIFO is empty, so nothing is pending
        have hzero : min 1 s.fifo.queue.length = 0 := (s.fifo.read_spec 1).1.symm.trans hitems
        have hnil : s.fifo.queue = [] := List.eq_nil_of_length_eq_zero (by omega)
        rw [hs.pending_eq.1 hsettled, hnil] at hk
        cases hk
      · have hwrite : sendTest (readFifo s) = .write 0 := sendTest_write hconnected howing.1
        rw [hbegin] at ht ⊢
        refine Awaited.move ht hexit ?_ rfl hk ?_
        · rw [hwrite]
          exact Pc.noConfusion
        · simp only [State.callsTo, hwrite]
          omega
  | false =>
      rw [hconnected] at hn
      have hbegin : beginPass s = { s with pc := .reconnect } := by
        rw [beginPass, hconnected]
        rfl
      rw [hbegin] at ht ⊢
      exact Awaited.move ht hexit Pc.noConfusion rfl hk
        (Nat.le_of_succ_le_succ (by simpa [State.callsTo] using hn))

/-- An acknowledgement is of the first pending packet. -/
theorem Awaited.acked {n k : Nat} {q : Packet} (hs : Consistent s) (hpc : s.pc = .read 0)
    (howing : Owing s q) (hconnected : s.websocketConnected = true)
    (hexit : s.exitRequested = false) (hk : s.pending[k]? = some p) (hn : s.callsTo k ≤ n + 1)
    (ht : Consistent { s with pc := .sleep, acked := s.acked ++ [q] }) :
    Awaited p n { s with pc := .sleep, acked := s.acked ++ [q] } ∨ p ∈ s.acked ++ [q] := by
  rw [hs.pending_eq.2 q howing] at hk
  simp only [State.callsTo, hpc] at hn
  cases k with
  | zero =>
      rw [List.getElem?_cons_zero] at hk
      rw [Option.some.inj hk]
      exact .inr (List.mem_append_right _ (List.mem_singleton.mpr rfl))
  | succ k =>
      rw [List.getElem?_cons_succ] at hk
      have hsettled : Settled { s with pc := .sleep, acked := s.acked ++ [q] } := howing.2.2
      refine .inl ⟨ht, hexit, Pc.noConfusion, k, ?_, ?_⟩
      · rw [ht.pending_eq.1 hsettled]
        exact hk
      · simp only [State.callsTo, hconnected, if_true]
        omega

theorem Awaited.call {n : Nat} (hs : Awaited p (n + 1) s) (hok : e.succeeds = true)
    (hown : e.isCall = true) (hstep : step s e = some t) : Awaited p n t ∨ p ∈ t.acked := by
  obtain ⟨c, hexit, hnot, k, hk, hn⟩ := hs
  have ht := c.step hstep
  have hret := c.retained
  cases step_sound hstep with
  | packetHandler => cases hown
  | stop => cases hown
  | enter h =>
      rw [exitTest_goes hexit] at ht ⊢
      refine .inl (Awaited.move ht hexit Pc.noConfusion rfl hk ?_)
      simp only [State.callsTo, h] at hn ⊢
      omega
  | @firstConnect ok h =>
      have htrue : ok = true := hok
      subst htrue
      refine .inl (Awaited.move ht hexit Pc.noConfusion rfl hk ?_)
      simp only [State.callsTo, h, if_true] at hn ⊢
      omega
  | pass h => exact .inl (Awaited.pass c hexit h hk hn ht)
  | @reconnect ok h =>
      have htrue : ok = true := hok
      subst htrue
      have hexit' : (reconnect s true).exitRequested = false := hexit
      have hconnected : (reconnect s true).websocketConnected = true := rfl
      simp only [State.callsTo, h] at hn
      rcases sendTest_cases { s with websocketConnected := true } with hnext | hnext
      · have hpc : (reconnect s true).pc = .write 0 := hnext
        refine .inl (Awaited.move ht hexit' (by rw [hpc]; exact Pc.noConfusion) rfl hk ?_)
        simp only [State.callsTo, hpc]
        omega
      · have hpc : (reconnect s true).pc = .sleep := hnext
        refine .inl (Awaited.move ht hexit' (by rw [hpc]; exact Pc.noConfusion) rfl hk ?_)
        simp only [State.callsTo, hpc, hconnected, if_true]
        omega
  | written h _ =>
      refine .inl (Awaited.move ht hexit Pc.noConfusion rfl hk ?_)
      simp only [State.callsTo, h] at hn ⊢
      omega
  | writeThrew h _ => cases hok
  | @acked i q h hq =>
      have howing := c.owing_of_sending (.inr h) hq
      have hend := c.forTest_next (.inr h) hq
      simp only [Retained, h] at hret
      obtain ⟨rfl, hconnected, _⟩ := hret
      rw [hend] at ht ⊢
      exact Awaited.acked c h howing hconnected hexit hk hn ht
  | readThrew h _ => cases hok
  | wake h =>
      rw [exitTest_goes hexit] at ht ⊢
      refine .inl (Awaited.move ht hexit Pc.noConfusion rfl hk ?_)
      simp only [State.callsTo, h] at hn ⊢
      split at hn
      next hconnected =>
        rw [if_pos hconnected]
        omega
      next hconnected =>
        rw [if_neg hconnected]
        omega

theorem awaited : Within step Event.isCall Event.smooth (Awaited p) (p ∈ ·.acked) where
  done := by
    rintro s ⟨_, _, hpc, k, _, hn⟩
    rw [State.callsTo] at hn
    split at hn
    next => omega
    next => omega
    next => split at hn <;> omega
    next => omega
    next => omega
    next => omega
    next => split at hn <;> omega
    next h => exact absurd h hpc
  call := fun hs hstep hsmooth hown => hs.call (smooth_calls hsmooth).1 hown hstep
  outside := by
    rintro n s e t ⟨c, hexit, hpc, k, hk, hn⟩ hstep hsmooth hown
    have ht := c.step hstep
    cases e with
    | packetHandler storage =>
        cases hstep
        refine .inl ⟨ht, hexit, hpc, k, ?_, hn⟩
        have hle : s.acked.length ≤ s.accepted.length := by
          by_contra hlt
          rw [State.pending, List.drop_eq_nil_of_le (by omega)] at hk
          cases hk
        simp only [State.pending, packetHandler]
        split
        next =>
          rw [List.drop_append_of_le_length hle]
          exact (List.getElem?_append_left (List.getElem?_eq_some_iff.mp hk).1).trans hk
        next => exact hk
    | threadTransferDeInit => cases hsmooth
    | _ => cases hown
  stays := fun hp hstep _ => acked_mono hstep hp
  next := by
    rintro n s ⟨c, _, hpc, _⟩ _
    obtain ⟨e, t, hown, hok, hstep⟩ := c.next hpc
    refine ⟨e, t, hown, ?_, hstep⟩
    cases e with
    | threadTransferDeInit => cases hown
    | _ => simpa [Event.smooth] using hok

/-- The flag of the constructor is only set by a stop, and the worker returns only
behind one. -/
theorem Run.not_returned (run : Run h s) (hexit : s.exitRequested = false) :
    s.pc ≠ .returned := by
  have hinv : s.pc = .returned → s.exitRequested = true := by
    refine run.invariant (P := fun s => s.pc = .returned → s.exitRequested = true) ?_ ?_
    · intro h
      cases h
    · intro s e t hs hstep hpc
      have hreturned : ∀ {next : Pc}, next ≠ .returned → exitTest s next = .returned →
          s.exitRequested = true := by
        intro next hne h
        rw [exitTest] at h
        split at h
        next hx => exact hx
        next => exact absurd h hne
      have hfor : ∀ {u : State} {i : Nat}, forTest u i ≠ .returned := by
        intro u i
        rw [forTest]
        split <;> exact Pc.noConfusion
      have hsend : ∀ {u : State}, sendTest u ≠ .returned := by
        intro u
        rcases sendTest_cases u with h | h <;> rw [h] <;> exact Pc.noConfusion
      cases step_sound hstep with
      | packetHandler => exact hs hpc
      | stop => rfl
      | enter _ => exact hreturned Pc.noConfusion hpc
      | wake _ => exact hreturned Pc.noConfusion hpc
      | firstConnect _ => cases hpc
      | pass _ =>
          rw [beginPass] at hpc
          split at hpc
          next => exact absurd hpc hsend
          next => cases hpc
      | reconnect _ => exact absurd hpc hsend
      | written _ _ => cases hpc
      | writeThrew _ _ => exact absurd hpc hfor
      | acked _ _ => exact absurd hpc hfor
      | readThrew _ _ => exact absurd hpc hfor
  intro hpc
  rw [hinv hpc] at hexit
  cases hexit

/-- While no stop is requested and all calls succeed, the packet at place `k` of those
accepted and not acknowledged has been acknowledged behind `4 * k + 7` calls of the
worker, from every state that a run reaches and whatever comes in meanwhile.  The calls
of the worker alone get there. -/
theorem acknowledged_within {k : Nat} (run : Run h s) (hexit : s.exitRequested = false)
    (hk : s.pending[k]? = some p) :
    (∀ h' t, Transition.Run step s h' t → (∀ q ∈ h', q.2.smooth = true) →
        4 * k + 7 ≤ calls Event.isCall h' → p ∈ t.acked) ∧
      ∃ h' t, Transition.Run step s h' t ∧
        (∀ q ∈ h', q.2.isCall = true ∧ q.2.smooth = true) ∧
        h'.length ≤ 4 * k + 7 ∧ p ∈ t.acked := by
  have hs : Awaited p (4 * k + 7) s := by
    refine ⟨run.consistent, hexit, Run.not_returned run hexit, k, hk, ?_⟩
    rw [State.callsTo]
    split <;> (try split) <;> omega
  exact ⟨fun h' t go hsmooth hcalls => awaited.reached hs go hsmooth hcalls,
    awaited.reachable hs⟩

/-- A packet comes in before the first connection. -/
theorem acknowledged_within_first :
    ∃ r p, Transition.exec step initial [.enter, .packetHandler ⟨0, ['a']⟩] = some r ∧
      r.2.pending[0]? = some p ∧
      (∀ h' t, Transition.Run step r.2 h' t → (∀ q ∈ h', q.2.smooth = true) →
          4 * 0 + 7 ≤ calls Event.isCall h' → p ∈ t.acked) ∧
        ∃ h' t, Transition.Run step r.2 h' t ∧
          (∀ q ∈ h', q.2.isCall = true ∧ q.2.smooth = true) ∧
          h'.length ≤ 4 * 0 + 7 ∧ p ∈ t.acked := by
  obtain ⟨r, hr, hexit, hpending⟩ :
      ∃ r, Transition.exec step initial [.enter, .packetHandler ⟨0, ['a']⟩] = some r ∧
        r.2.exitRequested = false ∧ r.2.pending[0]? = some ⟨0, ⟨0, ['a']⟩⟩ :=
    ⟨_, rfl, rfl, rfl⟩
  exact ⟨r, _, hr, hpending, acknowledged_within (Transition.exec_run hr) hexit hpending⟩

end WebSocketSink

end GsSDR
