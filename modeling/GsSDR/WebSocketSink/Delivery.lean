import GsSDR.HttpSink.Acceptance
import GsSDR.WebSocketSink.Worker

/-!
# Every packet is delivered in its turn

The worker reads the FIFO only while it is connected, and it loses the
connection only by a packet that is not acknowledged.  So between two passes a
connected worker has nothing left to send, and an unconnected one has at most
the packet that it has lost the connection with.  That packet is the first one
written when there is a connection again.
-/

namespace GsSDR

namespace WebSocketSink

open HttpSink (Packet InOrder)

variable {h : List (State × Event)} {s t : State} {e : Event} {p : Packet}

/-- The packet in `buffer_write_storage` has been taken and not acknowledged. -/
def Owing (s : State) (p : Packet) : Prop :=
  s.niutputItemsReal = 1 ∧ s.bufferWriteStorage[0]? = some p ∧ s.taken = s.acked ++ [p]

/-- Nothing is left to send. -/
def Settled (s : State) : Prop := s.taken = s.acked

/-- What holds between two passes. -/
def Rested (s : State) : Prop :=
  (s.websocketConnected = true → Settled s) ∧
    (s.websocketConnected = false → (s.niutputItemsReal = 0 ∧ Settled s) ∨ ∃ p, Owing s p)

/-- What has been taken and not acknowledged is in the buffer. -/
def Retained (s : State) : Prop :=
  match s.pc with
  | .entry | .firstConnect =>
      s.niutputItemsReal = 0 ∧ s.websocketConnected = false ∧ Settled s
  | .reconnect => s.websocketConnected = false ∧ Rested s
  | .write i | .read i => i = 0 ∧ s.websocketConnected = true ∧ ∃ p, Owing s p
  | .loopTop | .sleep | .returned => Rested s

/-- As long as this packet is not acknowledged, it is what the worker writes. -/
def NextWritten (s : State) (p : Packet) : Prop :=
  ∀ es r, Transition.exec step s es = some r → p ∉ r.2.acked →
    ∃ k, r.2.written = s.written ++ List.replicate k p

structure Consistent (s : State) : Prop where
  inOrder : InOrder s.accepted s.taken s.fifo
  retained : Retained s

theorem consistent_initial : Consistent initial where
  inOrder := ⟨rfl, rfl⟩
  retained := ⟨rfl, rfl, rfl⟩

/-! ## Steps -/

theorem Settled.rested (hs : Settled s) (hitems : s.niutputItemsReal = 0) : Rested s :=
  ⟨fun _ => hs, fun _ => .inl ⟨hitems, hs⟩⟩

theorem Owing.rested (hconnected : s.websocketConnected = false) (hs : Owing s p) :
    Rested s :=
  ⟨fun htrue => absurd (hconnected.symm.trans htrue) Bool.false_ne_true, fun _ => .inr ⟨p, hs⟩⟩

/-- A loop test behind the only packet ends the loop. -/
theorem forTest_one (hitems : s.niutputItemsReal = 1) : forTest s 1 = .sleep := by
  rw [forTest, hitems]
  rfl

theorem sendTest_write (hconnected : s.websocketConnected = true)
    (hitems : s.niutputItemsReal = 1) : sendTest s = .write 0 := by
  rw [sendTest, if_pos ⟨hconnected, by rw [hitems]; exact Nat.one_pos⟩, forTest, hitems]
  rfl

theorem sendTest_sleep (h : s.websocketConnected = false ∨ s.niutputItemsReal = 0) :
    sendTest s = .sleep := by
  refine if_neg ?_
  rintro ⟨hconnected, hitems⟩
  rcases h with hfalse | hzero
  · exact absurd (hfalse.symm.trans hconnected) Bool.false_ne_true
  · exact absurd hitems (by rw [hzero]; exact Nat.lt_irrefl 0)

/-- The FIFO is read while nothing is left to send. -/
theorem readFifo_cases (hs : Settled s) :
    ((readFifo s).niutputItemsReal = 0 ∧ Settled (readFifo s)) ∨
      ∃ p, Owing (readFifo s) p := by
  obtain ⟨hcount, hitems, _⟩ := s.fifo.read_spec 1
  cases hqueue : s.fifo.queue with
  | nil =>
      rw [hqueue] at hcount hitems
      refine .inl ⟨hcount, ?_⟩
      show s.taken ++ (s.fifo.read 1).2.1 = s.acked
      rw [hitems]
      exact (List.append_nil _).trans hs
  | cons p queue =>
      rw [hqueue] at hcount hitems
      refine .inr ⟨p, ?_, ?_, ?_⟩
      · exact hcount.trans (by simp)
      · show ((s.fifo.read 1).2.1 ++ _)[0]? = some p
        rw [hitems]
        rfl
      · show s.taken ++ (s.fifo.read 1).2.1 = s.acked ++ [p]
        rw [hitems, show s.taken = s.acked from hs]
        rfl

theorem retained_beginPass (hs : Rested s) : Retained (beginPass s) := by
  rw [beginPass]
  split
  next hconnected =>
    have hread : (readFifo s).websocketConnected = true := hconnected
    rcases readFifo_cases (hs.1 hconnected) with ⟨hitems, hsettled⟩ | ⟨p, howing⟩
    · rw [sendTest_sleep (.inr hitems)]
      exact ⟨fun _ => hsettled, fun _ => .inl ⟨hitems, hsettled⟩⟩
    · rw [sendTest_write hread howing.1]
      exact ⟨rfl, hread, p, howing⟩
  next hconnected =>
    exact ⟨by simpa using hconnected, hs⟩

theorem retained_reconnect (hfalse : s.websocketConnected = false) (hs : Rested s) (ok : Bool) :
    Retained (reconnect s ok) := by
  rw [reconnect]
  rcases hs.2 hfalse with ⟨hitems, hsettled⟩ | ⟨p, howing⟩
  · rw [sendTest_sleep (s := { s with websocketConnected := ok }) (.inr hitems)]
    exact ⟨fun _ => hsettled, fun _ => .inl ⟨hitems, hsettled⟩⟩
  · cases ok with
    | true =>
        rw [sendTest_write (s := { s with websocketConnected := true }) rfl howing.1]
        exact ⟨rfl, rfl, p, howing⟩
    | false =>
        rw [sendTest_sleep (s := { s with websocketConnected := false }) (.inl rfl)]
        exact Owing.rested (p := p) rfl howing

theorem retained_exitTest {next : Pc} (hnext : Retained { s with pc := next })
    (hreturned : Retained { s with pc := .returned }) :
    Retained { s with pc := exitTest s next } := by
  rw [exitTest]
  split
  next => exact hreturned
  next => exact hnext

theorem Consistent.step (hs : Consistent s) (hstep : WebSocketSink.step s e = some t) :
    Consistent t := by
  obtain ⟨hord, hret⟩ := hs
  cases step_sound hstep with
  | packetHandler => exact ⟨hord.write _, hret⟩
  | stop => exact ⟨hord, hret⟩
  | enter hpc =>
      simp only [Retained, hpc] at hret
      obtain ⟨hitems, hconnected, hsettled⟩ := hret
      exact ⟨hord, retained_exitTest ⟨hitems, hconnected, hsettled⟩
        (Settled.rested (s := { s with pc := .returned }) hsettled hitems)⟩
  | firstConnect hpc =>
      simp only [Retained, hpc] at hret
      obtain ⟨hitems, _, hsettled⟩ := hret
      exact ⟨hord, fun _ => hsettled, fun _ => .inl ⟨hitems, hsettled⟩⟩
  | pass hpc =>
      simp only [Retained, hpc] at hret
      refine ⟨?_, retained_beginPass hret⟩
      rw [beginPass]
      split
      next => exact hord.read 1
      next => exact hord
  | reconnect hpc =>
      simp only [Retained, hpc] at hret
      exact ⟨hord, retained_reconnect hret.1 hret.2 _⟩
  | written hpc _ =>
      simp only [Retained, hpc] at hret
      obtain ⟨hi, hconnected, p, howing⟩ := hret
      exact ⟨hord, hi, hconnected, p, howing⟩
  | writeThrew hpc _ =>
      simp only [Retained, hpc] at hret
      obtain ⟨rfl, _, p, howing⟩ := hret
      refine ⟨hord, ?_⟩
      show Retained { s with pc := forTest s 1, websocketConnected := false, written := _ }
      rw [forTest_one howing.1]
      exact Owing.rested (p := p) rfl howing
  | acked hpc hp =>
      simp only [Retained, hpc] at hret
      obtain ⟨rfl, hconnected, q, howing⟩ := hret
      have hpq := Option.some.inj (hp.symm.trans howing.2.1)
      refine ⟨hord, ?_⟩
      rw [forTest_one howing.1, hpq]
      exact ⟨fun _ => howing.2.2,
        fun hfalse => absurd (hfalse.symm.trans hconnected) Bool.false_ne_true⟩
  | readThrew hpc _ =>
      simp only [Retained, hpc] at hret
      obtain ⟨rfl, _, p, howing⟩ := hret
      refine ⟨hord, ?_⟩
      rw [dropConnection, forTest_one howing.1]
      exact Owing.rested (p := p) rfl howing
  | wake hpc =>
      simp only [Retained, hpc] at hret
      exact ⟨hord, retained_exitTest hret hret⟩

theorem Run.consistent (run : Run h s) : Consistent s :=
  Transition.Run.invariant consistent_initial Consistent.step run

/-! ## What is written -/

/-- What is acknowledged stays acknowledged. -/
theorem acked_mono (hstep : step s e = some t) (hp : p ∈ s.acked) : p ∈ t.acked := by
  cases step_sound hstep with
  | pass =>
      rw [beginPass]
      split
      next => exact hp
      next => exact hp
  | acked => exact List.mem_append_left _ hp
  | packetHandler => exact hp
  | stop => exact hp
  | enter => exact hp
  | firstConnect => exact hp
  | reconnect => exact hp
  | written => exact hp
  | writeThrew => exact hp
  | readThrew => exact hp
  | wake => exact hp

/-- A write is of the packet that is owing. -/
theorem Consistent.owing_of_sending {i : Nat} (hs : Consistent s)
    (hpc : s.pc = .write i ∨ s.pc = .read i) {q : Packet} (hq : s.bufferWriteStorage[i]? = some q) :
    Owing s q := by
  have hret := hs.retained
  rw [Retained] at hret
  obtain ⟨rfl, _, p, howing⟩ : i = 0 ∧ s.websocketConnected = true ∧ ∃ p, Owing s p := by
    rcases hpc with hpc | hpc
    · simpa only [hpc] using hret
    · simpa only [hpc] using hret
  have hpq := Option.some.inj (hq.symm.trans howing.2.1)
  rwa [hpq]

theorem Owing.unique (hp : Owing s p) {q : Packet} (hq : Owing s q) : p = q :=
  Option.some.inj (hp.2.1.symm.trans hq.2.1)

/-- A packet that is owing is acknowledged by the step, or it still is and
nothing else has been written. -/
theorem Owing.step (howing : Owing s p) (hs : Consistent s) (hstep : step s e = some t) :
    p ∈ t.acked ∨ (Owing t p ∧ (t.written = s.written ∨ t.written = s.written ++ [p])) := by
  cases step_sound hstep with
  | packetHandler => exact .inr ⟨howing, .inl rfl⟩
  | stop => exact .inr ⟨howing, .inl rfl⟩
  | enter => exact .inr ⟨howing, .inl rfl⟩
  | firstConnect => exact .inr ⟨howing, .inl rfl⟩
  | pass hpc =>
      have hret := hs.retained
      simp only [Retained, hpc] at hret
      rw [beginPass]
      split
      next hconnected =>
        -- a connected worker has nothing left to send here
        have hsettled : s.taken = s.acked := hret.1 hconnected
        rw [howing.2.2] at hsettled
        exact absurd hsettled (by simp)
      next => exact .inr ⟨howing, .inl rfl⟩
  | reconnect => exact .inr ⟨howing, .inl rfl⟩
  | written hpc hq =>
      rw [(hs.owing_of_sending (.inl hpc) hq).unique howing]
      exact .inr ⟨howing, .inr rfl⟩
  | writeThrew hpc hq =>
      rw [(hs.owing_of_sending (.inl hpc) hq).unique howing]
      exact .inr ⟨howing, .inr rfl⟩
  | acked hpc hq =>
      rw [(hs.owing_of_sending (.inr hpc) hq).unique howing]
      exact .inl (List.mem_append_right _ (List.mem_singleton.mpr rfl))
  | readThrew => exact .inr ⟨howing, .inl rfl⟩
  | wake => exact .inr ⟨howing, .inl rfl⟩

theorem Owing.nextWritten (howing : Owing s p) (hs : Consistent s) : NextWritten s p := by
  intro es r hr hnot
  have hkeep : p ∈ r.2.acked ∨ (Consistent r.2 ∧ Owing r.2 p ∧
      ∃ k, r.2.written = s.written ++ List.replicate k p) := by
    refine Transition.exec_invariant (P := fun u => p ∈ u.acked ∨ (Consistent u ∧ Owing u p ∧
      ∃ k, u.written = s.written ++ List.replicate k p)) ?_ es ?_ hr
    · rintro u e t (hacked | ⟨hu, howing, k, hk⟩) hstep
      · exact .inl (acked_mono hstep hacked)
      · rcases howing.step hu hstep with hacked | ⟨howing, hsame | hone⟩
        · exact .inl hacked
        · exact .inr ⟨hu.step hstep, howing, k, hsame.trans hk⟩
        · refine .inr ⟨hu.step hstep, howing, k + 1, ?_⟩
          rw [hone, hk, List.append_assoc, List.replicate_succ']
    · exact .inr ⟨hs, howing, 0, (List.append_nil _).symm⟩
  rcases hkeep with hacked | ⟨_, _, hwritten⟩
  · exact absurd hacked hnot
  · exact hwritten

/-- What is owing, from where the worker is. -/
theorem Consistent.settled_or_owing (hs : Consistent s) : Settled s ∨ ∃ p, Owing s p := by
  have hrested : Rested s → Settled s ∨ ∃ p, Owing s p := by
    intro h
    cases hconnected : s.websocketConnected with
    | true => exact .inl (h.1 hconnected)
    | false => exact (h.2 hconnected).imp And.right id
  have hret := hs.retained
  rw [Retained] at hret
  split at hret
  next => exact .inl hret.2.2
  next => exact .inl hret.2.2
  next => exact hrested hret.2
  next => exact .inr hret.2.2
  next => exact .inr hret.2.2
  next => exact hrested hret
  next => exact hrested hret
  next => exact hrested hret

/-- In every state that a run reaches, the packets read out of the FIFO are the
first ones that it has accepted, and they are those acknowledged, each once,
followed by at most one packet.  That one is in the buffer, and nothing else is
written until it is acknowledged.  No acknowledged packet is written. -/
theorem delivered (run : Run h s) :
    s.accepted = s.taken ++ s.fifo.queue ∧ s.accepted.Nodup ∧
      (s.taken = s.acked ∨
        ∃ p, s.taken = s.acked ++ [p] ∧ s.niutputItemsReal = 1 ∧
          s.bufferWriteStorage[0]? = some p ∧ NextWritten s p) ∧
      ∀ ok t, step s (.write ok) = some t → ∃ p, t.written = s.written ++ [p] ∧ p ∉ s.acked := by
  have hs := run.consistent
  refine ⟨hs.inOrder.conserve, hs.inOrder.nodup, ?_, ?_⟩
  · rcases hs.settled_or_owing with hsettled | ⟨p, howing⟩
    · exact .inl hsettled
    · exact .inr ⟨p, howing.2.2, howing.1, howing.2.1, howing.nextWritten hs⟩
  · intro ok t hstep
    have hfresh : ∀ {p}, Owing s p → p ∉ s.acked := by
      intro p howing hp
      have hnodup := hs.inOrder.taken_nodup
      rw [howing.2.2] at hnodup
      exact (List.nodup_append.mp hnodup).2.2 p hp p (List.mem_singleton.mpr rfl) rfl
    cases step_sound hstep with
    | written hpc hq => exact ⟨_, rfl, hfresh (hs.owing_of_sending (.inl hpc) hq)⟩
    | writeThrew hpc hq => exact ⟨_, rfl, hfresh (hs.owing_of_sending (.inl hpc) hq)⟩

/-- The connection is lost with the first packet, which is then sent again. -/
theorem delivered_reconnected :
    ∃ r, Transition.exec step initial
        [.enter, .connect true, .packetHandler ⟨0, ['a']⟩, .packetHandler ⟨0, ['b']⟩, .pass,
          .write true, .read false, .wake, .pass, .connect true, .write true] = some r ∧
      r.2.taken = [⟨0, ⟨0, ['a']⟩⟩] ∧ r.2.acked = [] ∧
      (r.2.accepted = r.2.taken ++ r.2.fifo.queue ∧ r.2.accepted.Nodup ∧
        (r.2.taken = r.2.acked ∨
          ∃ p, r.2.taken = r.2.acked ++ [p] ∧ r.2.niutputItemsReal = 1 ∧
            r.2.bufferWriteStorage[0]? = some p ∧ NextWritten r.2 p) ∧
        ∀ ok t, step r.2 (.write ok) = some t →
          ∃ p, t.written = r.2.written ++ [p] ∧ p ∉ r.2.acked) := by
  obtain ⟨r, hr, htaken, hacked⟩ :
      ∃ r, Transition.exec step initial
          [.enter, .connect true, .packetHandler ⟨0, ['a']⟩, .packetHandler ⟨0, ['b']⟩, .pass,
            .write true, .read false, .wake, .pass, .connect true, .write true] = some r ∧
        r.2.taken = [⟨0, ⟨0, ['a']⟩⟩] ∧ r.2.acked = [] := ⟨_, rfl, rfl, rfl⟩
  exact ⟨r, hr, htaken, hacked, delivered (Transition.exec_run hr)⟩

end WebSocketSink

end GsSDR
