import GsSDR.HttpSource.Thread

/-!
# The thread does the iterations

`Poll` says what the network does in an iteration, and `HttpSource.step` does the
iteration at once.  Each run of the thread is a run of such iterations, as far as the
iteration goes that the thread is in (`thread_polls`).  Each run of iterations is what
some run of the thread has done (`polls_thread`).  So the thread acknowledges and
publishes what the iterations do (`thread_iterates`).
-/

namespace GsSDR

namespace HttpSource

open Cxx

/-- What was sent in the iterations and in the one that goes on. -/
def Sent (u : State) (acks : List Ack) (s : Thread) : Prop :=
  s.acks = u.acks ++ acks ∧ s.published = u.published

/-- The thread is behind the iterations of `u`, in one that began with this worker. -/
def Iterating (tree : PropertyTree) (u : State) (s : Thread) : Prop :=
  match s.pc with
  | .entry | .resolve | .connectFirst => False
  | .connect => u.worker = some s.worker ∧ s.worker.serverConnected = false ∧ Sent u [] s
  | .writeGet | .readGet =>
      ∃ w c, u.worker = some w ∧ (w.serverConnected || c) = true ∧ s.worker = ⟨true, w.vars⟩ ∧
        Sent u [] s
  | .writeAck =>
      ∃ w c body records, u.worker = some w ∧
        answer tree w ⟨c, true, some body, false, false⟩ = .packets records ∧
        assignRecords tree w.vars records = (s.worker.vars, true) ∧
        s.worker.vars.complete = true ∧ Sent u [] s
  | .readAck =>
      ∃ w c body records, u.worker = some w ∧
        answer tree w ⟨c, true, some body, true, false⟩ = .packets records ∧
        assignRecords tree w.vars records = (s.worker.vars, true) ∧
        s.worker.vars.complete = true ∧
        Sent u [⟨s.worker.vars.timestamp, s.worker.vars.spacecraftId⟩] s
  | .exitTest | .shutdown | .sleep | .returned => u.worker = some s.worker ∧ Sent u [] s
  | .terminated => u.worker = none ∧ Sent u [] s

/-- The thread has not come to the loop, and will not if it has ended. -/
structure Outside (s : Thread) : Prop where
  pc : s.pc = .entry ∨ s.pc = .resolve ∨ s.pc = .connectFirst ∨ s.pc = .returned ∨
    s.pc = .terminated
  vars : s.worker.vars = .reset
  acks : s.acks = []
  published : s.published = []

variable {tree : PropertyTree} {u : State} {s t : Thread} {e : Event} {w : Worker}

/-! ## The end of an iteration -/

/-- The end of the `try` block is that of the iteration with this poll. -/
theorem endTry_iterating {poll : Poll} {acks : List Ack} {ok : Bool} (hw : u.worker = some w)
    (htry : tryBlock tree w poll = (s.worker.vars, acks, ok)) (hsent : Sent u acks s) :
    ∃ u', HttpSource.step tree u poll = some u' ∧ Iterating tree u' (s.endTry ok) := by
  obtain ⟨u', hu'⟩ : ∃ u', HttpSource.step tree u poll = some u' := by
    rw [HttpSource.step, hw]
    exact ⟨_, rfl⟩
  obtain ⟨w', hw', hworker, hacks, hpublished, _⟩ := step_eq_some hu'
  obtain rfl : w = w' := Option.some.inj (hw.symm.trans hw')
  refine ⟨u', hu', ?_⟩
  rw [iteration_acks, htry] at hacks
  rw [iteration_published, htry] at hpublished
  rw [iteration, htry] at hworker
  have hacks' : s.acks = u'.acks ++ [] := by rw [hacks, List.append_nil, hsent.1]
  rw [← hsent.2] at hpublished
  cases hpublish : publish s.worker.vars with
  | none =>
      simp only [hpublish] at hworker hpublished
      simp only [Thread.endTry, hpublish, Iterating]
      refine ⟨hworker, hacks', ?_⟩
      rw [hpublished]
      simp
  | some r =>
      simp only [hpublish] at hworker hpublished
      simp only [Thread.endTry, hpublish, Iterating]
      refine ⟨hworker, hacks', ?_⟩
      rw [hpublished]
      simp

/-- The top of the loop begins an iteration. -/
theorem top_iterating (hw : u.worker = some s.worker) (hsent : Sent u [] s) :
    Iterating tree u s.top := by
  cases hconnected : s.worker.serverConnected with
  | true =>
      simp only [Iterating, Thread.top, hconnected, if_true]
      refine ⟨s.worker, false, hw, by rw [hconnected]; rfl, ?_, hsent⟩
      rw [← hconnected]
  | false =>
      simp only [Iterating, Thread.top, hconnected]
      exact ⟨hw, trivial, hsent⟩

/-! ## One step of the thread -/

/-- What the `try` block takes a body for. -/
def bodyAnswer (tree : PropertyTree) (body : Str) : Answer :=
  if contains ['[', ']'] body || body.length ≤ 2 then .noPacket
  else (tree.readJson body).elim .threw .packets

theorem answer_body {c : Bool} (body : Str) (hc : (w.serverConnected || c) = true) (a b : Bool) :
    answer tree w ⟨c, true, some body, a, b⟩ = bodyAnswer tree body := by
  simp only [answer, hc, bodyAnswer]
  cases tree.readJson body <;> rfl

/-- What the `try` block does behind the request, from the body of the answer. -/
theorem readBody_iterating {c : Bool} (body : Str) (hw : u.worker = some w)
    (hc : (w.serverConnected || c) = true) (hworker : s.worker = ⟨true, w.vars⟩)
    (hsent : Sent u [] s) :
    ∃ h' u', Transition.Run (HttpSource.step tree) u h' u' ∧
      Iterating tree u' (s.readBody tree body) := by
  have hanswer : ∀ a b, answer tree w ⟨c, true, some body, a, b⟩ = bodyAnswer tree body :=
    answer_body body hc
  have hend : ∀ {t : Thread} {ok : Bool}, Sent u [] t →
      tryBlock tree w ⟨c, true, some body, false, false⟩ = (t.worker.vars, [], ok) →
      ∃ h' u', Transition.Run (HttpSource.step tree) u h' u' ∧ Iterating tree u' (t.endTry ok) := by
    intro t ok ht htry
    obtain ⟨u', hu', hiterating⟩ := endTry_iterating hw htry ht
    exact ⟨_, u', Transition.Run.nil.snoc hu', hiterating⟩
  rw [Thread.readBody]
  split
  next hempty =>
    refine hend hsent ?_
    rw [tryBlock, hanswer, bodyAnswer, if_pos hempty, hworker]
  next hbody =>
    cases hjson : tree.readJson body with
    | none =>
        refine hend hsent ?_
        rw [tryBlock, hanswer, bodyAnswer, if_neg hbody, hjson, hworker]
        rfl
    | some records =>
        have hpackets : ∀ a b, answer tree w ⟨c, true, some body, a, b⟩ = .packets records := by
          intro a b
          rw [hanswer, bodyAnswer, if_neg hbody, hjson]
          rfl
        obtain ⟨⟨v, done⟩, hassign⟩ : ∃ r, assignRecords tree w.vars records = r := ⟨_, rfl⟩
        simp only [hworker, hassign]
        cases done with
        | false =>
            refine hend hsent ?_
            simp only [tryBlock, hpackets, hassign]
        | true =>
            cases hcomplete : v.complete with
            | true =>
                refine ⟨[], u, .nil, ?_⟩
                simp only [Bool.not_true, Bool.false_eq_true, if_false, if_true, Iterating]
                exact ⟨w, c, body, records, hw, hpackets _ _, hassign, hcomplete, hsent⟩
            | false =>
                refine hend hsent ?_
                simp [tryBlock, hpackets, hassign, acknowledge, hcomplete]

/-- An exception at one of the calls ends the iteration. -/
theorem threw_iterating (hs : Iterating tree u s)
    (hcall : s.pc = .connect ∧ e = .connect false ∨ s.pc = .writeGet ∧ e = .writeGet false ∨
      s.pc = .readGet ∧ e = .readGet none ∨ s.pc = .writeAck ∧ e = .writeAck false) :
    ∃ u' poll, HttpSource.step tree u poll = some u' ∧ Iterating tree u' (s.endTry false) := by
  suffices hpoll : ∃ w poll acks, u.worker = some w ∧
      tryBlock tree w poll = (s.worker.vars, acks, false) ∧ Sent u acks s by
    obtain ⟨w, poll, acks, hw, htry, hsent⟩ := hpoll
    obtain ⟨u', hu', hiterating⟩ := endTry_iterating hw htry hsent
    exact ⟨u', poll, hu', hiterating⟩
  rcases hcall with ⟨hpc, -⟩ | ⟨hpc, -⟩ | ⟨hpc, -⟩ | ⟨hpc, -⟩
  · simp only [Iterating, hpc] at hs
    obtain ⟨hw, hdown, hsent⟩ := hs
    refine ⟨s.worker, ⟨false, false, none, false, false⟩, [], hw, ?_, hsent⟩
    simp [tryBlock, answer, hdown]
  · simp only [Iterating, hpc] at hs
    obtain ⟨w, c, hw, hc, hworker, hsent⟩ := hs
    refine ⟨w, ⟨c, false, none, false, false⟩, [], hw, ?_, hsent⟩
    simp [tryBlock, answer, hworker]
  · simp only [Iterating, hpc] at hs
    obtain ⟨w, c, hw, hc, hworker, hsent⟩ := hs
    refine ⟨w, ⟨c, true, none, false, false⟩, [], hw, ?_, hsent⟩
    simp only [tryBlock, answer, hc, hworker]
    rfl
  · simp only [Iterating, hpc] at hs
    obtain ⟨w, c, body, records, hw, hanswer, hassign, hcomplete, hsent⟩ := hs
    refine ⟨w, ⟨c, true, some body, false, false⟩, [], hw, ?_, hsent⟩
    simp [tryBlock, hanswer, hassign, acknowledge, hcomplete]

/-- A step of the thread in the loop is one in its iteration, or ends it. -/
theorem Iterating.step (hs : Iterating tree u s) (hstep : Thread.step tree s e = some t) :
    ∃ h' u', Transition.Run (HttpSource.step tree) u h' u' ∧ Iterating tree u' t := by
  cases Thread.step_sound hstep with
  | stop e _ => exact ⟨[], u, .nil, hs⟩
  | make => exact ⟨[], u, .nil, hs⟩
  | enter hpc => simp only [Iterating, hpc] at hs
  | resolve ok hpc => simp only [Iterating, hpc] at hs
  | connectFirst ok hpc => simp only [Iterating, hpc] at hs
  | connected hpc =>
      simp only [Iterating, hpc] at hs
      obtain ⟨hw, _, hsent⟩ := hs
      exact ⟨[], u, .nil, s.worker, true, hw, Bool.or_true _, rfl, hsent⟩
  | requested hpc =>
      simp only [Iterating, hpc] at hs
      exact ⟨[], u, .nil, hs⟩
  | answered body hpc =>
      simp only [Iterating, hpc] at hs
      obtain ⟨w, c, hw, hc, hworker, hsent⟩ := hs
      exact readBody_iterating body hw hc hworker hsent
  | acked hpc =>
      simp only [Iterating, hpc] at hs
      obtain ⟨w, c, body, records, hw, hanswer, hassign, hcomplete, hacks, hpublished⟩ := hs
      refine ⟨[], u, .nil, w, c, body, records, hw, hanswer, hassign, hcomplete, ?_, hpublished⟩
      rw [hacks, List.append_nil]
  | ended ok hpc =>
      simp only [Iterating, hpc] at hs
      obtain ⟨w, c, body, records, hw, hanswer, hassign, hcomplete, hsent⟩ := hs
      have hpackets : answer tree w ⟨c, true, some body, true, ok⟩ = .packets records := hanswer
      have htry : tryBlock tree w ⟨c, true, some body, true, ok⟩ = (s.worker.vars,
          [⟨s.worker.vars.timestamp, s.worker.vars.spacecraftId⟩], ok) := by
        simp only [tryBlock, hpackets, hassign, acknowledge, hcomplete, if_true]
      obtain ⟨u', hu', hiterating⟩ := endTry_iterating hw htry hsent
      exact ⟨_, u', Transition.Run.nil.snoc hu', hiterating⟩
  | threw e hcall =>
      obtain ⟨u', poll, hu', hiterating⟩ := threw_iterating hs hcall
      exact ⟨_, u', Transition.Run.nil.snoc hu', hiterating⟩
  | testExit hpc =>
      simp only [Iterating, hpc] at hs
      refine ⟨[], u, .nil, ?_⟩
      by_cases hflag : s.exitRequested = true
      · by_cases hconnected : s.worker.serverConnected = true
        · simp only [Iterating, hflag, hconnected, if_true]
          exact hs
        · simp only [Iterating, hflag, hconnected, if_true]
          exact hs
      · simp only [Iterating, hflag]
        exact hs
  | shutdown ok hpc =>
      simp only [Iterating, hpc] at hs
      exact ⟨[], u, .nil, hs⟩
  | wake hpc =>
      simp only [Iterating, hpc] at hs
      exact ⟨[], u, .nil, top_iterating hs.1 hs.2⟩

/-- Outside of the loop nothing is sent. -/
theorem Outside.step (hs : Outside s) (hstep : Thread.step tree s e = some t) :
    Outside t ∨ ∃ connected, Iterating tree (HttpSource.initial connected) t := by
  obtain ⟨hpc, hvars, hacks, hpublished⟩ := hs
  have hloop : ∀ pc, s.pc = pc → pc = .entry ∨ pc = .resolve ∨ pc = .connectFirst ∨
      pc = .returned ∨ pc = .terminated := by
    rintro pc rfl
    exact hpc
  cases Thread.step_sound hstep with
  | stop e _ => exact .inl ⟨hpc, hvars, hacks, hpublished⟩
  | make => exact .inl ⟨hpc, hvars, hacks, hpublished⟩
  | enter _ =>
      refine .inl ⟨?_, hvars, hacks, hpublished⟩
      show (if s.exitRequested then Pc.returned else .resolve) = _ ∨ _
      split <;> simp
  | resolve ok _ =>
      refine .inl ⟨?_, hvars, hacks, hpublished⟩
      show (if ok then Pc.connectFirst else .terminated) = _ ∨ _
      split <;> simp
  | connectFirst ok _ =>
      refine .inr ⟨ok, top_iterating ?_ ⟨hacks, hpublished⟩⟩
      rw [hvars]
      rfl
  | connected h => simpa using hloop _ h
  | requested h => simpa using hloop _ h
  | answered body h => simpa using hloop _ h
  | acked h => simpa using hloop _ h
  | ended ok h => simpa using hloop _ h
  | threw e h => rcases h with ⟨h, _⟩ | ⟨h, _⟩ | ⟨h, _⟩ | ⟨h, _⟩ <;> simpa using hloop _ h
  | testExit h => simpa using hloop _ h
  | shutdown ok h => simpa using hloop _ h
  | wake h => simpa using hloop _ h

/-! ## One iteration of the thread -/

/-- What a part of an iteration leaves of the run. -/
structure Adds (s : Thread) (acks : List Ack) (t : Thread) : Prop where
  acks : t.acks = s.acks ++ acks
  published : t.published = s.published
  exitRequested : t.exitRequested = s.exitRequested

/-- The thread can come to the request. -/
theorem exists_writeGet (hpc : s.pc = s.top.pc) :
    ∃ h x, Transition.Run (Thread.step tree) s h x ∧ x.pc = .writeGet ∧
      x.worker = ⟨true, s.worker.vars⟩ ∧ Adds s [] x := by
  cases hconnected : s.worker.serverConnected with
  | true =>
      rw [Thread.top, hconnected] at hpc
      refine ⟨[], s, .nil, hpc, ?_, (List.append_nil _).symm, rfl, rfl⟩
      rw [← hconnected]
  | false =>
      rw [Thread.top, hconnected] at hpc
      replace hpc : s.pc = .connect := hpc
      have hstep : Thread.step tree s (.connect true) =
          some { s with worker := ⟨true, s.worker.vars⟩ }.top := by
        simp only [Thread.step, hpc]
      exact ⟨_, _, Transition.Run.nil.snoc hstep, rfl, rfl, (List.append_nil _).symm, rfl, rfl⟩

/-- The thread can come to the end of a `try` block that has this outcome. -/
def Ends (tree : PropertyTree) (s : Thread) (out : RecordVars × List Ack × Bool) : Prop :=
  ∃ h x, Transition.Run (Thread.step tree) s h (x.endTry out.2.2) ∧ x.worker.vars = out.1 ∧
    Adds s out.2.1 x

theorem Ends.of_step {h : List (Thread × Event)} {x y : Thread} {acks : List Ack} {ok : Bool}
    (run : Transition.Run (Thread.step tree) s h x)
    (hstep : Thread.step tree x e = some (y.endTry ok)) (hadds : Adds s acks y) :
    Ends tree s (y.worker.vars, acks, ok) :=
  ⟨_, y, run.snoc hstep, rfl, hadds⟩

/-- Behind the answer to the request. -/
theorem ends_readGet {h : List (Thread × Event)} {x : Thread} {body : Str} (poll : Poll)
    (run : Transition.Run (Thread.step tree) s h x) (hx : x.pc = .readGet)
    (hworker : x.worker = ⟨true, s.worker.vars⟩) (hadds : Adds s [] x)
    (hanswer : answer tree s.worker poll = bodyAnswer tree body) :
    Ends tree s (tryBlock tree s.worker poll) := by
  have hread : Thread.step tree x (.readGet (some body)) = some (x.readBody tree body) := by
    simp only [Thread.step, hx]
  have hvars : s.worker.vars = x.worker.vars := by rw [hworker]
  rw [Thread.readBody] at hread
  split at hread
  next hempty =>
    rw [tryBlock, hanswer, bodyAnswer, if_pos hempty, hvars]
    exact .of_step run hread hadds
  next hbody =>
    cases hjson : tree.readJson body with
    | none =>
        rw [tryBlock, hanswer, bodyAnswer, if_neg hbody, hjson, hvars]
        rw [hjson] at hread
        exact .of_step run hread hadds
    | some records =>
        obtain ⟨⟨v, done⟩, hassign⟩ : ∃ r, assignRecords tree s.worker.vars records = r := ⟨_, rfl⟩
        simp only [hjson, hworker, hassign] at hread
        rw [tryBlock, hanswer, bodyAnswer, if_neg hbody, hjson]
        simp only [Option.elim_some, hassign]
        cases done with
        | false => exact .of_step run hread ⟨hadds.acks, hadds.published, hadds.exitRequested⟩
        | true =>
            cases hcomplete : v.complete with
            | false =>
                simp only [acknowledge, hcomplete]
                simp only [Bool.not_true, Bool.false_eq_true, if_false, hcomplete] at hread
                exact .of_step run hread ⟨hadds.acks, hadds.published, hadds.exitRequested⟩
            | true =>
                simp only [acknowledge, hcomplete, if_true]
                simp only [Bool.not_true, Bool.false_eq_true, if_false, hcomplete, if_true] at hread
                have run' := run.snoc hread
                cases hwrite : poll.writeAck with
                | false =>
                    exact .of_step run' (e := .writeAck false) rfl
                      ⟨hadds.acks, hadds.published, hadds.exitRequested⟩
                | true =>
                    have run'' := run'.snoc (e := .writeAck true) rfl
                    refine .of_step run'' (e := .readAck poll.readAck) rfl
                      ⟨?_, hadds.published, hadds.exitRequested⟩
                    rw [hadds.acks, List.append_nil]

/-- From the top of the loop the thread does the `try` block of a poll. -/
theorem ends_tryBlock (poll : Poll) (hpc : s.pc = s.top.pc) :
    Ends tree s (tryBlock tree s.worker poll) := by
  obtain ⟨connect, writeGet, readGet, writeAck, readAck⟩ := poll
  cases hc : s.worker.serverConnected || connect with
  | false =>
      obtain ⟨hdown, rfl⟩ := Bool.or_eq_false_iff.mp hc
      rw [Thread.top, hdown] at hpc
      replace hpc : s.pc = .connect := hpc
      have hstep : Thread.step tree s (.connect false) = some (s.endTry false) := by
        simp only [Thread.step, hpc]
      have htry : tryBlock tree s.worker ⟨false, writeGet, readGet, writeAck, readAck⟩ =
          (s.worker.vars, [], false) := by simp [tryBlock, answer, hdown]
      rw [htry]
      exact .of_step .nil hstep ⟨(List.append_nil _).symm, rfl, rfl⟩
  | true =>
      obtain ⟨h, x, run, hx, hworker, hadds⟩ := @exists_writeGet tree s hpc
      have hvars : s.worker.vars = x.worker.vars := by rw [hworker]
      cases writeGet with
      | false =>
          have hstep : Thread.step tree x (.writeGet false) = some (x.endTry false) := by
            simp only [Thread.step, hx]
          have htry : tryBlock tree s.worker ⟨connect, false, readGet, writeAck, readAck⟩ =
              (x.worker.vars, [], false) := by simp [tryBlock, answer, hvars]
          rw [htry]
          exact .of_step run hstep hadds
      | true =>
          obtain ⟨y, hwrite, hy, hworker', hadds'⟩ : ∃ y, Thread.step tree x (.writeGet true) =
              some y ∧ y.pc = .readGet ∧ y.worker = ⟨true, s.worker.vars⟩ ∧ Adds s [] y :=
            ⟨{ x with pc := .readGet, requests := x.requests + 1 }, by simp only [Thread.step, hx],
              rfl, hworker, hadds.acks, hadds.published, hadds.exitRequested⟩
          cases readGet with
          | none =>
              have hread : Thread.step tree y (.readGet none) = some (y.endTry false) := by
                simp only [Thread.step, hy]
              have htry : tryBlock tree s.worker ⟨connect, true, none, writeAck, readAck⟩ =
                  (y.worker.vars, [], false) := by
                simp only [tryBlock, answer, hc, hworker']
                rfl
              rw [htry]
              exact .of_step (run.snoc hwrite) hread hadds'
          | some body =>
              exact ends_readGet _ (run.snoc hwrite) hy hworker' hadds'
                (answer_body body hc writeAck readAck)

/-! ## Results -/

/-- The thread is at a boundary of the iterations of `u`. -/
structure Between (u : State) (s : Thread) : Prop where
  sent : Sent u [] s
  flag : s.exitRequested = false
  place : s.pc = .terminated ∧ u.worker = none ∨
    u.worker = some s.worker ∧ (s.pc = s.top.pc ∨ s.pc = .exitTest)

/-- While the flag is not set, the thread comes from a boundary to the top of the loop. -/
theorem exists_top (hw : u.worker = some s.worker) (hs : Between u s) :
    ∃ h x, Transition.Run (Thread.step tree) s h x ∧ x.pc = x.top.pc ∧ x.worker = s.worker ∧
      Adds s [] x := by
  rcases hs.place with ⟨_, hnone⟩ | ⟨_, hpc | hpc⟩
  · rw [hw] at hnone
    cases hnone
  · exact ⟨[], s, .nil, hpc, rfl, (List.append_nil _).symm, rfl, rfl⟩
  · have htest : Thread.step tree s .testExit = some { s with pc := .sleep } := by
      simp [Thread.step, hpc, hs.flag]
    have hwake : Thread.step tree { s with pc := .sleep } .wake = some s.top := rfl
    exact ⟨_, s.top, (Transition.Run.nil.snoc htest).snoc hwake, rfl, rfl,
      (List.append_nil _).symm, rfl, rfl⟩

/-- From one boundary to the next the thread does the iteration of any poll. -/
theorem Between.step {poll : Poll} {u' : State} (hs : Between u s)
    (hstep : HttpSource.step tree u poll = some u') :
    ∃ h t, Transition.Run (Thread.step tree) s h t ∧ Between u' t := by
  obtain ⟨w, hw, hworker, hacks, hpublished, _⟩ := step_eq_some hstep
  obtain rfl : w = s.worker := by
    rcases hs.place with ⟨_, hnone⟩ | ⟨hsome, _⟩
    · rw [hw] at hnone
      cases hnone
    · exact Option.some.inj (hw.symm.trans hsome)
  obtain ⟨h, x, run, hpc, hx, hadds⟩ := @exists_top tree u s hw hs
  obtain ⟨h', y, run', hvars, hadds'⟩ := @ends_tryBlock tree x poll hpc
  rw [hx] at run' hvars hadds'
  refine ⟨_, _, run.trans run', ?_⟩
  have hsent : y.acks = u'.acks := by
    rw [hadds'.acks, hadds.acks, hs.sent.1, hacks, iteration_acks, List.append_nil, List.append_nil]
  have hbefore : y.published = u.published := by
    rw [hadds'.published, hadds.published, hs.sent.2]
  have hflag : y.exitRequested = false := by
    rw [hadds'.exitRequested, hadds.exitRequested, hs.flag]
  rw [iteration_published] at hpublished
  rw [iteration] at hworker
  rw [Thread.endTry, hvars]
  cases hpublish : publish (tryBlock tree s.worker poll).1 with
  | none =>
      simp only [hpublish] at hworker hpublished
      refine ⟨⟨by rw [hsent, List.append_nil], ?_⟩, hflag, .inl ⟨rfl, hworker⟩⟩
      rw [hpublished, hbefore]
      simp
  | some r =>
      simp only [hpublish] at hworker hpublished
      refine ⟨⟨by rw [hsent, List.append_nil], ?_⟩, hflag, .inr ⟨hworker, .inr rfl⟩⟩
      rw [hpublished, hbefore]
      simp

/-- Behind every run the thread has not come to the loop, or it has done the iterations
of some polls and is in the next one, or behind the last. -/
theorem thread_polls {h : List (Thread × Event)} (run : Thread.Run tree h s) :
    Outside s ∨ ∃ connected h' u, Run tree connected h' u ∧ Iterating tree u s := by
  induction run with
  | nil => exact .inl ⟨.inl rfl, rfl, rfl, rfl⟩
  | snoc _ hstep ih =>
      rcases ih with hs | ⟨connected, h', u, run, hs⟩
      · rcases hs.step hstep with ht | ⟨connected, ht⟩
        · exact .inl ht
        · exact .inr ⟨connected, [], _, .nil, ht⟩
      · obtain ⟨h'', u', run', ht⟩ := hs.step hstep
        exact .inr ⟨connected, _, u', run.trans run', ht⟩

/-- All iterations, with any polls, are what the thread has done in some run. -/
theorem polls_thread {connected : Bool} {h : List (State × Poll)} (run : Run tree connected h u) :
    ∃ h' s, Thread.Run tree h' s ∧ Between u s := by
  obtain ⟨r, hr, hfirst⟩ : ∃ r, Transition.exec (Thread.step tree) .initial
      [.enter, .resolve true, .connect connected] = some r ∧
        Between (HttpSource.initial connected) r.2 :=
    ⟨_, rfl, ⟨rfl, rfl⟩, rfl, .inr ⟨rfl, .inl rfl⟩⟩
  obtain ⟨h', s, run', hs⟩ := run.simulation (R := fun s u => Between u s) hfirst Between.step
  exact ⟨_, s, (Transition.exec_run hr).trans run', hs⟩

/-- The thread and the iterations do the same, in both directions. -/
theorem thread_iterates (tree : PropertyTree) :
    (∀ h s, Thread.Run tree h s →
      Outside s ∨ ∃ connected h' u, Run tree connected h' u ∧ Iterating tree u s) ∧
    ∀ connected h u, Run tree connected h u → ∃ h' s, Thread.Run tree h' s ∧ Between u s :=
  ⟨fun _ _ run => thread_polls run, fun _ _ _ run => polls_thread run⟩

end HttpSource

end GsSDR
