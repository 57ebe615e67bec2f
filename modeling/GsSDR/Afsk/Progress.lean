import GsSDR.Afsk.Timing
import GsSDR.Lib.Progress

/-!
# How long a message waits for its burst

With a tag name the stream of `afsk_basic` has no gaps, so every call of `work` that
is asked for samples puts out samples or ends a burst, as long as there is a message
left.  `spent` counts both.  So the burst of a message is out after as many calls
as it and the bursts before it have samples, and one more for each of them
(`finished_within`), whatever else comes in meanwhile.
-/

namespace GsSDR.Afsk

open Bursts Transition

variable {R S M : Type}

/-- The samples of the burst of a message. -/
def Modem.burstLength (m : Modem R) (msg : List UInt8) : Nat :=
  (m.msgBits msg).length * m.sps.toNat

/-- The calls that the bursts of messages take, with one sample a call. -/
def Modem.cost (m : Modem R) (msgs : List (Msg M)) : Nat :=
  (msgs.map fun msg => m.burstLength msg.data + 1).sum

namespace Basic

/-- The messages whose bursts are out as a whole. -/
def State.finished (s : State R S M) : Nat :=
  s.received.length - s.outbox.length - if s.outputBuffer.isSome then 1 else 0

/-- The samples put out and the bursts ended. -/
def State.spent (s : State R S M) : Nat := s.stream.length + s.finished

/-- The state in which the burst of the first waiting message has been started. -/
def State.started (b : Basic R) (opb : List R) (outbox : List (List UInt8)) (s : State R S M) :
    State R S M :=
  { s with
    outbox
    outputBuffer := some opb
    opbIdx := 0
    tags := s.tags ++ [b.tag (s.stream.length, opb.length)] }

/-- A call of `work` for at least one sample. -/
def Event.asks : Event M → Bool
  | .handleMsg _ => false
  | .work length => decide (1 ≤ length)

variable {fl : Floats R S} {b : Basic R} {s t : State R S M} {opb : List R}

theorem cost_eq (m : Modem R) (msgs : List (Msg M)) :
    m.cost msgs = ((msgs.map Msg.data).map m.burstLength).sum + msgs.length := by
  induction msgs with
  | nil => rfl
  | cons msg msgs ih =>
      simp only [Modem.cost, List.map_cons, List.sum_cons, List.length_cons] at ih ⊢
      omega

theorem handleMsg_spent (s : State R S M) (msg : Msg M) :
    State.spent
        { s with outbox := s.outbox ++ [msg.data], received := s.received ++ [msg] } =
      s.spent := by
  simp only [State.spent, State.finished, List.length_append, List.length_singleton]
  omega

theorem started_finished {outbox : List (List UInt8)} {msg : List UInt8}
    (hbuffer : s.outputBuffer = none) (houtbox : s.outbox = msg :: outbox) :
    (s.started b opb outbox).finished = s.finished := by
  simp only [State.started, State.finished, hbuffer, houtbox, List.length_cons,
    Option.isSome_none, Option.isSome_some, if_neg Bool.false_ne_true, if_pos]
  omega

variable [NatCast R]

/-- The second part of `work` puts out samples or ends the burst. -/
theorem copy_spent (htag : b.streamTag.length ≠ 0) (hbuffer : s.outputBuffer.isSome)
    (hwaiting : s.outbox.length < s.received.length) (length : Nat) :
    s.spent + (if 1 ≤ length then 1 else 0) ≤ (copy fl b opb length s).spent := by
  have hnozeros : ¬ b.streamTag.length = 0 := htag
  have hout : (copy fl b opb length s).stream.length =
      s.stream.length + min (opb.length - s.opbIdx) length := by
    simp only [copy, if_neg hnozeros, List.append_nil, List.length_append, List.length_map,
      List.length_take, List.length_drop]
    omega
  have hbefore : s.finished = s.received.length - s.outbox.length - 1 := by
    rw [State.finished, if_pos hbuffer]
  by_cases hend : opb.length ≤ s.opbIdx + min (opb.length - s.opbIdx) length
  · -- the burst ends
    have hbehind : (copy fl b opb length s).finished = s.received.length - s.outbox.length := by
      simp only [State.finished, copy, if_pos hend]
      rfl
    rw [State.spent, State.spent, hout, hbefore, hbehind]
    split <;> omega
  · have hbehind : (copy fl b opb length s).finished =
        s.received.length - s.outbox.length - 1 := by
      simp only [State.finished, copy, if_neg hend]
      rfl
    rw [State.spent, State.spent, hout, hbefore, hbehind]
    split <;> omega

/-- It takes back nothing that is finished. -/
theorem copy_finished (hbuffer : s.outputBuffer.isSome) (length : Nat) :
    s.finished ≤ (copy fl b opb length s).finished := by
  have hbusy : (if (copy fl b opb length s).outputBuffer.isSome then 1 else 0) ≤ 1 := by
    split <;> omega
  have hsame : (copy fl b opb length s).received.length - (copy fl b opb length s).outbox.length =
      s.received.length - s.outbox.length := rfl
  rw [State.finished, if_pos hbuffer, State.finished, hsame]
  omega

variable [Add R] [Mul R] [Div R] {msgs : List (List UInt8)} {bursts : List (List S)}

/-! ## What the stream has of the bursts -/

/-- With a tag name the stream is the bursts that are finished and a part of the next
one, if that has been started. -/
theorem layout (htag : b.streamTag.length ≠ 0) (hs : Streaming fl b s) :
    ∃ done rest : List (List S),
      List.Forall₂ (Samples fl b) ((s.received.map Msg.data).take (done ++ rest).length)
        (done ++ rest) ∧
      s.tags = (marksFrom 0 (done ++ rest)).map b.tag ∧
      s.stream <+: (done ++ rest).flatten ∧ done.flatten <+: s.stream ∧
      done.length = s.finished ∧ rest.length ≤ 1 := by
  rw [Streaming] at hs
  split at hs
  next hbuffer =>
    obtain ⟨sent, hreceived, bursts, marks, hbursts, hlaid, htags⟩ := hs
    obtain ⟨hstream, hmarks⟩ := hlaid.eq_flatten htag
    have hlength := congrArg List.length hreceived
    rw [List.length_map, List.length_append, hbursts.length_eq] at hlength
    refine ⟨bursts, [], ?_, ?_, ?_, ?_, ?_, Nat.zero_le 1⟩
    · rw [List.append_nil, hreceived, List.take_left' hbursts.length_eq]
      exact hbursts
    · rw [List.append_nil, htags, hmarks]
    · rw [List.append_nil, hstream]
    · rw [hstream]
    · rw [State.finished, hbuffer, hlength]
      simp
  next opb hbuffer =>
    obtain ⟨_, sent, msg, tags, stream, hreceived, hopb, hwhole, htags, hout⟩ := hs
    obtain ⟨bursts, marks, hbursts, hlaid, htags'⟩ := hwhole
    obtain ⟨hstream, hmarks⟩ := hlaid.eq_flatten htag
    have hlength := congrArg List.length hreceived
    rw [List.length_map, List.length_append, List.length_cons, hbursts.length_eq] at hlength
    refine ⟨bursts, [opb.map fl.float32], ?_, ?_, ?_, ?_, ?_, Nat.le_refl 1⟩
    · have htake : (s.received.map Msg.data).take (bursts ++ [opb.map fl.float32]).length =
          sent ++ [msg] := by
        have hsplit : sent ++ msg :: s.outbox = (sent ++ [msg]) ++ s.outbox := by simp
        have hcount : (sent ++ [msg]).length = (bursts ++ [opb.map fl.float32]).length := by
          simp [hbursts.length_eq]
        rw [hreceived, hsplit, List.take_left' hcount]
      rw [htake]
      exact List.rel_append hbursts (.cons ⟨opb, hopb, rfl⟩ .nil)
    · rw [htags, htags', hmarks, marksFrom_concat, hstream, List.map_append, List.map_singleton,
        Nat.zero_add, List.length_map]
    · rw [hout, hstream, List.flatten_append, List.flatten_singleton]
      rw [List.map_take]
      exact (List.prefix_append_right_inj _).mpr (List.take_prefix _ _)
    · rw [hout, hstream]
      exact List.prefix_append _ _
    · rw [State.finished, hbuffer, hlength, Option.isSome_some, if_pos rfl]
      omega

/-- The messages that are left were taken in. -/
theorem length_outbox (hs : Streaming fl b s) :
    s.outbox.length + (if s.outputBuffer.isSome then 1 else 0) ≤ s.received.length := by
  rw [Streaming] at hs
  split at hs
  next hbuffer =>
    obtain ⟨sent, hreceived, _⟩ := hs
    have hlength := congrArg List.length hreceived
    rw [List.length_map, List.length_append] at hlength
    rw [hbuffer, Option.isSome_none, if_neg Bool.false_ne_true]
    omega
  next hbuffer =>
    obtain ⟨_, sent, msg, _, _, hreceived, _⟩ := hs
    have hlength := congrArg List.length hreceived
    rw [List.length_map, List.length_append, List.length_cons] at hlength
    rw [hbuffer, Option.isSome_some, if_pos rfl]
    omega

theorem length_burst {msg : List UInt8} {burst : List S} (h : Samples fl b msg burst) :
    burst.length = b.modem.burstLength msg := by
  obtain ⟨opb, hopb, rfl⟩ := h
  rw [List.length_map]
  exact fskLoop_length hopb

theorem length_flatten (h : List.Forall₂ (Samples fl b) msgs bursts) :
    bursts.flatten.length = (msgs.map b.modem.burstLength).sum := by
  induction h with
  | nil => rfl
  | cons hburst _ ih =>
      rw [List.flatten_cons, List.length_append, ih, List.map_cons, List.sum_cons,
        length_burst hburst]

/-- While a message waits for the end of its burst, less is spent than its burst and
those before it cost. -/
theorem spent_lt (htag : b.streamTag.length ≠ 0) (hs : Streaming fl b s) {k : Nat}
    (hk : k < s.received.length) (hwaits : s.finished ≤ k) :
    s.spent < b.modem.cost (s.received.take (k + 1)) := by
  obtain ⟨done, rest, hbursts, _, hstream, _, hdone, hrest⟩ := layout htag hs
  have hout := hstream.length_le
  rw [length_flatten hbursts] at hout
  have hcount : (done ++ rest).length ≤ k + 1 := by
    rw [List.length_append]
    omega
  have hfront : (((s.received.map Msg.data).take (done ++ rest).length).map
        b.modem.burstLength).sum ≤
      (((s.received.take (k + 1)).map Msg.data).map b.modem.burstLength).sum := by
    rw [List.map_take (f := Msg.data)]
    obtain ⟨later, hlater⟩ :
        (s.received.map Msg.data).take (done ++ rest).length <+:
          (s.received.map Msg.data).take (k + 1) := List.take_prefix_take_left hcount
    rw [← hlater, List.map_append, List.sum_append]
    exact Nat.le_add_right _ _
  rw [State.spent, cost_eq, List.length_take_of_le hk]
  omega

/-! ## Progress -/

/-- All that `work` can do: it goes on with a burst, has nothing to do, or starts the
burst of the first message that waits. -/
theorem work_cases {length : Nat} (hwork : work fl b length s = some t) :
    (∃ opb, s.outputBuffer = some opb ∧ t = copy fl b opb length s) ∨
    (s.outputBuffer = none ∧ s.outbox = [] ∧ ∃ out, t = { s with stream := s.stream ++ out }) ∨
    (s.outputBuffer = none ∧ ∃ msg outbox opb, s.outbox = msg :: outbox ∧
      t = copy fl b opb length (s.started b opb outbox)) := by
  rw [work] at hwork
  split at hwork
  next opb hbuffer =>
    cases hwork
    exact .inl ⟨opb, hbuffer, rfl⟩
  next hbuffer =>
    split at hwork
    next houtbox =>
      refine .inr (.inl ⟨hbuffer, houtbox, ?_⟩)
      split at hwork
      next =>
        cases hwork
        exact ⟨_, rfl⟩
      next =>
        cases hwork
        exact ⟨[], by rw [List.append_nil]⟩
    next msg outbox houtbox =>
      split at hwork
      next => cases hwork
      next opb _ =>
        cases hwork
        exact .inr (.inr ⟨hbuffer, msg, outbox, opb, houtbox, rfl⟩)

/-- A call of `work` takes no message in. -/
theorem work_received {length : Nat} (hwork : work fl b length s = some t) :
    t.received = s.received := by
  rcases work_cases hwork with ⟨opb, _, rfl⟩ | ⟨_, _, out, rfl⟩ | ⟨_, msg, outbox, opb, _, rfl⟩
  · rfl
  · rfl
  · rfl

/-- The messages taken in stay. -/
theorem received_prefix {h : List (State R S M × Event M)} (run : Run (step fl b) s h t) :
    s.received <+: t.received := by
  refine run.invariant (P := fun t => s.received <+: t.received) (List.prefix_refl _) ?_
  intro u e v hu hstep
  cases e with
  | handleMsg msg =>
      cases hstep
      exact hu.trans (List.prefix_append _ _)
  | work length =>
      rw [work_received hstep]
      exact hu

/-- No call takes back what is finished. -/
theorem finished_le {e : Event M} (hstep : step fl b s e = some t) : s.finished ≤ t.finished := by
  cases e with
  | handleMsg msg =>
      cases hstep
      simp only [State.finished, List.length_append, List.length_singleton]
      omega
  | work length =>
      rcases work_cases hstep with ⟨opb, hbuffer, rfl⟩ | ⟨_, _, out, rfl⟩ |
        ⟨hbuffer, msg, outbox, opb, houtbox, rfl⟩
      · exact copy_finished (by rw [hbuffer]; rfl) length
      · exact Nat.le_refl _
      · rw [← started_finished hbuffer houtbox]
        exact copy_finished rfl length

/-- A call that asks spends something, if a message is left. -/
theorem work_spent {length : Nat} (htag : b.streamTag.length ≠ 0) (hs : Streaming fl b s)
    (hwork : work fl b length s = some t) (hleft : s.finished < s.received.length) :
    s.spent + (if 1 ≤ length then 1 else 0) ≤ t.spent := by
  have hmany := length_outbox hs
  rcases work_cases hwork with ⟨opb, hbuffer, rfl⟩ | ⟨hbuffer, houtbox, out, rfl⟩ |
    ⟨hbuffer, msg, outbox, opb, houtbox, rfl⟩
  · rw [hbuffer, Option.isSome_some, if_pos rfl] at hmany
    exact copy_spent htag (by rw [hbuffer]; rfl) hmany length
  · -- all bursts are finished
    rw [State.finished, hbuffer, houtbox] at hleft
    simp at hleft
  · rw [houtbox, List.length_cons] at hmany
    have hfewer : (s.started b opb outbox).outbox.length <
        (s.started b opb outbox).received.length := Nat.lt_of_lt_of_le (Nat.lt_succ_self _)
      (Nat.le_trans (Nat.le_add_right _ _) hmany)
    have hstart : s.spent = (s.started b opb outbox).spent := by
      rw [State.spent, State.spent, started_finished hbuffer houtbox]
      rfl
    rw [hstart]
    exact copy_spent htag rfl hfewer length

/-- The burst of message `k` is out within `n` calls that ask. -/
def Due (fl : Floats R S) (b : Basic R) (k n : Nat) (s : State R S M) : Prop :=
  Streaming fl b s ∧ k < s.received.length ∧ b.modem.cost (s.received.take (k + 1)) ≤ s.spent + n

/-- Every call keeps the message due, and one that asks brings its burst nearer. -/
theorem Due.step {k n : Nat} {e : Event M} (htag : b.streamTag.length ≠ 0) (hs : Due fl b k n s)
    (hstep : step fl b s e = some t) :
    Due fl b k (n - if e.asks then 1 else 0) t ∨ k < t.finished := by
  obtain ⟨hstreaming, hk, hcost⟩ := hs
  rcases Nat.lt_or_ge k s.finished with hdone | hwaits
  · exact .inr (Nat.lt_of_lt_of_le hdone (finished_le hstep))
  · refine .inl ⟨step_streaming hstreaming hstep, ?_⟩
    cases e with
    | handleMsg msg =>
        cases hstep
        have hlater : k < (s.received ++ [msg]).length := by
          rw [List.length_append]
          exact Nat.lt_add_right _ hk
        refine ⟨hlater, ?_⟩
        show b.modem.cost ((s.received ++ [msg]).take (k + 1)) ≤ _
        rw [List.take_append_of_le_length hk, handleMsg_spent]
        exact hcost
    | work length =>
        have hspent := work_spent htag hstreaming hstep (Nat.lt_of_le_of_lt hwaits hk)
        rw [work_received hstep]
        refine ⟨hk, ?_⟩
        by_cases hasks : 1 ≤ length
        · rw [if_pos hasks] at hspent
          rw [Event.asks, if_pos (decide_eq_true hasks)]
          omega
        · rw [if_neg hasks] at hspent
          rw [Event.asks, if_neg (by simpa using hasks)]
          omega

/-- With a message taken in, its burst is out after this many calls that ask. -/
theorem due_within (htag : b.streamTag.length ≠ 0) (hsps : 1 ≤ b.modem.sps) (k : Nat) :
    Within (step fl b) Event.asks (fun _ => true) (Due fl b k)
      (fun s : State R S M => k < s.finished) where
  done := by
    rintro s ⟨hs, hk, hcost⟩
    by_contra hwaits
    exact absurd hcost (Nat.not_le.mpr (spent_lt htag hs hk (Nat.le_of_not_lt hwaits)))
  call := by
    intro n s e t hs hstep _ hasks
    have ht := hs.step htag hstep
    rwa [if_pos hasks, Nat.add_sub_cancel] at ht
  outside := by
    intro n s e t hs hstep _ hasks
    have ht := hs.step htag hstep
    rwa [hasks, if_neg Bool.false_ne_true, Nat.sub_zero] at ht
  stays := fun hs hstep _ => Nat.lt_of_lt_of_le hs (finished_le hstep)
  next := by
    intro n s _ _
    obtain ⟨t, ht⟩ := step_isSome fl hsps s (.work 1)
    exact ⟨.work 1, t, rfl, rfl, ht⟩

end Basic

end GsSDR.Afsk
