import GsSDR.HttpSink.Invariant

/-!
# In which order packets are posted

The batches are consecutive pieces of the accepted packets, and every pass
posts its batch from the front.  So whatever has been posted of a batch is a
front of it (`Fronted`), and a packet posted for the first time is the one right
behind that front.

Without exceptions and with 200 for every answer, each batch is posted once
from front to end.
-/

namespace GsSDR

namespace HttpSink

variable {h : List (State × Event)} {s t : State} {e : Event}

/-- The packet of a POST. -/
def Exchange.posted : Exchange → Option Packet
  | .post p => some p
  | .answer _ _ => none

/-- The packets posted, one for each POST. -/
def posts (log : List Exchange) : List Packet := log.filterMap Exchange.posted

/-- The packets posted, each at its first POST. -/
def firstPosts (log : List Exchange) : List Packet := (posts log).eraseDups

/-- The part of a batch that is still to be posted, from where the worker is. -/
def Pc.unsent (batch : List Packet) : Pc → List Packet
  | .connect => batch
  | .write i => batch.drop i
  | .read i => batch.drop (i + 1)
  | _ => []

/-- The part of the batch that this pass has not posted yet. -/
def State.unsent (s : State) : List Packet := s.pc.unsent s.batch

/-- The call returns, and an answer is 200. -/
def Event.succeeds : Event → Bool
  | .connect ok | .write ok | .shutdown ok => ok
  | .read status => status == some 200
  | _ => true

/-! ## First posts -/

@[simp] theorem posts_post (log : List Exchange) (p : Packet) :
    posts (log ++ [.post p]) = posts log ++ [p] := by
  simp [posts, Exchange.posted]

@[simp] theorem posts_answer (log : List Exchange) (p : Packet) (status : Nat) :
    posts (log ++ [.answer p status]) = posts log := by
  simp [posts, Exchange.posted]

theorem mem_firstPosts {log : List Exchange} {p : Packet} : p ∈ firstPosts log ↔ p ∈ posts log :=
  List.mem_eraseDups

theorem firstPosts_post (log : List Exchange) (p : Packet) :
    firstPosts (log ++ [.post p]) =
      if p ∈ posts log then firstPosts log else firstPosts log ++ [p] := by
  rw [firstPosts, posts_post, List.eraseDups_append, List.removeAll]
  split
  next hp => simp [hp, firstPosts]
  next hp => simp [hp, firstPosts, List.eraseDups_cons]

/-- The number of packets of the batch that this pass has posted. -/
def Pc.posted : Pc → Nat
  | .write i => i
  | .read i => i + 1
  | _ => 0

/-- `k` packets at the front of the batch have been posted, this pass is not
beyond them, and the first posts are in the order of what has been read from the
FIFO up to them. -/
structure Fronted (s : State) (old : List Packet) (k : Nat) : Prop where
  taken : s.taken = old ++ s.batch
  firsts : (firstPosts s.log).Sublist (old ++ s.batch.take k)
  front : ∀ p ∈ s.batch.take k, p ∈ posts s.log
  here : s.pc.posted ≤ k

theorem fronted_initial : Fronted initial [] 0 where
  taken := rfl
  firsts := List.Sublist.refl _
  front := by
    intro p hp
    cases hp
  here := Nat.le_refl _

theorem forTest_posted (s : State) (i : Nat) : (forTest s i).posted ≤ i := by
  rw [forTest]
  split
  next => exact Nat.le_refl _
  next => exact Nat.zero_le _

theorem exitTest_posted (s : State) : (exitTest s).posted = 0 := by
  rw [exitTest]
  split <;> rfl

/-- The worker moves without a POST. -/
theorem Fronted.move {old : List Packet} {k : Nat} (hf : Fronted s old k)
    (htaken : t.taken = s.taken) (hbatch : t.batch = s.batch)
    (hposts : posts t.log = posts s.log) (hhere : t.pc.posted ≤ k) : Fronted t old k where
  taken := by
    rw [htaken, hbatch]
    exact hf.taken
  firsts := by
    rw [firstPosts, hposts, hbatch]
    exact hf.firsts
  front := by
    rw [hbatch, hposts]
    exact hf.front
  here := hhere

/-- A POST of the packet with this index keeps the front or moves it by one. -/
theorem Fronted.post {old : List Packet} {k i : Nat} {p : Packet} (hf : Fronted s old k)
    (hnodup : s.taken.Nodup) (hi : i ≤ k) (hp : s.batch[i]? = some p)
    (htaken : t.taken = s.taken) (hbatch : t.batch = s.batch)
    (hlog : t.log = s.log ++ [.post p]) (hhere : t.pc.posted ≤ i + 1) :
    ∃ k', Fronted t old k' := by
  have hpost : ∀ q, q ∈ posts t.log ↔ q ∈ posts s.log ∨ q = p := by
    intro q
    rw [hlog, posts_post, List.mem_append, List.mem_singleton]
  rcases Nat.lt_or_eq_of_le hi with hlt | rfl
  · have hmem : p ∈ posts s.log :=
      hf.front p (List.mem_of_getElem? (by rw [List.getElem?_take_of_lt hlt]; exact hp))
    refine ⟨k, ?_, ?_, ?_, Nat.le_trans hhere hlt⟩
    · rw [htaken, hbatch]
      exact hf.taken
    · rw [hlog, firstPosts_post, if_pos hmem, hbatch]
      exact hf.firsts
    · intro q hq
      rw [hbatch] at hq
      exact (hpost q).mpr (.inl (hf.front q hq))
  · have hsucc : s.batch.take (i + 1) = s.batch.take i ++ [p] := by
      rw [List.take_add_one, hp]
      rfl
    -- what is behind the front has not been posted
    have hnew : p ∉ posts s.log := by
      intro hmem
      have hfirst := hf.firsts.subset (mem_firstPosts.mpr hmem)
      rw [hf.taken, ← List.take_append_drop i s.batch, ← List.append_assoc] at hnodup
      refine (List.nodup_append.mp hnodup).2.2 p hfirst p ?_ rfl
      exact List.mem_of_getElem? (i := 0) (by rw [List.getElem?_drop]; exact hp)
    refine ⟨i + 1, ?_, ?_, ?_, hhere⟩
    · rw [htaken, hbatch]
      exact hf.taken
    · rw [hlog, firstPosts_post, if_neg hnew, hbatch, hsucc, ← List.append_assoc]
      exact hf.firsts.append (List.Sublist.refl [p])
    · intro q hq
      rw [hbatch, hsucc, List.mem_append, List.mem_singleton] at hq
      exact (hpost q).mpr (hq.imp_left (hf.front q))

/-- A new batch has nothing posted. -/
theorem Fronted.beginPass {old : List Packet} {k : Nat} (hf : Fronted s old k) :
    ∃ old' k', Fronted (beginPass s) old' k' := by
  have hidle : (HttpSink.beginPass s).pc.posted = 0 := by
    rcases beginPass_pc s with hpc | hpc
    · rw [hpc]
      rfl
    · rw [hpc]
      rfl
  cases hflag : s.dataSentSuccess with
  | true =>
      obtain ⟨hbatch, htaken, _⟩ := beginPass_batch hflag
      refine ⟨s.taken, 0, ?_, ?_, ?_, ?_⟩
      · rw [htaken, hbatch]
      · rw [beginPass_log, List.take_zero, List.append_nil, hf.taken]
        exact hf.firsts.trans ((List.take_sublist k s.batch).append_left old)
      · intro p hp
        cases hp
      · exact Nat.le_of_eq hidle
  | false =>
      obtain ⟨hbatch, htaken⟩ := beginPass_retry hflag
      refine ⟨old, k, hf.move htaken hbatch (by rw [beginPass_log]) ?_⟩
      rw [hidle]
      exact Nat.zero_le k

theorem fronted_step {old : List Packet} {k : Nat} (c : Consistent s) (hf : Fronted s old k)
    (hstep : step s e = some t) : ∃ old' k', Fronted t old' k' := by
  have hhere := hf.here
  cases step_sound hstep with
  | packetHandler => exact ⟨old, k, hf.move rfl rfl rfl hhere⟩
  | stop => exact ⟨old, k, hf.move rfl rfl rfl hhere⟩
  | enter => exact ⟨old, k, hf.move rfl rfl rfl (by rw [exitTest_posted]; exact Nat.zero_le k)⟩
  | pass => exact hf.beginPass
  | connected =>
      exact ⟨old, k, hf.move rfl rfl rfl (Nat.le_trans (forTest_posted s 0) (Nat.zero_le k))⟩
  | posted i p hpc hp =>
      have hi := c.index
      rw [hpc] at hhere hi
      rw [← batch_getElem? hi] at hp
      obtain ⟨k', hf'⟩ := hf.post (t := { s with pc := .read i, log := s.log ++ [.post p] })
        c.taken_nodup hhere hp rfl rfl rfl (Nat.le_refl _)
      exact ⟨old, k', hf'⟩
  | answered i p status hpc _ =>
      rw [hpc] at hhere
      exact ⟨old, k, hf.move rfl rfl (posts_answer _ _ _)
        (Nat.le_trans (forTest_posted s (i + 1)) hhere)⟩
  | writeThrew i p hpc hp =>
      have hi := c.index
      rw [hpc] at hhere hi
      rw [← batch_getElem? hi] at hp
      obtain ⟨k', hf'⟩ := hf.post (t := { s with pc := .sleep, log := s.log ++ [.post p] })
        c.taken_nodup hhere hp rfl rfl rfl (Nat.zero_le _)
      exact ⟨old, k', hf'⟩
  | ended => exact ⟨old, k, hf.move rfl rfl rfl (Nat.zero_le k)⟩
  | wake => exact ⟨old, k, hf.move rfl rfl rfl (by rw [exitTest_posted]; exact Nat.zero_le k)⟩

/-- In every run the first posts are in the order of acceptance. -/
theorem Run.firstPosts_sublist (run : Run h s) : (firstPosts s.log).Sublist s.accepted := by
  obtain ⟨c, old, k, hf⟩ := Transition.Run.invariant
    (P := fun s => Consistent s ∧ ∃ old k, Fronted s old k)
    ⟨consistent_initial, [], 0, fronted_initial⟩
    (fun hs hstep => by
      obtain ⟨c, old, k, hf⟩ := hs
      exact ⟨c.step hstep, fronted_step c hf hstep⟩) run
  rw [c.conserve, hf.taken]
  refine hf.firsts.trans (List.Sublist.trans ?_ (List.sublist_append_left _ _))
  exact (List.take_sublist k s.batch).append_left old

/-! ## Without failures -/

/-- Everything read from the FIFO has been posted or is still to be posted in
this pass, and the flag is set. -/
structure InStep (s : State) : Prop where
  flag : s.dataSentSuccess = true
  taken : s.taken = posts s.log ++ s.unsent

theorem batch_length (c : Consistent s) : s.batch.length = s.niutputItemsReal := by
  rw [State.batch, List.length_take]
  exact Nat.min_eq_left c.fits

/-- At the loop test with this index, the rest of the batch is to be posted. -/
theorem unsent_forTest (c : Consistent s) (i : Nat) :
    (forTest s i).unsent s.batch = s.batch.drop i := by
  rcases Nat.lt_or_ge i s.niutputItemsReal with hlt | hge
  · rw [forTest, if_pos hlt]
    rfl
  · rw [forTest, if_neg (Nat.not_lt.mpr hge)]
    refine (List.drop_eq_nil_of_le ?_).symm
    rw [batch_length c]
    exact hge

theorem unsent_exitTest (batch : List Packet) : (exitTest s).unsent batch = [] := by
  rw [exitTest]
  split
  next => rfl
  next => rfl

theorem InStep.beginPass (hs : InStep s) (hpc : s.pc = .loopTop) : InStep (beginPass s) := by
  obtain ⟨hbatch, htaken, _⟩ := beginPass_batch hs.flag
  have hnone : s.unsent = [] := by
    rw [State.unsent, hpc]
    rfl
  have hnext : (HttpSink.beginPass s).pc =
      if 0 < (s.fifo.read writeBufferSize).1 then .connect else .sleep := by
    rw [HttpSink.beginPass, if_pos hs.flag]
  have hunsent : (HttpSink.beginPass s).unsent = (HttpSink.beginPass s).batch := by
    rw [State.unsent, hnext]
    split
    next => rfl
    next hzero =>
      rw [(s.fifo.read_spec writeBufferSize).1, ← List.length_take] at hzero
      rw [hbatch, List.length_eq_zero_iff.mp (Nat.eq_zero_of_not_pos hzero)]
      rfl
  constructor
  · rw [HttpSink.beginPass, if_pos hs.flag]
    exact hs.flag
  · rw [htaken, beginPass_log, hunsent, hbatch, hs.taken, hnone, List.append_nil]

/-- The worker goes on with the same rest to be posted. -/
theorem InStep.move (hs : InStep s) (hflag : t.dataSentSuccess = true)
    (htaken : t.taken = s.taken) (hposts : posts t.log = posts s.log)
    (hunsent : t.unsent = s.unsent) : InStep t where
  flag := hflag
  taken := by
    rw [htaken, hposts, hunsent]
    exact hs.taken

/-- Of the events that end a pass, only a shutdown can succeed. -/
theorem ended_succeeds (he : e.endsAttempt = true) (hok : e.succeeds = true) :
    e = .shutdown true := by
  cases e with
  | shutdown ok => exact congrArg Event.shutdown hok
  | connect ok =>
      cases ok with
      | true => cases he
      | false => cases hok
  | write ok =>
      cases ok with
      | true => cases he
      | false => cases hok
  | read status =>
      cases status with
      | some status => cases he
      | none => cases hok
  | _ => cases he

theorem shutdown_pc {ok : Bool} (hstep : step s (.shutdown ok) = some t) : s.pc = .shutdown := by
  cases hpc : s.pc with
  | shutdown => rfl
  | _ =>
      simp only [HttpSink.step, hpc] at hstep
      cases hstep

theorem InStep.step (c : Consistent s) (hs : InStep s) (hok : e.succeeds = true)
    (hstep : step s e = some t) : InStep t := by
  cases step_sound hstep with
  | packetHandler => exact hs.move hs.flag rfl rfl rfl
  | stop => exact hs.move hs.flag rfl rfl rfl
  | enter hpc =>
      refine hs.move hs.flag rfl rfl ?_
      rw [State.unsent, State.unsent, unsent_exitTest, hpc]
      rfl
  | pass hpc => exact hs.beginPass hpc
  | connected hpc =>
      refine hs.move hs.flag rfl rfl ((unsent_forTest c 0).trans ?_)
      rw [State.unsent, hpc]
      rfl
  | posted i p hpc hp =>
      have hi := c.index
      rw [hpc] at hi
      rw [← batch_getElem? hi] at hp
      have hrest : s.unsent = p :: s.batch.drop (i + 1) := by
        obtain ⟨hlt, rfl⟩ := List.getElem?_eq_some_iff.mp hp
        rw [State.unsent, hpc]
        exact List.drop_eq_getElem_cons hlt
      refine ⟨hs.flag, hs.taken.trans ?_⟩
      rw [hrest, posts_post, List.append_assoc]
      rfl
  | answered i p status hpc _ =>
      have hflag : (status == 200) = true := by simpa [Event.succeeds] using hok
      refine hs.move hflag rfl (posts_answer _ _ _) ((unsent_forTest c (i + 1)).trans ?_)
      rw [State.unsent, hpc]
      rfl
  | writeThrew => cases hok
  | ended e _ he _ =>
      obtain rfl := ended_succeeds he hok
      refine hs.move hs.flag rfl rfl ?_
      rw [State.unsent, State.unsent, shutdown_pc hstep]
      rfl
  | wake hpc =>
      refine hs.move hs.flag rfl rfl ?_
      rw [State.unsent, State.unsent, unsent_exitTest, hpc]
      rfl

/-- In every run the packets at their first POST are a subsequence of the
accepted ones.  In a run without exceptions whose answers are all 200, the
accepted packets are those posted, each once, then the rest of the batch, then
those in the FIFO. -/
theorem keepsOrder (run : Run h s) :
    (firstPosts s.log).Sublist s.accepted ∧
      ((∀ p ∈ h, p.2.succeeds = true) →
        s.accepted = posts s.log ++ s.unsent ++ s.fifo.queue ∧ s.accepted.Nodup) := by
  refine ⟨run.firstPosts_sublist, fun hok => ?_⟩
  obtain ⟨c, hs⟩ := run.invariant_of (P := fun s => Consistent s ∧ InStep s)
    (C := fun _ e => e.succeeds = true) ⟨consistent_initial, rfl, rfl⟩
    (fun hs hok hstep => ⟨hs.1.step hstep, hs.2.step hs.1 hok hstep⟩) hok
  rw [← hs.taken]
  exact ⟨c.conserve, c.inOrder.nodup⟩

/-- Two packets in one batch, the first of them posted. -/
theorem keepsOrder_onePosted :
    ∃ r, Transition.exec step initial
        [.enter, .packetHandler ⟨0, ['a']⟩, .packetHandler ⟨0, ['b']⟩, .pass, .connect true,
          .write true, .read (some 200)] = some r ∧
      posts r.2.log = [⟨0, ⟨0, ['a']⟩⟩] ∧ (∀ p ∈ r.1, p.2.succeeds = true) ∧
      ((firstPosts r.2.log).Sublist r.2.accepted ∧
        ((∀ p ∈ r.1, p.2.succeeds = true) →
          r.2.accepted = posts r.2.log ++ r.2.unsent ++ r.2.fifo.queue ∧ r.2.accepted.Nodup)) := by
  obtain ⟨r, hr, hposts, hok⟩ :
      ∃ r, Transition.exec step initial
          [.enter, .packetHandler ⟨0, ['a']⟩, .packetHandler ⟨0, ['b']⟩, .pass, .connect true,
            .write true, .read (some 200)] = some r ∧
        posts r.2.log = [⟨0, ⟨0, ['a']⟩⟩] ∧ r.1.all (fun p => p.2.succeeds) = true :=
    ⟨_, rfl, rfl, rfl⟩
  exact ⟨r, hr, hposts, List.all_eq_true.mp hok, keepsOrder (Transition.exec_run hr)⟩

end HttpSink

end GsSDR
