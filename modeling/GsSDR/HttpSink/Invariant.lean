import GsSDR.HttpSink.Acceptance

/-!
# What every run of the HTTP sink keeps

`Consistent` ties the variables of the worker to the record of the run: the
packets read from the FIFO and those in it are the accepted ones in order, the
batch is the end of what has been read, the loop index counts the answers of
the pass, and `data_sent_success` is what the pass has been told last.
-/

namespace GsSDR

namespace HttpSink

/-- The server has accepted this packet. -/
def Answered (log : List Exchange) (p : Packet) : Prop := Exchange.answer p 200 ∈ log

/-- What the answers of a pass say: the last one decides, and a pass without an
answer says that its batch is new. -/
def verdict (fresh : Bool) (statuses : List Nat) : Bool :=
  match statuses.getLast? with
  | none => fresh
  | some status => status == 200

@[simp] theorem verdict_nil (fresh : Bool) : verdict fresh [] = fresh := rfl

@[simp] theorem verdict_concat (fresh : Bool) (statuses : List Nat) (status : Nat) :
    verdict fresh (statuses ++ [status]) = (status == 200) := by
  simp [verdict]

theorem verdict_eq_true {fresh : Bool} {statuses : List Nat} :
    verdict fresh statuses = true ↔
      statuses.getLast? = some 200 ∨ (statuses = [] ∧ fresh = true) := by
  cases hlast : statuses.getLast? with
  | none => simp [verdict, List.getLast?_eq_none_iff.mp hlast]
  | some status =>
      have hne : statuses ≠ [] := by
        rintro rfl
        cases hlast
      simp [verdict, hlast, hne]

/-- The number of answers that the worker has got in this pass, from where it
is. -/
def Pc.answers (pc : Pc) (items : Nat) : Nat :=
  match pc with
  | .write i | .read i => i
  | .shutdown => items
  | _ => 0

/-- The index of the loop is in the batch. -/
def Pc.InBatch (pc : Pc) (items : Nat) : Prop :=
  match pc with
  | .write i | .read i => i < items
  | _ => True

/-- The variables of the worker agree with the record of the run. -/
structure Consistent (s : State) : Prop where
  conserve : s.accepted = s.taken ++ s.fifo.queue
  seqs : s.accepted.map Packet.seq = List.range s.accepted.length
  fits : s.niutputItemsReal ≤ s.bufferWriteStorage.length
  suffix : s.batch <:+ s.taken
  index : s.pc.InBatch s.niutputItemsReal
  count : s.pc.sending = true → s.statuses.length = s.pc.answers s.niutputItemsReal
  flag : s.pc.sending = true → s.dataSentSuccess = verdict s.fresh s.statuses

namespace Consistent

variable {s : State}

theorem inOrder (c : Consistent s) : InOrder s.accepted s.taken s.fifo := ⟨c.conserve, c.seqs⟩

theorem taken_nodup (c : Consistent s) : s.taken.Nodup := c.inOrder.taken_nodup

theorem batch_subset (c : Consistent s) {p : Packet} (hp : p ∈ s.batch) : p ∈ s.taken :=
  c.suffix.subset hp

theorem batch_nodup (c : Consistent s) : s.batch.Nodup :=
  c.taken_nodup.sublist c.suffix.sublist

end Consistent

/-- The cell that the worker sends is the packet of the batch with its index. -/
theorem batch_getElem? {s : State} {i : Nat} (hi : i < s.niutputItemsReal) :
    s.batch[i]? = s.bufferWriteStorage[i]? := by
  rw [State.batch, List.getElem?_take_of_lt hi]

theorem consistent_initial : Consistent initial where
  conserve := rfl
  seqs := rfl
  fits := Nat.zero_le _
  suffix := List.suffix_refl _
  index := trivial
  count := by intro h; cases h
  flag := by intro h; cases h

/-- The variables that a move of the worker leaves alone. -/
theorem Consistent.move {s t : State} (c : Consistent s)
    (hfifo : t.fifo = s.fifo) (hacc : t.accepted = s.accepted) (htaken : t.taken = s.taken)
    (hbuf : t.bufferWriteStorage = s.bufferWriteStorage)
    (hitems : t.niutputItemsReal = s.niutputItemsReal)
    (index : t.pc.InBatch t.niutputItemsReal)
    (count : t.pc.sending = true → t.statuses.length = t.pc.answers t.niutputItemsReal)
    (flag : t.pc.sending = true → t.dataSentSuccess = verdict t.fresh t.statuses) :
    Consistent t where
  conserve := by rw [hacc, htaken, hfifo]; exact c.conserve
  seqs := by rw [hacc]; exact c.seqs
  fits := by rw [hitems, hbuf]; exact c.fits
  suffix := by rw [State.batch, hitems, hbuf, htaken]; exact c.suffix
  index := index
  count := count
  flag := flag

theorem forTest_inBatch (s : State) (i : Nat) : (forTest s i).InBatch s.niutputItemsReal := by
  rw [forTest]
  split
  next h => exact h
  next => trivial

/-- The loop test moves on to the next packet or out of the loop, and there the
index has counted the batch. -/
theorem forTest_answers (s : State) {i : Nat} (hi : i ≤ s.niutputItemsReal) :
    (forTest s i).answers s.niutputItemsReal = i := by
  rw [forTest]
  split
  next => rfl
  next h => exact Nat.le_antisymm (Nat.le_of_not_lt h) hi

theorem forTest_sending (s : State) (i : Nat) : (forTest s i).sending = true := by
  rw [forTest]
  split <;> rfl

theorem exitTest_not_sending (s : State) : (exitTest s).sending = false := by
  rw [exitTest]
  split <;> rfl

theorem exitTest_inBatch (s : State) (items : Nat) : (exitTest s).InBatch items := by
  rw [exitTest]
  split <;> trivial

theorem Consistent.packetHandler {s : State} (c : Consistent s) (storage : GrStorageWeb) :
    Consistent (packetHandler s storage) := by
  obtain ⟨hconserve, hseqs⟩ := c.inOrder.write storage
  exact ⟨hconserve, hseqs, c.fits, c.suffix, c.index, c.count, c.flag⟩

/-- What the FIFO read at the top of the loop puts into the batch. -/
theorem beginPass_batch {s : State} (hflag : s.dataSentSuccess = true) :
    (beginPass s).batch = s.fifo.queue.take writeBufferSize ∧
      (beginPass s).taken = s.taken ++ s.fifo.queue.take writeBufferSize ∧
      (beginPass s).fifo.queue = s.fifo.queue.drop writeBufferSize := by
  obtain ⟨hcount, hitems, hqueue⟩ := s.fifo.read_spec writeBufferSize
  have hlen : (s.fifo.read writeBufferSize).1 =
      (s.fifo.read writeBufferSize).2.1.length := by
    rw [hcount, hitems, List.length_take]
  refine ⟨?_, ?_, ?_⟩
  · simp only [beginPass, hflag, if_true, State.batch, hlen, List.take_left']
    exact hitems
  · simp only [beginPass, hflag, if_true, hitems]
  · simp only [beginPass, hflag, if_true, hqueue]

/-- A pass with the flag cleared keeps its batch. -/
theorem beginPass_retry {s : State} (hflag : s.dataSentSuccess = false) :
    (beginPass s).batch = s.batch ∧ (beginPass s).taken = s.taken := by
  simp [beginPass, hflag, State.batch]

/-- The top of the loop sends nothing. -/
theorem beginPass_log (s : State) : (beginPass s).log = s.log := by
  rw [beginPass]
  split
  next => rfl
  next => rfl

theorem beginPass_pc (s : State) :
    (beginPass s).pc = .connect ∨ (beginPass s).pc = .sleep := by
  rw [beginPass]
  split
  next => exact ite_eq_or_eq _ _ _
  next => exact ite_eq_or_eq _ _ _

theorem Consistent.beginPass {s : State} (c : Consistent s) : Consistent (beginPass s) := by
  cases hflag : s.dataSentSuccess with
  | true =>
      obtain ⟨hbatch, htaken, hqueue⟩ := beginPass_batch hflag
      obtain ⟨hcount, hitems, _⟩ := s.fifo.read_spec writeBufferSize
      refine ⟨?_, ?_, ?_, ?_, ?_, ?_, ?_⟩
      · rw [htaken, hqueue, List.append_assoc, List.take_append_drop]
        simp only [HttpSink.beginPass, hflag, if_true]
        exact c.conserve
      · simp only [HttpSink.beginPass, hflag, if_true]
        exact c.seqs
      · simp only [HttpSink.beginPass, hflag, if_true, List.length_append, hcount, hitems,
          List.length_take]
        omega
      · rw [hbatch, htaken]
        exact List.suffix_append _ _
      · simp only [HttpSink.beginPass, hflag, if_true]
        split <;> trivial
      · simp only [HttpSink.beginPass, hflag, if_true]
        split <;> simp [Pc.answers, Pc.sending]
      · simp [HttpSink.beginPass, hflag]
  | false =>
      have hretry : HttpSink.beginPass s =
          { s with
            pc := if 0 < s.niutputItemsReal then .connect else .sleep
            fresh := false
            statuses := [] } := by
        simp [HttpSink.beginPass, hflag]
      rw [hretry]
      refine c.move rfl rfl rfl rfl rfl ?_ (fun _ => ?_) (fun _ => hflag)
      · split <;> trivial
      · split <;> rfl

/-- Every step keeps the invariant. -/
theorem Consistent.step {s t : State} {e : Event} (c : Consistent s)
    (h : HttpSink.step s e = some t) : Consistent t := by
  cases step_sound h with
  | packetHandler storage => exact c.packetHandler storage
  | stop => exact c.move rfl rfl rfl rfl rfl c.index c.count c.flag
  | enter _ =>
      have hns := exitTest_not_sending s
      exact c.move rfl rfl rfl rfl rfl (exitTest_inBatch s _)
        (fun hs => absurd hs (by simp [hns])) (fun hs => absurd hs (by simp [hns]))
  | pass _ => exact c.beginPass
  | connected hpc =>
      have hs : s.pc.sending = true := by rw [hpc]; rfl
      refine c.move rfl rfl rfl rfl rfl (forTest_inBatch s 0) (fun _ => ?_) (fun _ => c.flag hs)
      rw [forTest_answers s (Nat.zero_le _), c.count hs, hpc]
      rfl
  | posted i p hpc _ =>
      have hs : s.pc.sending = true := by rw [hpc]; rfl
      have hcount := c.count hs
      have hindex := c.index
      rw [hpc] at hcount hindex
      exact c.move rfl rfl rfl rfl rfl hindex (fun _ => hcount) (fun _ => c.flag hs)
  | answered i p status hpc _ =>
      have hs : s.pc.sending = true := by rw [hpc]; rfl
      have hcount := c.count hs
      have hindex := c.index
      rw [hpc] at hcount hindex
      refine c.move rfl rfl rfl rfl rfl (forTest_inBatch s (i + 1)) (fun _ => ?_) (fun _ => ?_)
      · simp only [readAnswer, List.length_append, List.length_singleton]
        rw [forTest_answers s hindex, hcount]
        rfl
      · simp [readAnswer]
  | writeThrew i p _ _ =>
      exact c.move rfl rfl rfl rfl rfl trivial (fun hs => by cases hs) (fun hs => by cases hs)
  | ended _ _ _ =>
      exact c.move rfl rfl rfl rfl rfl trivial (fun hs => by cases hs) (fun hs => by cases hs)
  | wake _ =>
      have hns := exitTest_not_sending s
      exact c.move rfl rfl rfl rfl rfl (exitTest_inBatch s _)
        (fun hs => absurd hs (by simp [hns])) (fun hs => absurd hs (by simp [hns]))

/-- Every run keeps the invariant. -/
theorem Run.consistent {h : List (State × Event)} {s : State} (run : Run h s) : Consistent s :=
  Transition.Run.invariant consistent_initial Consistent.step run

end HttpSink

end GsSDR
