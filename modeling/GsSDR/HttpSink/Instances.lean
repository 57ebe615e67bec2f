import GsSDR.HttpSink.Invariant
import GsSDR.Lib.Latch

/-!
# Several HTTP sinks in one process

Every sink posts to a server and a target of its own, and has its own worker.
The FIFO and the exit flag are static: every constructor empties the one and
clears the other, every `packet_handler` writes to the one FIFO, and every worker
reads from it and tests the one flag.

So a record is posted by the worker that reads it first, a record in the FIFO is
lost when another sink is constructed, and a worker leaves its loop when any sink
has been stopped last (`separate`).

`queuedBy` is no variable of the program: it says which sink has queued each
packet.
-/

namespace GsSDR

namespace HttpSink

/-- `m_ServerName`, `m_ServerPort` and `m_ServerTarget`. -/
structure Destination where
  serverName : List Char
  serverPort : List Char
  serverTarget : List Char
deriving DecidableEq, Repr

/-- A sink and its worker. -/
structure Instance where
  destination : Destination
  worker : State

/-- The sinks in the order of their construction, and what they share. -/
structure Instances where
  sinks : List Instance
  fifo : FifoBuffer Packet
  exitRequested : Bool
  /-- The packets that the FIFO has accepted. -/
  accepted : List Packet
  /-- The sink whose `packet_handler` has queued each of them. -/
  queuedBy : List Nat

/-- What happens next in the process. -/
inductive Call where
  | construct (destination : Destination)
  /-- A call of `packet_handler`, or of the worker. -/
  | sink (i : Nat) (e : Event)
  /-- `stop`, or the destructor. -/
  | stop (i : Nat)
deriving DecidableEq, Repr

theorem fifoSize_pos : 1 ≤ fifoSize := by decide

theorem fifoSize_lt : fifoSize < 2 ^ 31 := by decide

namespace Instances

/-- The static variables before any sink is constructed. -/
def empty : Instances where
  sinks := []
  fifo := .changeSize 16 (by decide) (by decide)
  exitRequested := false
  accepted := []
  queuedBy := []

/-- `http_transfer_sink_impl::http_transfer_sink_impl`. -/
def construct (x : Instances) (destination : Destination) : Instances :=
  { x with
    sinks := x.sinks ++ [⟨destination, initial⟩]
    fifo := .changeSize fifoSize fifoSize_pos fifoSize_lt
    exitRequested := false }

/-- A sink with the static variables. -/
def view (x : Instances) (a : Instance) : State :=
  { a.worker with fifo := x.fifo, exitRequested := x.exitRequested, accepted := x.accepted }

/-- The process behind a step of a sink. -/
def update (x : Instances) (i : Nat) (t : State) : Instances where
  sinks := x.sinks.modify i fun a => { a with worker := t }
  fifo := t.fifo
  exitRequested := x.exitRequested
  accepted := t.accepted
  queuedBy := x.queuedBy ++ List.replicate (t.accepted.length - x.accepted.length) i

/-- One event of the process. -/
def step (x : Instances) (c : Call) : Option Instances :=
  match c with
  | .construct destination => some (x.construct destination)
  | .sink i e =>
      -- the flag is set by `stop` only
      if e = .threadTransferDeInit then none
      else (x.sinks[i]?).bind fun a => (HttpSink.step (x.view a) e).map (x.update i)
  | .stop i => if i < x.sinks.length then some { x with exitRequested := true } else none

/-- The runs of a process. -/
abbrev Run (h : List (Instances × Call)) (x : Instances) : Prop :=
  Transition.Run step empty h x

end Instances

/-- The requests that a worker has sent. -/
def Instance.posts (a : Instance) : List (Destination × Packet) :=
  a.worker.log.filterMap fun
    | .post p => some (a.destination, p)
    | .answer _ _ => none

def Call.isStop : Call → Bool
  | .stop _ => true
  | _ => false

def Call.isConstruct : Call → Bool
  | .construct _ => true
  | _ => false

/-- The worker tests the exit flag. -/
def Event.exitTests : Event → Bool
  | .enter | .wake => true
  | _ => false

/-! ## What the sinks do to each other -/

/-- A packet is posted only by the worker of the sink that has queued it, and to
its server and target. -/
def OwnPosts (x : Instances) : Prop :=
  ∀ (i j : Nat) (a b : Instance) (r : Destination × Packet), x.sinks[i]? = some a →
    x.sinks[j]? = some b → x.queuedBy[r.2.seq]? = some i → r ∈ b.posts →
    j = i ∧ r.1 = a.destination

/-- A constructor discards no queued packet. -/
def Keeps (x : Instances) (c : Call) : Prop :=
  ∀ d y, c = .construct d → x.step c = some y → ∀ p ∈ x.fifo.queue, p ∈ y.fifo.queue

/-- A worker leaves its loop only when its sink has been stopped, and then it does
so at the next test. -/
def LeavesAlone (calls : List Call) (x : Instances) (c : Call) : Prop :=
  ∀ (i : Nat) (e : Event) (a b : Instance) (y : Instances), c = .sink i e →
    x.sinks[i]? = some a → x.step c = some y → y.sinks[i]? = some b →
    (a.worker.pc ≠ .returned → b.worker.pc = .returned → Call.stop i ∈ calls) ∧
      (e.exitTests = true → Call.stop i ∈ calls → b.worker.pc = .returned)

/-- A sink has been stopped, and none has been constructed since. -/
def StopInForce (calls : List Call) : Prop :=
  Transition.Latched Call.isStop Call.isConstruct calls

/-- What a worker reads from the FIFO has been queued by its own sink. -/
def ReadsOwn (x : Instances) (c : Call) : Prop :=
  ∀ (i : Nat) (a : Instance), c = .sink i .pass → x.sinks[i]? = some a →
    a.worker.dataSentSuccess = true →
    ∀ p ∈ x.fifo.queue.take writeBufferSize, x.queuedBy[p.seq]? = some i

/-- A sink is constructed only while the FIFO is empty. -/
def ConstructsEmpty (x : Instances) (c : Call) : Prop :=
  ∀ d, c = .construct d → x.fifo.queue = []

/-- Where a worker tests the flag, a stop is in force exactly if its sink has
been stopped. -/
def OwnStop (calls : List Call) (c : Call) : Prop :=
  ∀ i e, c = .sink i e → e.exitTests = true → (StopInForce calls ↔ Call.stop i ∈ calls)

variable {h : List (Instances × Call)} {x y : Instances} {c : Call} {calls : List Call} {a b : Instance}
  {i j : Nat} {e : Event} {s t : State} {queuedBy : List Nat}

/-! ## One worker -/

/-- What a worker holds and has posted has been queued by this sink. -/
structure Own (i : Nat) (queuedBy : List Nat) (s : State) : Prop where
  batch : ∀ p ∈ s.batch, queuedBy[p.seq]? = some i
  index : s.pc.InBatch s.niutputItemsReal
  posts : ∀ p, .post p ∈ s.log → queuedBy[p.seq]? = some i

theorem own_initial (i : Nat) (queuedBy : List Nat) : Own i queuedBy initial where
  batch := by
    intro p hp
    cases hp
  index := trivial
  posts := by
    intro p hp
    cases hp

theorem Own.mono (ho : Own i queuedBy s) (more : List Nat) : Own i (queuedBy ++ more) s := by
  have hkept : ∀ {n : Nat}, queuedBy[n]? = some i → (queuedBy ++ more)[n]? = some i := by
    intro n hn
    rw [List.getElem?_append_left (List.getElem?_eq_some_iff.mp hn).1]
    exact hn
  exact ⟨fun p hp => hkept (ho.batch p hp), ho.index, fun p hp => hkept (ho.posts p hp)⟩

/-- A move of the worker that sends nothing. -/
theorem Own.move (ho : Own i queuedBy s) (hbatch : t.batch = s.batch) (hlog : t.log = s.log)
    (hindex : t.pc.InBatch t.niutputItemsReal) : Own i queuedBy t where
  batch := by
    rw [hbatch]
    exact ho.batch
  index := hindex
  posts := by
    rw [hlog]
    exact ho.posts

/-- One that posts a packet of the batch. -/
theorem Own.post {k : Nat} {p : Packet} (ho : Own i queuedBy s) (hpc : s.pc = .write k)
    (hp : s.bufferWriteStorage[k]? = some p) (hbatch : t.batch = s.batch)
    (hlog : t.log = s.log ++ [.post p]) (hindex : t.pc.InBatch t.niutputItemsReal) :
    Own i queuedBy t where
  batch := by
    rw [hbatch]
    exact ho.batch
  index := hindex
  posts := by
    intro q hq
    rw [hlog] at hq
    rcases List.mem_append.mp hq with hq | hq
    · exact ho.posts q hq
    · cases List.mem_singleton.mp hq
      have hk := ho.index
      rw [hpc] at hk
      rw [← batch_getElem? hk] at hp
      exact ho.batch p (List.mem_of_getElem? hp)

theorem beginPass_inBatch (s : State) :
    (beginPass s).pc.InBatch (beginPass s).niutputItemsReal := by
  rcases beginPass_pc s with hpc | hpc
  · rw [hpc]
    trivial
  · rw [hpc]
    trivial

/-- A step keeps that if a read of the FIFO takes packets of this sink only. -/
theorem Own.step (ho : Own i queuedBy s) (hstep : HttpSink.step s e = some t)
    (hreads : e = .pass → s.dataSentSuccess = true →
      ∀ p ∈ s.fifo.queue.take writeBufferSize, queuedBy[p.seq]? = some i) :
    Own i queuedBy t := by
  cases step_sound hstep with
  | packetHandler storage => exact ho.move rfl rfl ho.index
  | stop => exact ho.move rfl rfl ho.index
  | enter _ => exact ho.move rfl rfl (exitTest_inBatch s _)
  | pass _ =>
      cases hflag : s.dataSentSuccess with
      | true =>
          refine ⟨?_, beginPass_inBatch s, ?_⟩
          · rw [(beginPass_batch hflag).1]
            exact hreads rfl hflag
          · rw [beginPass_log]
            exact ho.posts
      | false =>
          exact ho.move (beginPass_retry hflag).1 (beginPass_log s) (beginPass_inBatch s)
  | connected _ => exact ho.move rfl rfl (forTest_inBatch s 0)
  | posted k p hpc hp =>
      have hk := ho.index
      rw [hpc] at hk
      exact ho.post hpc hp rfl rfl hk
  | answered k p status _ _ =>
      refine ⟨ho.batch, forTest_inBatch s (k + 1), fun q hq => ?_⟩
      rcases List.mem_append.mp hq with hq | hq
      · exact ho.posts q hq
      · cases List.mem_singleton.mp hq
  | writeThrew k p hpc hp => exact ho.post hpc hp rfl rfl trivial
  | ended _ _ _ => exact ho.move rfl rfl trivial
  | wake _ => exact ho.move rfl rfl (exitTest_inBatch s _)

/-- A worker leaves its loop at a test of the set flag, and nowhere else. -/
theorem returned_iff (hstep : HttpSink.step s e = some t) (hpc : s.pc ≠ .returned) :
    t.pc = .returned ↔ e.exitTests = true ∧ s.exitRequested = true := by
  have hforTest : ∀ k, forTest s k ≠ .returned := by
    intro k
    rw [forTest]
    split
    next => simp
    next => simp
  have hexitTest : exitTest s = .returned ↔ s.exitRequested = true := by
    rw [exitTest]
    split
    next hexit => exact iff_of_true rfl hexit
    next hexit => exact iff_of_false (by simp) hexit
  cases step_sound hstep with
  | packetHandler storage => exact iff_of_false hpc (by simp [Event.exitTests])
  | stop => exact iff_of_false hpc (by simp [Event.exitTests])
  | enter _ => exact hexitTest.trans (by simp [Event.exitTests])
  | pass _ =>
      refine iff_of_false ?_ (by simp [Event.exitTests])
      rcases beginPass_pc s with hnext | hnext
      · simp [hnext]
      · simp [hnext]
  | connected _ => exact iff_of_false (hforTest 0) (by simp [Event.exitTests])
  | posted k p _ _ => exact iff_of_false (by simp) (by simp [Event.exitTests])
  | answered k p status _ _ => exact iff_of_false (hforTest (k + 1)) (by simp [Event.exitTests])
  | writeThrew k p _ _ => exact iff_of_false (by simp) (by simp [Event.exitTests])
  | ended _ _ hends _ =>
      refine iff_of_false (by simp) ?_
      rintro ⟨htests, _⟩
      cases e with
      | enter => cases hends
      | wake => cases hends
      | _ => cases htests
  | wake _ => exact hexitTest.trans (by simp [Event.exitTests])

theorem not_returned_of_exitTests (hstep : HttpSink.step s e = some t)
    (he : e.exitTests = true) : s.pc ≠ .returned := by
  intro hpc
  cases e with
  | enter => simp [HttpSink.step, hpc] at hstep
  | wake => simp [HttpSink.step, hpc] at hstep
  | _ => cases he

/-- The steps of a worker do not touch the flag. -/
theorem exitRequested_of_step (hstep : HttpSink.step s e = some t)
    (he : e ≠ .threadTransferDeInit) : t.exitRequested = s.exitRequested := by
  cases step_sound hstep with
  | stop => exact absurd rfl he
  | pass _ =>
      rw [beginPass]
      split
      next => rfl
      next => rfl
  | _ => rfl

/-! ## All workers -/

/-- The workers of all sinks hold and have posted their own packets. -/
def AllOwn (x : Instances) : Prop :=
  ∀ (i : Nat) (a : Instance), x.sinks[i]? = some a → Own i x.queuedBy a.worker

theorem ownPosts_of_allOwn (hx : AllOwn x) : OwnPosts x := by
  intro i j a b r ha hb hr hpost
  obtain ⟨m, hm, hsome⟩ := List.mem_filterMap.mp hpost
  cases m with
  | post p =>
      cases hsome
      cases Option.some.inj (hr.symm.trans ((hx j b hb).posts p hm))
      cases ha.symm.trans hb
      exact ⟨rfl, rfl⟩
  | answer p status => cases hsome

/-- The sinks behind a step of one of them. -/
theorem Instances.update_getElem? (t : State) :
    (x.update i t).sinks[j]? =
      (x.sinks[j]?).map fun a => if i = j then { a with worker := t } else a := by
  rw [Instances.update, List.getElem?_modify]
  rfl

theorem Instances.step_sink (hstep : x.step (.sink i e) = some y) :
    ∃ a t, x.sinks[i]? = some a ∧ HttpSink.step (x.view a) e = some t ∧ y = x.update i t := by
  simp only [Instances.step] at hstep
  split at hstep
  next => cases hstep
  next =>
    obtain ⟨a, ha, hmap⟩ := Option.bind_eq_some_iff.mp hstep
    obtain ⟨t, ht, rfl⟩ := Option.map_eq_some_iff.mp hmap
    exact ⟨a, t, ha, ht, rfl⟩

theorem Instances.step_stop (hstep : x.step (.stop i) = some y) :
    i < x.sinks.length ∧ y = { x with exitRequested := true } := by
  simp only [Instances.step] at hstep
  split at hstep
  next hi =>
    cases hstep
    exact ⟨hi, rfl⟩
  next => cases hstep

/-- Behind a step, the sink sees what the step has left. -/
theorem Instances.view_update (hstep : HttpSink.step (x.view a) e = some t)
    (he : e ≠ .threadTransferDeInit) : (x.update i t).view { a with worker := t } = t := by
  show { t with exitRequested := x.exitRequested } = t
  rw [show x.exitRequested = t.exitRequested from (exitRequested_of_step hstep he).symm]

theorem AllOwn.step (hx : AllOwn x) (hreads : ReadsOwn x c) (hstep : x.step c = some y) :
    AllOwn y := by
  cases c with
  | construct destination =>
      cases hstep
      intro j b hb
      by_cases hj : j < x.sinks.length
      · rw [Instances.construct, List.getElem?_append_left hj] at hb
        exact hx j b hb
      · rw [Instances.construct, List.getElem?_append_right (Nat.le_of_not_lt hj)] at hb
        cases List.mem_singleton.mp (List.mem_of_getElem? hb)
        exact own_initial j _
  | sink i e =>
      obtain ⟨a, t, ha, ht, rfl⟩ := Instances.step_sink hstep
      intro j b hb
      rw [Instances.update_getElem?] at hb
      obtain ⟨d, hd, rfl⟩ := Option.map_eq_some_iff.mp hb
      split
      next hij =>
        subst hij
        cases ha.symm.trans hd
        have hview : Own i x.queuedBy (x.view a) :=
          ⟨(hx i a ha).batch, (hx i a ha).index, (hx i a ha).posts⟩
        refine (hview.step ht ?_).mono _
        rintro rfl hflag
        exact hreads i a rfl ha hflag
      next => exact (hx j d hd).mono _
  | stop i =>
      obtain ⟨_, rfl⟩ := Instances.step_stop hstep
      exact hx

theorem allOwn_empty : AllOwn Instances.empty := by
  intro i a ha
  cases ha

/-! ## The static variables -/

/-- A constructor keeps the queued packets exactly if there are none. -/
theorem keeps_iff (hstep : x.step c = some y) : Keeps x c ↔ ConstructsEmpty x c := by
  constructor
  · rintro hkeeps d rfl
    refine List.eq_nil_iff_forall_not_mem.mpr fun p hp => ?_
    have hkept := hkeeps d _ rfl rfl p hp
    cases hkept
  · rintro hempty d z rfl _ p hp
    rw [hempty d rfl] at hp
    cases hp

/-- The exit flag is set exactly if a stop is in force. -/
theorem Instances.exitRequested_iff (run : Instances.Run h x) :
    x.exitRequested = true ↔ StopInForce (h.map Prod.snd) := by
  refine run.latch (f := Instances.exitRequested) rfl ?_
  intro x c y hstep
  cases c with
  | construct destination =>
      cases hstep
      rfl
  | sink i e =>
      obtain ⟨a, t, _, _, rfl⟩ := Instances.step_sink hstep
      rfl
  | stop i =>
      obtain ⟨_, rfl⟩ := Instances.step_stop hstep
      rfl

/-- A worker leaves its loop for its own sink alone exactly if no other stop is
in force at its tests, and its own still is. -/
theorem leavesAlone_iff (hstop : x.exitRequested = true ↔ StopInForce calls)
    (hstep : x.step c = some y) : LeavesAlone calls x c ↔ OwnStop calls c := by
  constructor
  · rintro hleaves i e rfl he
    obtain ⟨a, t, ha, ht, rfl⟩ := Instances.step_sink hstep
    have hpc : (x.view a).pc ≠ .returned := not_returned_of_exitTests ht he
    have hreturned := returned_iff ht hpc
    have hb : (x.update i t).sinks[i]? = some { a with worker := t } := by
      rw [Instances.update_getElem?, ha, Option.map_some, if_pos rfl]
    obtain ⟨honly, hthen⟩ := hleaves i e a _ _ rfl ha hstep hb
    rw [← hstop]
    constructor
    · intro hexit
      exact honly hpc (hreturned.mpr ⟨he, hexit⟩)
    · intro hown
      exact (hreturned.mp (hthen he hown)).2
  · rintro hown i e a b z rfl ha hz hb
    obtain ⟨a', t, ha', ht, rfl⟩ := Instances.step_sink hz
    cases ha.symm.trans ha'
    rw [Instances.update_getElem?, ha, Option.map_some, if_pos rfl] at hb
    cases hb
    constructor
    · intro hpc hleft
      obtain ⟨he, hexit⟩ := (returned_iff ht hpc).mp hleft
      exact (hown i e rfl he).mp (hstop.mp hexit)
    · intro he hcalled
      have hexit := hstop.mpr ((hown i e rfl he).mpr hcalled)
      exact (returned_iff ht (not_returned_of_exitTests ht he)).mpr ⟨he, hexit⟩

/-! ## One sink -/

theorem Instances.length_le (hstep : x.step c = some y) : x.sinks.length ≤ y.sinks.length := by
  cases c with
  | construct destination =>
      cases hstep
      show _ ≤ (x.sinks ++ [_]).length
      rw [List.length_append]
      exact Nat.le_add_right _ _
  | sink i e =>
      obtain ⟨a, t, _, _, rfl⟩ := Instances.step_sink hstep
      exact Nat.le_of_eq (List.length_modify ..).symm
  | stop i =>
      obtain ⟨_, rfl⟩ := Instances.step_stop hstep
      exact Nat.le_refl _

/-- A sink that is the only one runs as the worker model says. -/
theorem Instances.single (run : Instances.Run h x) (hone : x.sinks.length ≤ 1) :
    (x.sinks = [] → x.accepted = []) ∧
      ∀ a, x.sinks = [a] → ∃ k, HttpSink.Run k (x.view a) := by
  induction run with
  | nil =>
      refine ⟨fun _ => rfl, fun a ha => ?_⟩
      cases ha
  | @snoc h x y c prev hstep ih =>
      obtain ⟨hnone, hrun⟩ := ih (Nat.le_trans (Instances.length_le hstep) hone)
      cases c with
      | construct destination =>
          cases hstep
          have hsinks : x.sinks = [] := by
            change (x.sinks ++ [_]).length ≤ 1 at hone
            rw [List.length_append, List.length_singleton] at hone
            exact List.eq_nil_of_length_eq_zero (by omega)
          refine ⟨fun hempty => absurd hempty (List.concat_ne_nil _ _), fun a ha => ⟨[], ?_⟩⟩
          rw [Instances.construct, hsinks] at ha
          cases ha
          rw [Instances.view, show (x.construct destination).accepted = [] from hnone hsinks]
          exact .nil
      | sink i e =>
          have hne : e ≠ .threadTransferDeInit := by
            rintro rfl
            cases hstep
          obtain ⟨a, t, ha, ht, rfl⟩ := Instances.step_sink hstep
          have hsinks : x.sinks = [a] := by
            rw [Instances.update, List.length_modify] at hone
            obtain ⟨b, hb⟩ := List.length_eq_one_iff.mp
              (Nat.le_antisymm hone (List.length_pos_of_mem (List.mem_of_getElem? ha)))
            have hmem := List.mem_of_getElem? ha
            rw [hb, List.mem_singleton] at hmem
            rw [hb, hmem]
          have hi : i = 0 := by
            rw [hsinks] at ha
            exact Nat.lt_one_iff.mp (List.getElem?_eq_some_iff.mp ha).1
          have hupdate : (x.update i t).sinks = [{ a with worker := t }] := by
            rw [Instances.update, hsinks, hi]
            rfl
          refine ⟨fun hempty => ?_, fun b hb => ?_⟩
          · rw [hupdate] at hempty
            cases hempty
          · rw [hupdate] at hb
            cases hb
            obtain ⟨k, hk⟩ := hrun a hsinks
            rw [Instances.view_update ht hne]
            exact ⟨_, hk.snoc ht⟩
      | stop i =>
          obtain ⟨_, rfl⟩ := Instances.step_stop hstep
          refine ⟨hnone, fun a ha => ?_⟩
          obtain ⟨k, hk⟩ := hrun a ha
          exact ⟨_, hk.snoc (e := .threadTransferDeInit) rfl⟩

end HttpSink

end GsSDR
