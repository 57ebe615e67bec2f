import GsSDR.HttpSink.Instances
import GsSDR.HttpSink.Resend

/-!
# Whether the sinks of a process are separate

Three things keep the sinks of a process apart: every worker reads only what its
own sink has queued, no sink is constructed while something is queued, and no
worker tests the flag while it stands for another sink.  Each of them is exactly
what is needed (`separate`).  Behind a read of a foreign packet the worker may go
on and post it (`foreign_posted`).
-/

namespace GsSDR

namespace HttpSink

variable {h : List (Instances × Call)} {x y : Instances} {c : Call} {a b : Instance} {i j : Nat}
  {e : Event} {s t : State}

/-! ## A foreign packet is posted -/

/-- The record of who has queued what covers the packets in the FIFO. -/
structure Attributed (x : Instances) : Prop where
  length : x.queuedBy.length = x.accepted.length
  queue : ∀ p ∈ x.fifo.queue, p.seq < x.queuedBy.length
  sinks : ∀ k ∈ x.queuedBy, k < x.sinks.length

/-- What a step of a sink does to the FIFO. -/
theorem step_fifo (hstep : HttpSink.step s e = some t) :
    (t.accepted = s.accepted ∧ ∀ p ∈ t.fifo.queue, p ∈ s.fifo.queue) ∨
      ∃ p : Packet, p.seq = s.accepted.length ∧ t.accepted = s.accepted ++ [p] ∧
        t.fifo.queue = s.fifo.queue ++ [p] := by
  cases step_sound hstep with
  | packetHandler storage =>
      rcases s.fifo.write_singleton ⟨s.accepted.length, storage⟩ with ⟨hone, hqueue⟩ | ⟨hzero, hqueue⟩
      · exact .inr ⟨_, rfl, if_pos hone, hqueue⟩
      · refine .inl ⟨if_neg (by rw [hzero]; simp), fun p hp => ?_⟩
        exact hqueue ▸ hp
  | pass _ =>
      refine .inl ?_
      cases hflag : s.dataSentSuccess with
      | true =>
          refine ⟨?_, fun p hp => ?_⟩
          · simp [beginPass, hflag]
          · rw [(beginPass_batch hflag).2.2] at hp
            exact List.mem_of_mem_drop hp
      | false => simp [beginPass, hflag]
  | stop => exact .inl ⟨rfl, fun _ hp => hp⟩
  | enter _ => exact .inl ⟨rfl, fun _ hp => hp⟩
  | connected _ => exact .inl ⟨rfl, fun _ hp => hp⟩
  | posted k p _ _ => exact .inl ⟨rfl, fun _ hp => hp⟩
  | answered k p status _ _ => exact .inl ⟨rfl, fun _ hp => hp⟩
  | writeThrew k p _ _ => exact .inl ⟨rfl, fun _ hp => hp⟩
  | ended _ _ _ => exact .inl ⟨rfl, fun _ hp => hp⟩
  | wake _ => exact .inl ⟨rfl, fun _ hp => hp⟩

theorem attributed_empty : Attributed Instances.empty where
  length := rfl
  queue := by
    intro p hp
    cases hp
  sinks := by
    intro k hk
    cases hk

theorem Attributed.update (hx : Attributed x) (ha : x.sinks[i]? = some a)
    (hstep : HttpSink.step (x.view a) e = some t) : Attributed (x.update i t) := by
  have hi : i < x.sinks.length := (List.getElem?_eq_some_iff.mp ha).1
  have hlength : (x.update i t).sinks.length = x.sinks.length := List.length_modify ..
  rcases step_fifo hstep with ⟨haccepted, hqueue⟩ | ⟨p, hseq, haccepted, hqueue⟩
  · have hsame : (x.update i t).queuedBy = x.queuedBy := by
      show x.queuedBy ++ List.replicate (t.accepted.length - x.accepted.length) i = _
      rw [show t.accepted = x.accepted from haccepted, Nat.sub_self, List.replicate_zero,
        List.append_nil]
    constructor
    · rw [hsame, hx.length]
      exact congrArg List.length haccepted.symm
    · intro p hp
      rw [hsame]
      exact hx.queue p (hqueue p hp)
    · intro k hk
      rw [hsame] at hk
      rw [hlength]
      exact hx.sinks k hk
  · have hlast : (x.update i t).queuedBy = x.queuedBy ++ [i] := by
      show x.queuedBy ++ List.replicate (t.accepted.length - x.accepted.length) i = _
      rw [show t.accepted = x.accepted ++ [p] from haccepted, List.length_append,
        Nat.add_sub_cancel_left]
      rfl
    constructor
    · show _ = t.accepted.length
      rw [hlast, haccepted, List.length_append, List.length_append, hx.length]
      rfl
    · intro q hq
      rw [hlast, List.length_append, List.length_singleton]
      change q ∈ t.fifo.queue at hq
      rw [hqueue] at hq
      rcases List.mem_append.mp hq with hq | hq
      · exact Nat.lt_succ_of_lt (hx.queue q hq)
      · rw [List.mem_singleton.mp hq, hseq, hx.length]
        exact Nat.lt_succ_self _
    · intro k hk
      rw [hlast] at hk
      rw [hlength]
      rcases List.mem_append.mp hk with hk | hk
      · exact hx.sinks k hk
      · rw [List.mem_singleton.mp hk]
        exact hi

theorem Attributed.step (hx : Attributed x) (hstep : x.step c = some y) : Attributed y := by
  cases c with
  | construct destination =>
      cases hstep
      refine ⟨hx.length, fun p hp => ?_, fun k hk => ?_⟩
      · cases hp
      · show k < (x.sinks ++ [_]).length
        rw [List.length_append]
        exact Nat.lt_succ_of_lt (hx.sinks k hk)
  | sink i e =>
      obtain ⟨a, t, ha, ht, rfl⟩ := Instances.step_sink hstep
      exact hx.update ha ht
  | stop i =>
      obtain ⟨_, rfl⟩ := Instances.step_stop hstep
      exact ⟨hx.length, hx.queue, hx.sinks⟩

/-- What a worker can do alone, it can do in the process. -/
theorem worker_run {k : List (State × Event)} (run : Transition.Run HttpSink.step s k t)
    (hown : ∀ p ∈ k, p.2 ≠ .threadTransferDeInit) (ha : x.sinks[i]? = some a)
    (hs : x.view a = s) :
    ∃ h' z b, Transition.Run Instances.step x h' z ∧ z.sinks[i]? = some b ∧ z.view b = t ∧
      z.sinks.length = x.sinks.length ∧ ∃ more, z.queuedBy = x.queuedBy ++ more := by
  induction run with
  | nil => exact ⟨[], x, a, .nil, ha, hs, rfl, [], (List.append_nil _).symm⟩
  | @snoc k u t e _ hstep ih =>
      obtain ⟨h', z, b, hrun, hb, hview, hlength, more, hmore⟩ :=
        ih fun p hp => hown p (List.mem_append_left _ hp)
      have he : e ≠ .threadTransferDeInit :=
        hown (u, e) (List.mem_append_right _ (List.mem_singleton.mpr rfl))
      rw [← hview] at hstep
      have hsink : z.step (.sink i e) = some (z.update i t) := by
        rw [Instances.step, if_neg he, hb, Option.bind_some, hstep, Option.map_some]
      have hb' : (z.update i t).sinks[i]? = some { b with worker := t } := by
        rw [Instances.update_getElem?, hb, Option.map_some, if_pos rfl]
      refine ⟨_, _, _, hrun.snoc hsink, hb', Instances.view_update hstep he, ?_, ?_⟩
      · rw [← hlength]
        exact List.length_modify ..
      · refine ⟨more ++ List.replicate (t.accepted.length - z.accepted.length) i, ?_⟩
        rw [← List.append_assoc, ← hmore]
        rfl

/-- A read of the FIFO that takes a packet: the worker connects, and the packet is
in its place in the batch. -/
theorem beginPass_holds {k : Nat} {p : Packet} (hflag : s.dataSentSuccess = true)
    (hk : (s.fifo.queue.take writeBufferSize)[k]? = some p) :
    (beginPass s).pc = .connect ∧ k < (beginPass s).niutputItemsReal ∧
      (beginPass s).niutputItemsReal ≤ (beginPass s).bufferWriteStorage.length ∧
      (beginPass s).bufferWriteStorage[k]? = some p := by
  obtain ⟨hcount, hitems, _⟩ := s.fifo.read_spec writeBufferSize
  have hlength : (s.fifo.queue.take writeBufferSize).length = (s.fifo.read writeBufferSize).1 := by
    rw [hcount, List.length_take]
  have hlt : k < (s.fifo.read writeBufferSize).1 :=
    hlength ▸ (List.getElem?_eq_some_iff.mp hk).1
  have hpos : 0 < (s.fifo.read writeBufferSize).1 := Nat.lt_of_le_of_lt (Nat.zero_le k) hlt
  simp only [beginPass, hflag, if_true, if_pos hpos, hitems, true_and]
  refine ⟨hlt, ?_, ?_⟩
  · rw [List.length_append, hlength]
    exact Nat.le_add_right _ _
  · rw [List.getElem?_append_left (hlength ▸ hlt)]
    exact hk

/-- A worker that reads a foreign packet can go on and post it. -/
theorem foreign_posted (hx : Attributed x) (hstep : x.step (.sink i .pass) = some y)
    (hbad : ¬ ReadsOwn x (.sink i .pass)) :
    ∃ h' z, Transition.Run Instances.step y h' z ∧ ¬ OwnPosts z := by
  simp only [ReadsOwn, not_forall] at hbad
  obtain ⟨_, a, hcall, ha, hflag, p, hp, hforeign⟩ := hbad
  cases hcall
  obtain ⟨a', t, ha', ht, rfl⟩ := Instances.step_sink hstep
  cases ha.symm.trans ha'
  obtain ⟨k, hk⟩ := List.mem_iff_getElem?.mp hp
  have htake : t = beginPass (x.view a) := by
    cases step_sound ht with
    | pass _ => rfl
    | ended _ _ hends _ => cases hends
  obtain ⟨hconnect, hlt, hfits, hcell⟩ := beginPass_holds (s := x.view a) hflag hk
  rw [← htake] at hconnect hlt hfits hcell
  obtain ⟨ks, u, run, hown, hwriting, hbuf, _, _⟩ := reaches hconnect hfits hlt
  have hwrite : HttpSink.step u (.write true) =
      some { u with pc := .read k, log := u.log ++ [.post p] } := by
    simp [HttpSink.step, hwriting, hbuf, hcell]
  have hcalls : ∀ q ∈ ks ++ [(u, Event.write true)], q.2 ≠ .threadTransferDeInit := by
    intro q hq
    rcases List.mem_append.mp hq with hq | hq
    · exact hown q hq
    · rw [List.mem_singleton.mp hq]
      simp
  have ha'' : (x.update i t).sinks[i]? = some { a with worker := t } := by
    rw [Instances.update_getElem?, ha, Option.map_some, if_pos rfl]
  have hview : (x.update i t).view { a with worker := t } = t :=
    Instances.view_update ht (by simp)
  obtain ⟨h', z, b, hrun, hb, hend, hlength, more, hmore⟩ :=
    worker_run (run.snoc hwrite) hcalls ha'' hview
  refine ⟨h', z, hrun, fun hposts => ?_⟩
  have hseq : p.seq < x.queuedBy.length := hx.queue p (List.mem_of_mem_take hp)
  have howner : x.queuedBy[p.seq]? = some x.queuedBy[p.seq] := List.getElem?_eq_getElem hseq
  have howner' : z.queuedBy[p.seq]? = some x.queuedBy[p.seq] := by
    rw [hmore, Instances.update, List.append_assoc, List.getElem?_append_left hseq]
    exact howner
  have hsink : x.queuedBy[p.seq] < z.sinks.length := by
    rw [hlength, Instances.update, List.length_modify]
    exact hx.sinks _ (List.getElem_mem hseq)
  have hpost : (b.destination, p) ∈ b.posts := by
    refine List.mem_filterMap.mpr ⟨.post p, ?_, rfl⟩
    show Exchange.post p ∈ (z.view b).log
    rw [hend]
    exact List.mem_append_right _ (List.mem_singleton.mpr rfl)
  obtain ⟨hsame, _⟩ :=
    hposts _ i _ b (b.destination, p) (List.getElem?_eq_getElem hsink) hb howner' hpost
  rw [howner, ← hsame] at hforeign
  exact hforeign rfl

/-! ## Runs -/

/-- In every run of a process, packets are posted by the workers of their own
sinks as long as workers read only what their own sinks have queued, and after a
read of a foreign packet the run can go on to post it; a constructor keeps what
is queued exactly if nothing is; and a worker leaves its loop for its own sink
alone exactly if no other stop is in force at its tests, and its own still is. -/
theorem separate (run : Instances.Run h x) :
    ((∀ r ∈ h, ReadsOwn r.1 r.2) → (∀ r ∈ h, OwnPosts r.1) ∧ OwnPosts x) ∧
      (∀ c y, x.step c = some y → ¬ ReadsOwn x c →
        ∃ h' z, Transition.Run Instances.step y h' z ∧ ¬ OwnPosts z) ∧
      ∀ c y, x.step c = some y →
        (Keeps x c ↔ ConstructsEmpty x c) ∧
          (LeavesAlone (h.map Prod.snd) x c ↔ OwnStop (h.map Prod.snd) c) := by
  refine ⟨fun hreads => ?_, fun c y hstep hbad => ?_, fun c y hstep => ?_⟩
  · obtain ⟨hall, hend⟩ :=
      run.invariant_of_history (P := AllOwn) allOwn_empty AllOwn.step hreads
    exact ⟨fun r hr => ownPosts_of_allOwn (hall r hr), ownPosts_of_allOwn hend⟩
  · have hcall : ∃ i, c = .sink i .pass := by
      by_contra hnone
      exact hbad fun i a hc => absurd ⟨i, hc⟩ hnone
    obtain ⟨i, rfl⟩ := hcall
    have hx : Attributed x := Transition.Run.invariant attributed_empty Attributed.step run
    exact foreign_posted hx hstep hbad
  · exact ⟨keeps_iff hstep, leavesAlone_iff (Instances.exitRequested_iff run) hstep⟩

/-- Two servers. -/
def serverA : Destination := ⟨['a'], ['8', '0'], ['/']⟩

def serverB : Destination := ⟨['b'], ['8', '0'], ['/']⟩

/-- A sink posts its packet and is stopped, before the second one is
constructed. -/
theorem separate_oneAfterTheOther :
    ∃ r, Transition.exec Instances.step Instances.empty
        [.construct serverA, .sink 0 .enter, .sink 0 (.packetHandler ⟨0, ['x']⟩), .sink 0 .pass,
          .sink 0 (.connect true), .sink 0 (.write true), .sink 0 (.read (some 200)),
          .sink 0 (.shutdown true), .stop 0, .sink 0 .wake, .construct serverB] = some r ∧
      r.2.sinks.map Instance.posts = [[(serverA, ⟨0, ⟨0, ['x']⟩⟩)], []] ∧
      ((∀ u ∈ r.1, ReadsOwn u.1 u.2) → (∀ u ∈ r.1, OwnPosts u.1) ∧ OwnPosts r.2) ∧
      (∀ c y, r.2.step c = some y → ¬ ReadsOwn r.2 c →
        ∃ h' z, Transition.Run Instances.step y h' z ∧ ¬ OwnPosts z) ∧
      ∀ c y, r.2.step c = some y →
        (Keeps r.2 c ↔ ConstructsEmpty r.2 c) ∧
          (LeavesAlone (r.1.map Prod.snd) r.2 c ↔ OwnStop (r.1.map Prod.snd) c) := by
  obtain ⟨r, hr, hposts⟩ : ∃ r, Transition.exec Instances.step Instances.empty
      [.construct serverA, .sink 0 .enter, .sink 0 (.packetHandler ⟨0, ['x']⟩), .sink 0 .pass,
        .sink 0 (.connect true), .sink 0 (.write true), .sink 0 (.read (some 200)),
        .sink 0 (.shutdown true), .stop 0, .sink 0 .wake, .construct serverB] = some r ∧
      r.2.sinks.map Instance.posts = [[(serverA, ⟨0, ⟨0, ['x']⟩⟩)], []] := ⟨_, rfl, rfl⟩
  exact ⟨r, hr, hposts, separate (Transition.exec_run hr)⟩

/-- The first of two sinks queues a packet, and the worker of the second one
reads it. -/
theorem separate_fails_twoSinks : ¬ ∀ h x, Instances.Run h x → OwnPosts x := by
  intro hall
  obtain ⟨r, hr, a, b, ha, hb, howner, hposts⟩ :
      ∃ r, Transition.exec Instances.step Instances.empty
          [.construct serverA, .construct serverB, .sink 1 .enter,
            .sink 0 (.packetHandler ⟨0, ['x']⟩), .sink 1 .pass, .sink 1 (.connect true),
            .sink 1 (.write true)] = some r ∧
        ∃ a b, r.2.sinks[0]? = some a ∧ r.2.sinks[1]? = some b ∧ r.2.queuedBy[0]? = some 0 ∧
          b.posts = [(serverB, ⟨0, ⟨0, ['x']⟩⟩)] :=
    ⟨_, rfl, _, _, rfl, rfl, rfl, rfl⟩
  have hown := hall _ _ (Transition.exec_run hr) 0 1 a b (serverB, ⟨0, ⟨0, ['x']⟩⟩) ha hb howner
    (by rw [hposts]; exact List.mem_singleton.mpr rfl)
  cases hown.1

end HttpSink

end GsSDR
