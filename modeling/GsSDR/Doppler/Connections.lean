import GsSDR.Doppler.Outstanding
import Mathlib.Data.List.Perm.Basic

/-!
# The connections of a run

The history of a run tells which sessions have been accepted and which have been
deleted.  Of the accepted ones the deleted ones and the live ones are all, with no
session among them twice (`Ledger`).  So `count` is exactly what has been accepted
and not deleted.

A session is deleted by the handler of its operation.  It has no other one, so
nothing is called for it any more, and it is not deleted again
(`connections_exact`).
-/

namespace GsSDR

namespace Doppler

variable {β : Type*} {lexicalCast : Cxx.Str → Option Int} {sourceType : SourceType}
  {correction : Int → β} {h : List (State β × Event)} {s t : State β} {e : Event} {c d : Client}
  {id : Nat} {op : Op}

/-- The live sessions. -/
def State.ids (s : State β) : List Nat := s.clients.map Client.id

/-- The session that a turn accepts. -/
def acceptedBy (s : State β) : Event → Option Nat
  | .accept true => some s.nextId
  | _ => none

/-- The session whose operation has failed. -/
def failed : Event → Option Nat
  | .read id none => some id
  | .write id false => some id
  | _ => none

/-- The session that a turn deletes.  With a stop requested the handlers return
before. -/
def deletedBy (s : State β) (e : Event) : Option Nat :=
  if s.exitRequested then none else failed e

/-- The sessions that a history has accepted. -/
def accepted (h : List (State β × Event)) : List Nat := h.filterMap fun p => acceptedBy p.1 p.2

/-- The sessions that a history has deleted. -/
def deleted (h : List (State β × Event)) : List Nat := h.filterMap fun p => deletedBy p.1 p.2

/-- What a run has accepted is what it has deleted and what is live. -/
structure Ledger (h : List (State β × Event)) (s : State β) : Prop where
  perm : (deleted h ++ s.ids).Perm (accepted h)
  once : (accepted h).Nodup
  fresh : ∀ id ∈ accepted h, id < s.nextId

/-! ## One turn -/

theorem deletedBy_exit (hexit : s.exitRequested = true) (e : Event) : deletedBy s e = none :=
  if_pos hexit

theorem deletedBy_run (hno : s.exitRequested = false) (e : Event) : deletedBy s e = failed e := by
  rw [deletedBy, hno]
  exact if_neg Bool.false_ne_true

theorem deletedBy_none (hfailed : failed e = none) : deletedBy s e = none := by
  rw [deletedBy, hfailed, ite_self]

/-- A turn accepts a session, or it deletes a live one, or the live ones stay. -/
theorem connection_cases
    (hstep : step lexicalCast sourceType correction s e = some t) :
    (acceptedBy s e = some s.nextId ∧ deletedBy s e = none ∧
      t.ids = s.ids ++ [s.nextId] ∧ t.nextId = s.nextId + 1) ∨
    (∃ c ∈ s.clients, acceptedBy s e = none ∧ deletedBy s e = some c.id ∧
      t.ids = s.ids.filter (fun id => id ≠ c.id) ∧ t.nextId = s.nextId) ∨
    (acceptedBy s e = none ∧ deletedBy s e = none ∧ t.ids = s.ids ∧ t.nextId = s.nextId) := by
  have hrelease : ∀ (u : State β) (c : Client),
      (u.release c).ids = u.ids.filter (fun id => id ≠ c.id) := by
    intro u c
    show (u.clients.filter _).map Client.id = (u.clients.map Client.id).filter _
    rw [List.filter_map]
    rfl
  cases step_sound hstep with
  | @accepted ok =>
      cases ok with
      | false =>
          exact .inr (.inr ⟨rfl, deletedBy_none rfl, rfl, rfl⟩)
      | true =>
          refine .inl ⟨rfl, deletedBy_none rfl, ?_, rfl⟩
          show (State.setClient _ _).clients.map Client.id = _
          rw [setClient_ids]
          show (s.clients ++ [_]).map Client.id = _
          rw [List.map_append]
          rfl
  | @read c result _ hc _ =>
      rcases handleRead_cases (s.complete c.id .read) c result with
        ⟨hexit, d, _, hread⟩ | ⟨hno, rfl, hread⟩ | ⟨hno, text, rfl, hread | hread⟩
      · rw [hread]
        exact .inr (.inr ⟨rfl, deletedBy_exit (s := s) hexit _, setClient_ids _ d, rfl⟩)
      · rw [hread]
        exact .inr (.inl ⟨c, hc, rfl, deletedBy_run (s := s) hno _, hrelease _ c, rfl⟩)
      · rw [hread]
        exact .inr (.inr ⟨rfl, deletedBy_run (s := s) hno _, setClient_ids _ _, rfl⟩)
      · rw [hread]
        exact .inr (.inr ⟨rfl, deletedBy_run (s := s) hno _, setClient_ids _ _, rfl⟩)
  | @written c ok _ hc _ =>
      rcases handleWrite_cases (s.complete c.id .write) c ok with
        ⟨hexit, hwrite⟩ | ⟨hno, outRx, outTx, ⟨rfl, hwrite⟩ | ⟨rfl, hwrite⟩⟩
      · rw [hwrite]
        exact .inr (.inr ⟨rfl, deletedBy_exit (s := s) hexit _, rfl, rfl⟩)
      · rw [hwrite]
        exact .inr (.inr ⟨rfl, deletedBy_run (s := s) hno _, setClient_ids _ _, rfl⟩)
      · rw [hwrite]
        exact .inr (.inl ⟨c, hc, rfl, deletedBy_run (s := s) hno _, hrelease _ c, rfl⟩)
  | @sessionTimeout c =>
      obtain ⟨stopped, htimeout⟩ := sessionTimeout_eq s c
      rw [htimeout]
      exact .inr (.inr ⟨rfl, deletedBy_none rfl, setClient_ids _ _, rfl⟩)
  | serverTimeout =>
      obtain ⟨armed, stopped, htimeout⟩ := serverTimeout_eq s
      rw [htimeout]
      exact .inr (.inr ⟨rfl, deletedBy_none rfl, rfl, rfl⟩)
  | cancelled =>
      obtain ⟨stopped, htimeout⟩ := cancelledTimeout_eq s
      rw [htimeout]
      exact .inr (.inr ⟨rfl, deletedBy_none rfl, rfl, rfl⟩)
  | threadTransferDeInit =>
      exact .inr (.inr ⟨rfl, deletedBy_none rfl, rfl, rfl⟩)

theorem accepted_snoc (h : List (State β × Event)) (s : State β) (e : Event) :
    accepted (h ++ [(s, e)]) = accepted h ++ (acceptedBy s e).toList := by
  rw [accepted, List.filterMap_append]
  congr 1

theorem deleted_snoc (h : List (State β × Event)) (s : State β) (e : Event) :
    deleted (h ++ [(s, e)]) = deleted h ++ (deletedBy s e).toList := by
  rw [deleted, List.filterMap_append]
  congr 1

/-- A live session and the others. -/
theorem perm_filter_ne {l : List Nat} (hl : l.Nodup) (hid : id ∈ l) :
    (id :: l.filter (fun x => x ≠ id)).Perm l := by
  have hfilter : l.filter (fun x => x ≠ id) = l.erase id := by
    rw [hl.erase_eq_filter]
    exact List.filter_congr fun x _ => decide_not
  rw [hfilter]
  exact (List.perm_cons_erase hid).symm

/-- A turn moves the sessions that it accepts to the live ones, and those that it
deletes away from them. -/
theorem connection_step (ha : Accounted s)
    (hstep : step lexicalCast sourceType correction s e = some t) :
    ((deletedBy s e).toList ++ t.ids).Perm (s.ids ++ (acceptedBy s e).toList) ∧
      s.nextId ≤ t.nextId ∧ ∀ id ∈ acceptedBy s e, id = s.nextId ∧ id < t.nextId := by
  rcases connection_cases hstep with
    ⟨hacc, hdel, hids, hnext⟩ | ⟨c, hc, hacc, hdel, hids, hnext⟩ | ⟨hacc, hdel, hids, hnext⟩
  · rw [hacc, hdel, hids, hnext]
    refine ⟨List.Perm.refl _, Nat.le_succ _, fun id hid => ?_⟩
    cases hid
    exact ⟨rfl, Nat.lt_succ_self _⟩
  · rw [hacc, hdel, hids, hnext, Option.toList_none, List.append_nil]
    refine ⟨perm_filter_ne ha.ids (List.mem_map_of_mem hc), Nat.le_refl _, fun id hid => ?_⟩
    cases hid
  · rw [hacc, hdel, hids, hnext, Option.toList_none, List.append_nil]
    refine ⟨List.Perm.refl _, Nat.le_refl _, fun id hid => ?_⟩
    cases hid

theorem Ledger.snoc (hl : Ledger h s) (ha : Accounted s)
    (hstep : step lexicalCast sourceType correction s e = some t) :
    Ledger (h ++ [(s, e)]) t := by
  obtain ⟨hperm, hle, hnew⟩ := connection_step ha hstep
  constructor
  · calc
      deleted (h ++ [(s, e)]) ++ t.ids = deleted h ++ ((deletedBy s e).toList ++ t.ids) := by
        rw [deleted_snoc, List.append_assoc]
      List.Perm _ (deleted h ++ (s.ids ++ (acceptedBy s e).toList)) := hperm.append_left _
      _ = deleted h ++ s.ids ++ (acceptedBy s e).toList := (List.append_assoc _ _ _).symm
      List.Perm _ (accepted h ++ (acceptedBy s e).toList) := hl.perm.append_right _
      _ = accepted (h ++ [(s, e)]) := (accepted_snoc h s e).symm
  · rw [accepted_snoc, List.nodup_append']
    refine ⟨hl.once, Option.toList_nodup _, fun id hold hid => ?_⟩
    obtain ⟨rfl, _⟩ := hnew id (Option.mem_toList.mp hid)
    exact absurd (hl.fresh _ hold) (Nat.lt_irrefl _)
  · intro id hid
    rw [accepted_snoc, List.mem_append] at hid
    rcases hid with hold | hid
    · exact Nat.lt_of_lt_of_le (hl.fresh id hold) hle
    · exact (hnew id (Option.mem_toList.mp hid)).2

/-! ## Runs -/

theorem Run.ledger (run : Run lexicalCast sourceType correction h s) : Ledger h s := by
  induction run with
  | nil =>
      refine ⟨List.Perm.refl _, List.nodup_nil, fun id hid => ?_⟩
      cases hid
  | snoc prev hstep ih => exact ih.snoc (Run.accounted prev) hstep

theorem Run.onePerSession (run : Run lexicalCast sourceType correction h s) : OnePerSession s :=
  (Transition.Run.invariant (P := fun s => Accounted s ∧ OnePerSession s)
    ⟨accounted_initial, onePerSession_initial⟩
    (fun hs hstep => ⟨hs.1.step hstep, hs.2.step hs.1 hstep⟩) run).2

/-- Every completion that the loop can deliver finds its session. -/
theorem step_of_ready (ha : Accounted s) (ho : OnePerSession s) (hstopped : s.stopped = false)
    (hready : Ready s e) : ∃ t, step lexicalCast sourceType correction s e = some t := by
  have hclient : ∀ id, id ∈ s.busy → ∃ c, s.client? id = some c := by
    intro id hid
    obtain ⟨c, hc, rfl⟩ := ho.owned id hid
    exact ⟨c, ha.client? hc⟩
  simp only [step, if_pos (And.intro hstopped hready)]
  cases e with
  | accept ok => exact ⟨_, rfl⟩
  | read id result =>
      obtain ⟨c, hc⟩ := hclient id (List.mem_map_of_mem hready.1)
      exact ⟨_, Option.map_eq_some_iff.mpr ⟨c, hc, rfl⟩⟩
  | write id ok =>
      obtain ⟨c, hc⟩ := hclient id (List.mem_map_of_mem hready)
      exact ⟨_, Option.map_eq_some_iff.mpr ⟨c, hc, rfl⟩⟩
  | sessionTimeout id =>
      obtain ⟨c, hc, rfl, _⟩ := hready
      exact ⟨_, Option.map_eq_some_iff.mpr ⟨c, ha.client? hc, rfl⟩⟩
  | serverTimeout => exact ⟨_, rfl⟩
  | cancelled => exact ⟨_, rfl⟩
  | threadTransferDeInit => exact ⟨_, rfl⟩

/-- In every run the count is what has been accepted and not deleted.  No session has
two outstanding operations, and only live ones have any, so the loop always finds the
session of a completion.  No session is deleted twice, and the count is positive
whenever one is deleted. -/
theorem connections_exact (lexicalCast : Cxx.Str → Option Int) (sourceType : SourceType)
    (correction : Int → β) {h : List (State β × Event)} {s : State β}
    (run : Run lexicalCast sourceType correction h s) :
    s.count + (deleted h).length = (accepted h).length ∧
      (∀ id, id ∈ s.ids ↔ id ∈ accepted h ∧ id ∉ deleted h) ∧
      (accepted h).Nodup ∧ (deleted h).Nodup ∧ (∀ id ∈ deleted h, id ∈ accepted h) ∧
      s.busy.Nodup ∧ (∀ id ∈ s.busy, id ∈ s.ids) ∧
      (∀ p ∈ h, ∀ id, deletedBy p.1 p.2 = some id → id ∈ p.1.ids ∧ 0 < p.1.count) ∧
      ∀ e, s.stopped = false → Ready s e →
        ∃ t, step lexicalCast sourceType correction s e = some t := by
  have hl := Run.ledger run
  have ha := Run.accounted run
  have ho := Run.onePerSession run
  have hnodup : (deleted h ++ s.ids).Nodup := hl.perm.nodup_iff.mpr hl.once
  obtain ⟨hdeleted, _, hdisjoint⟩ := List.nodup_append'.mp hnodup
  refine ⟨?_, fun id => ?_, hl.once, hdeleted, fun id hid => ?_, ho.once, fun id hid => ?_,
    fun p hp id hid => ?_, fun e hstopped hready => step_of_ready ha ho hstopped hready⟩
  · have hlength := hl.perm.length_eq
    rw [List.length_append, State.ids, List.length_map, ← ha.count] at hlength
    omega
  · rw [← hl.perm.mem_iff, List.mem_append]
    constructor
    · intro hlive
      exact ⟨.inr hlive, fun hdel => hdisjoint hdel hlive⟩
    · rintro ⟨hdel | hlive, hnot⟩
      · exact absurd hdel hnot
      · exact hlive
  · exact hl.perm.mem_iff.mp (List.mem_append_left _ hid)
  · exact List.mem_map.mpr (ho.owned id hid)
  · obtain ⟨t, hstep⟩ := Transition.Run.step_of_mem run p hp
    have hp' : Accounted p.1 := Transition.Run.invariant_history accounted_initial
      Accounted.step run p hp
    rcases connection_cases hstep with
      ⟨_, hdel, _⟩ | ⟨c, hc, _, hdel, _⟩ | ⟨_, hdel, _⟩
    · cases hdel.symm.trans hid
    · cases hdel.symm.trans hid
      refine ⟨List.mem_map_of_mem hc, ?_⟩
      rw [hp'.count]
      exact List.length_pos_of_mem hc
    · cases hdel.symm.trans hid

/-- Two sessions, the first of which is deleted. -/
theorem connections_exact_twoSessions :
    ∃ r, Transition.exec (step Cxx.decimal .gpredict (exactCorrection 1000)) initial
        [.accept true, .accept true, .read 0 none, .cancelled] = some r ∧
      accepted r.1 = [0, 1] ∧ deleted r.1 = [0] ∧
      r.2.count + (deleted r.1).length = (accepted r.1).length ∧
      (∀ id, id ∈ r.2.ids ↔ id ∈ accepted r.1 ∧ id ∉ deleted r.1) ∧
      (accepted r.1).Nodup ∧ (deleted r.1).Nodup ∧ (∀ id ∈ deleted r.1, id ∈ accepted r.1) ∧
      r.2.busy.Nodup ∧ (∀ id ∈ r.2.busy, id ∈ r.2.ids) ∧
      (∀ p ∈ r.1, ∀ id, deletedBy p.1 p.2 = some id → id ∈ p.1.ids ∧ 0 < p.1.count) ∧
      ∀ e, r.2.stopped = false → Ready r.2 e →
        ∃ t, step Cxx.decimal .gpredict (exactCorrection 1000) r.2 e = some t := by
  obtain ⟨r, hr, haccepted, hdeleted⟩ :
      ∃ r, Transition.exec (step Cxx.decimal .gpredict (exactCorrection 1000)) initial
          [.accept true, .accept true, .read 0 none, .cancelled] = some r ∧
        accepted r.1 = [0, 1] ∧ deleted r.1 = [0] := ⟨_, rfl, rfl, rfl⟩
  exact ⟨r, hr, haccepted, hdeleted, connections_exact _ _ _ (Transition.exec_run hr)⟩

end Doppler

end GsSDR
