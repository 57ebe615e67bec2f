import GsSDR.Doppler.Server
import Mathlib.Data.List.Nodup

/-!
# The sessions of the server and their count

Every session has an id of its own, and `count` is the number of sessions that
have been accepted and not deleted.
-/

namespace GsSDR

namespace Doppler

variable {β : Type*} {lexicalCast : Cxx.Str → Option Int} {sourceType : SourceType}
  {correction : Int → β} {h : List (State β × Event)} {s t : State β} {e : Event} {c d : Client}

/-- What holds of the sessions in every state. -/
structure Accounted (s : State β) : Prop where
  ids : (s.clients.map Client.id).Nodup
  fresh : ∀ c ∈ s.clients, c.id < s.nextId
  count : s.count = s.clients.length

/-! ## The sessions behind an operation -/

theorem setClient_ids (s : State β) (c : Client) :
    (s.setClient c).clients.map Client.id = s.clients.map Client.id := by
  show (s.clients.map _).map Client.id = _
  rw [List.map_map]
  refine List.map_congr_left fun d _ => ?_
  show (if d.id = c.id then c else d).id = d.id
  split
  next heq => exact heq.symm
  next => rfl

theorem mem_setClient (hc : ∃ b ∈ s.clients, b.id = c.id) :
    d ∈ (s.setClient c).clients ↔ d = c ∨ (d ∈ s.clients ∧ d.id ≠ c.id) := by
  show d ∈ s.clients.map _ ↔ _
  rw [List.mem_map]
  constructor
  · rintro ⟨b, hb, rfl⟩
    split
    next => exact .inl rfl
    next hne => exact .inr ⟨hb, hne⟩
  · rintro (rfl | ⟨hd, hne⟩)
    · obtain ⟨b, hb, hid⟩ := hc
      exact ⟨b, hb, if_pos hid⟩
    · exact ⟨d, hd, if_neg hne⟩

theorem mem_release : d ∈ (s.release c).clients ↔ d ∈ s.clients ∧ d.id ≠ c.id := by
  show d ∈ s.clients.filter _ ↔ _
  rw [List.mem_filter]
  simp

theorem Accounted.eq_of_id (hs : Accounted s) (hc : c ∈ s.clients) (hd : d ∈ s.clients)
    (hid : c.id = d.id) : c = d :=
  List.inj_on_of_nodup_map hs.ids hc hd hid

theorem Accounted.client? (hs : Accounted s) (hc : c ∈ s.clients) : s.client? c.id = some c := by
  cases hfind : s.client? c.id with
  | none =>
      have hnone := List.find?_eq_none.mp hfind c hc
      simp at hnone
  | some d =>
      obtain ⟨hd, hid⟩ := client?_some hfind
      rw [hs.eq_of_id hd hc hid]

theorem Accounted.setClient (hs : Accounted s) (hc : ∃ b ∈ s.clients, b.id = c.id) :
    Accounted (s.setClient c) where
  ids := by
    rw [setClient_ids]
    exact hs.ids
  fresh := by
    intro d hd
    rcases (mem_setClient hc).mp hd with rfl | ⟨hd, _⟩
    · obtain ⟨b, hb, hid⟩ := hc
      rw [← hid]
      exact hs.fresh b hb
    · exact hs.fresh d hd
  count := by
    show s.count = (s.clients.map _).length
    rw [hs.count, List.length_map]

theorem Accounted.start (hs : Accounted s) (hc : c ∈ s.clients) : Accounted (s.start c) := by
  obtain ⟨hids, hfresh, hcount⟩ :=
    hs.setClient (c := { c with timerArmed := true }) ⟨c, hc, rfl⟩
  exact ⟨hids, hfresh, hcount⟩

theorem release_length (hids : (s.clients.map Client.id).Nodup) (hc : c ∈ s.clients) :
    (s.release c).clients.length + 1 = s.clients.length := by
  have hone : s.clients.countP (fun d => !decide (d.id ≠ c.id)) = 1 := by
    have hcount := List.count_eq_one_of_mem hids (List.mem_map_of_mem hc)
    rw [List.count, List.countP_map] at hcount
    rw [← hcount]
    refine List.countP_congr fun d _ => ?_
    simp
  have hsplit := List.length_eq_countP_add_countP (fun d => decide (d.id ≠ c.id)) (l := s.clients)
  show (s.clients.filter _).length + 1 = _
  rw [← List.countP_eq_length_filter]
  simp only [decide_not, Bool.not_not, Bool.not_eq_true, Bool.decide_eq_false] at hone hsplit ⊢
  omega

theorem Accounted.release (hs : Accounted s) (hc : c ∈ s.clients) : Accounted (s.release c) where
  ids := hs.ids.sublist (List.filter_sublist.map _)
  fresh := fun d hd => hs.fresh d (mem_release.mp hd).1
  count := by
    show s.count - 1 = _
    rw [hs.count, ← release_length hs.ids hc, Nat.add_sub_cancel]

/-! ## The handlers -/

theorem Accounted.of_eq (hs : Accounted s) (hclients : t.clients = s.clients)
    (hcount : t.count = s.count) (hnext : t.nextId = s.nextId) : Accounted t := by
  obtain ⟨hids, hfresh, hlength⟩ := hs
  constructor
  · rw [hclients]
    exact hids
  · rw [hclients, hnext]
    exact hfresh
  · rw [hclients, hcount]
    exact hlength

theorem Accounted.complete (hs : Accounted s) (id : Nat) (op : Op) :
    Accounted (s.complete id op) :=
  hs.of_eq rfl rfl rfl

theorem Accounted.begin {id : Nat} {op : Op} (hs : Accounted s) : Accounted (s.begin id op) :=
  hs.of_eq rfl rfl rfl

theorem Accounted.halt (hs : Accounted s) : Accounted s.halt := hs.of_eq rfl rfl rfl

theorem Accounted.handleAccept (hs : Accounted s) (ok : Bool) : Accounted (s.handleAccept ok) := by
  cases ok with
  | false => exact hs.of_eq rfl rfl rfl
  | true =>
      refine Accounted.start ?_ (List.mem_append_right _ (List.mem_singleton.mpr rfl))
      constructor
      · show ((s.clients ++ [_]).map Client.id).Nodup
        rw [List.map_append, List.nodup_append']
        refine ⟨hs.ids, List.nodup_singleton _, ?_⟩
        intro id hold hnew
        obtain ⟨d, hd, rfl⟩ := List.mem_map.mp hold
        have hlt := hs.fresh d hd
        rw [List.mem_singleton.mp hnew] at hlt
        exact absurd hlt (Nat.lt_irrefl _)
      · intro d hd
        rcases List.mem_append.mp hd with hd | hd
        · exact Nat.lt_succ_of_lt (hs.fresh d hd)
        · rw [List.mem_singleton.mp hd]
          exact Nat.lt_succ_self _
      · show s.count + 1 = (s.clients ++ [_]).length
        rw [hs.count, List.length_append]
        rfl

theorem Accounted.handleRead (hs : Accounted s) (hc : c ∈ s.clients)
    (result : Option Cxx.Str) : Accounted (s.handleRead lexicalCast sourceType c result) := by
  rcases handleRead_cases s c result with
    ⟨_, d, hid, hread⟩ | ⟨_, _, hread⟩ | ⟨_, text, _, hread | hread⟩
  · rw [hread]
    exact (hs.setClient ⟨c, hc, hid.symm⟩).halt
  · rw [hread]
    exact hs.release hc
  · rw [hread]
    exact hs.setClient ⟨c, hc, rfl⟩
  · rw [hread]
    exact Accounted.begin (hs.setClient ⟨c, hc, rfl⟩)

theorem Accounted.handleWrite (hs : Accounted s) (hc : c ∈ s.clients) (ok : Bool) :
    Accounted (s.handleWrite correction c ok) := by
  rcases handleWrite_cases s c ok with
    ⟨_, hwrite⟩ | ⟨_, outRx, outTx, ⟨_, hwrite⟩ | ⟨_, hwrite⟩⟩
  · rw [hwrite]
    exact hs.halt
  · rw [hwrite]
    exact Accounted.start (hs.of_eq rfl rfl rfl) hc
  · rw [hwrite]
    exact Accounted.release (hs.of_eq rfl rfl rfl) hc

theorem Accounted.sessionTimeout (hs : Accounted s) (hc : c ∈ s.clients) :
    Accounted (s.sessionTimeout c) := by
  have hdisarmed := hs.setClient (c := { c with timerArmed := false }) ⟨c, hc, rfl⟩
  obtain ⟨stopped, htimeout⟩ := sessionTimeout_eq s c
  rw [htimeout]
  exact hdisarmed.of_eq rfl rfl rfl

theorem Accounted.step (hs : Accounted s)
    (hstep : Doppler.step lexicalCast sourceType correction s e = some t) : Accounted t := by
  cases step_sound hstep with
  | accepted => exact hs.handleAccept _
  | read _ hc _ => exact (hs.complete _ _).handleRead hc _
  | written _ hc _ => exact (hs.complete _ _).handleWrite hc _
  | sessionTimeout _ hc _ => exact hs.sessionTimeout hc
  | serverTimeout =>
      obtain ⟨armed, stopped, h⟩ := serverTimeout_eq s
      rw [h]
      exact hs.of_eq rfl rfl rfl
  | cancelled =>
      obtain ⟨stopped, h⟩ := cancelledTimeout_eq s
      rw [h]
      exact hs.of_eq rfl rfl rfl
  | threadTransferDeInit => exact hs.of_eq rfl rfl rfl

theorem accounted_initial : Accounted (initial : State β) where
  ids := List.nodup_nil
  fresh := by
    intro c hc
    cases hc
  count := rfl

theorem Run.accounted (run : Run lexicalCast sourceType correction h s) : Accounted s :=
  Transition.Run.invariant accounted_initial Accounted.step run

end Doppler

end GsSDR
