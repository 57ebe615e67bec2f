import GsSDR.Doppler.Accounting

/-!
# Whether a session goes on

A session lives by its next asynchronous operation.  Every handler that neither
starts one nor deletes the session leaves it behind for ever: it keeps its
socket and its place in the count, and nothing reads from its client.

`handle_read` does that with a text that does not begin with a letter of the
protocol, and no other handler does it.  A session never has two operations
(`OnePerSession`), so none is left when that one has completed.
-/

namespace GsSDR

namespace Doppler

variable {β : Type*} {lexicalCast : Cxx.Str → Option Int} {sourceType : SourceType}
  {correction : Int → β} {h : List (State β × Event)} {s t : State β} {e : Event} {c d : Client}
  {id : Nat} {op : Op}

/-- The sessions that have an outstanding operation. -/
def State.busy (s : State β) : List Nat := s.outstanding.map Prod.fst

/-- No session has two outstanding operations, and no deleted one has any. -/
structure OnePerSession (s : State β) : Prop where
  once : s.busy.Nodup
  owned : ∀ id ∈ s.busy, ∃ c ∈ s.clients, c.id = id

/-- While no stop is requested, every session has an outstanding operation. -/
def NotStuck (s : State β) : Prop :=
  s.exitRequested = false → ∀ c ∈ s.clients, c.id ∈ s.busy

/-- The text begins with a letter of the protocol. -/
def BeginsCommand (sourceType : SourceType) (text : Cxx.Str) : Prop :=
  match sourceType with
  | .gpredict => text.head? = some 'F' ∨ text.head? = some 'f'
  | .gsjd => text.head? = some 'f' ∨ text.head? = some 'F' ∨ text.head? = some 'M'

/-- Without a stop requested, a text that is read begins a command. -/
def ReadsCommand (sourceType : SourceType) (s : State β) (e : Event) : Prop :=
  s.exitRequested = false →
    match e with
    | .read _ (some text) => BeginsCommand sourceType text
    | _ => True

/-! ## The reply -/

theorem startsWith_singleton (x : Char) (text : Cxx.Str) :
    Cxx.startsWith [x] text = true ↔ text.head? = some x := by
  cases text with
  | nil => simp [Cxx.startsWith]
  | cons y text =>
      rw [Cxx.startsWith, List.head?_cons, List.isPrefixOf_cons_cons, List.isPrefixOf_nil_left,
        Bool.and_true, beq_iff_eq, Option.some.injEq]
      exact eq_comm

/-- The texts that are answered are those that begin a command. -/
theorem replyTo_isSome_iff (freqRx : Int) (text : Cxx.Str) :
    (replyTo sourceType freqRx text).isSome = true ↔ BeginsCommand sourceType text := by
  cases sourceType with
  | gpredict =>
      simp only [replyTo, BeginsCommand, ← startsWith_singleton]
      cases Cxx.startsWith ['F'] text with
      | true => simp
      | false => cases Cxx.startsWith ['f'] text <;> simp
  | gsjd =>
      simp only [replyTo, BeginsCommand, ← startsWith_singleton]
      cases Cxx.startsWith ['f'] text with
      | true => simp
      | false =>
          cases Cxx.startsWith ['F'] text with
          | true => simp
          | false => cases Cxx.startsWith ['M'] text <;> simp

/-- A text starts a write exactly if it begins a command. -/
theorem handleRead_some (hno : s.exitRequested = false) (c : Client) (text : Cxx.Str) :
    (BeginsCommand sourceType text ∧
      s.handleRead lexicalCast sourceType c (some text) =
        (s.setClient (c.command lexicalCast sourceType text)).begin c.id .write) ∨
    (¬ BeginsCommand sourceType text ∧
      s.handleRead lexicalCast sourceType c (some text) =
        s.setClient (c.command lexicalCast sourceType text)) := by
  have hexit : ¬ s.exitRequested = true := by
    rw [hno]
    exact Bool.false_ne_true
  simp only [State.handleRead, if_neg hexit]
  rw [handleRead_eq, ← replyTo_isSome_iff (c.session.after lexicalCast sourceType text).freqRx]
  cases replyTo sourceType (c.session.after lexicalCast sourceType text).freqRx text with
  | none => exact .inr ⟨Bool.false_ne_true, rfl⟩
  | some reply => exact .inl ⟨rfl, rfl⟩

/-! ## The operations -/

/-- The session has no outstanding operation. -/
def Free (s : State β) (id : Nat) : Prop := OnePerSession s ∧ id ∉ s.busy

theorem mem_busy_complete (hs : OnePerSession s) (hop : (id, op) ∈ s.outstanding) {x : Nat} :
    x ∈ (s.complete id op).busy ↔ x ∈ s.busy ∧ x ≠ id := by
  have hperm : s.busy.Perm (id :: (s.complete id op).busy) :=
    (List.perm_cons_erase hop).map Prod.fst
  have hnodup := (List.nodup_cons.mp (hperm.nodup_iff.mp hs.once)).1
  rw [hperm.mem_iff, List.mem_cons]
  constructor
  · intro hx
    refine ⟨.inr hx, ?_⟩
    rintro rfl
    exact hnodup hx
  · rintro ⟨rfl | hx, hne⟩
    · exact absurd rfl hne
    · exact hx

theorem OnePerSession.complete (hs : OnePerSession s) (hop : (id, op) ∈ s.outstanding) :
    Free (s.complete id op) id := by
  refine ⟨⟨?_, ?_⟩, ?_⟩
  · exact hs.once.sublist (List.erase_sublist.map Prod.fst)
  · intro x hx
    exact hs.owned x ((mem_busy_complete hs hop).mp hx).1
  · intro hx
    exact ((mem_busy_complete hs hop).mp hx).2 rfl

theorem OnePerSession.of_eq (hs : OnePerSession s) (hbusy : t.busy = s.busy)
    (hids : t.clients.map Client.id = s.clients.map Client.id) : OnePerSession t where
  once := by
    rw [hbusy]
    exact hs.once
  owned := by
    intro id hid
    rw [hbusy] at hid
    have hmem : id ∈ t.clients.map Client.id := by
      rw [hids]
      exact List.mem_map.mpr (hs.owned id hid)
    exact List.mem_map.mp hmem

theorem OnePerSession.setClient (hs : OnePerSession s) (c : Client) :
    OnePerSession (s.setClient c) :=
  hs.of_eq rfl (setClient_ids s c)

theorem Free.begin (hs : Free s id) (hc : ∃ c ∈ s.clients, c.id = id) :
    OnePerSession (s.begin id op) where
  once := List.nodup_cons.mpr ⟨hs.2, hs.1.once⟩
  owned := by
    intro x hx
    rcases List.mem_cons.mp hx with rfl | hx
    · exact hc
    · exact hs.1.owned x hx

theorem Free.start (hs : Free s c.id) (hc : c ∈ s.clients) : OnePerSession (s.start c) := by
  have hset : OnePerSession (s.setClient { c with timerArmed := true }) := hs.1.setClient _
  refine Free.begin ⟨hset.of_eq rfl rfl, hs.2⟩ ?_
  exact ⟨{ c with timerArmed := true }, (mem_setClient (c := { c with timerArmed := true })
    ⟨c, hc, rfl⟩).mpr (.inl rfl), rfl⟩

theorem Free.release (hs : Free s c.id) : OnePerSession (s.release c) where
  once := hs.1.once
  owned := by
    intro x hx
    obtain ⟨d, hd, rfl⟩ := hs.1.owned x hx
    refine ⟨d, mem_release.mpr ⟨hd, ?_⟩, rfl⟩
    intro heq
    exact hs.2 (heq ▸ hx)

theorem OnePerSession.handleAccept (hs : OnePerSession s) (ha : Accounted s) (ok : Bool) :
    OnePerSession (s.handleAccept ok) := by
  cases ok with
  | false => exact hs.of_eq rfl rfl
  | true =>
      refine Free.start ⟨⟨hs.once, fun x hx => ?_⟩, fun hx => ?_⟩
        (List.mem_append_right _ (List.mem_singleton.mpr rfl))
      · obtain ⟨d, hd, hid⟩ := hs.owned x hx
        exact ⟨d, List.mem_append_left _ hd, hid⟩
      · obtain ⟨d, hd, hid⟩ := hs.owned _ hx
        exact absurd (ha.fresh d hd) (hid ▸ Nat.lt_irrefl _)

theorem OnePerSession.step (hs : OnePerSession s) (ha : Accounted s)
    (hstep : Doppler.step lexicalCast sourceType correction s e = some t) : OnePerSession t := by
  cases step_sound hstep with
  | accepted => exact hs.handleAccept ha _
  | @read c result _ hc hop =>
      have hfree := hs.complete hop
      rcases handleRead_cases (s.complete c.id .read) c result with
        ⟨_, d, _, hread⟩ | ⟨_, _, hread⟩ | ⟨_, text, _, hread | hread⟩
      · rw [hread]
        exact (hfree.1.setClient d).of_eq rfl rfl
      · rw [hread]
        exact hfree.release
      · rw [hread]
        exact hfree.1.setClient _
      · rw [hread]
        exact Free.begin ⟨hfree.1.setClient _, hfree.2⟩
          ⟨_, (mem_setClient (c := c.command lexicalCast sourceType text)
            ⟨c, hc, rfl⟩).mpr (.inl rfl), rfl⟩
  | @written c ok _ hc hop =>
      have hfree := hs.complete hop
      rcases handleWrite_cases (s.complete c.id .write) c ok with
        ⟨_, hwrite⟩ | ⟨_, outRx, outTx, ⟨_, hwrite⟩ | ⟨_, hwrite⟩⟩
      · rw [hwrite]
        exact hfree.1.of_eq rfl rfl
      · rw [hwrite]
        exact Free.start ⟨hfree.1.of_eq rfl rfl, hfree.2⟩ hc
      · rw [hwrite]
        exact Free.release ⟨hfree.1.of_eq rfl rfl, hfree.2⟩
  | @sessionTimeout c =>
      obtain ⟨stopped, htimeout⟩ := sessionTimeout_eq s c
      rw [htimeout]
      exact (hs.setClient _).of_eq rfl rfl
  | serverTimeout =>
      obtain ⟨armed, stopped, htimeout⟩ := serverTimeout_eq s
      rw [htimeout]
      exact hs.of_eq rfl rfl
  | cancelled =>
      obtain ⟨stopped, htimeout⟩ := cancelledTimeout_eq s
      rw [htimeout]
      exact hs.of_eq rfl rfl
  | threadTransferDeInit => exact hs.of_eq rfl rfl

/-! ## The handlers -/

theorem NotStuck.of_eq (hs : NotStuck s) (hexit : t.exitRequested = s.exitRequested)
    (hbusy : t.busy = s.busy) (hids : t.clients.map Client.id = s.clients.map Client.id) :
    NotStuck t := by
  intro hno c hc
  have hmem : c.id ∈ s.clients.map Client.id := hids ▸ List.mem_map_of_mem hc
  obtain ⟨d, hd, hid⟩ := List.mem_map.mp hmem
  rw [hbusy, ← hid]
  exact hs (hexit ▸ hno) d hd

/-- A handler that starts an operation for the session whose operation has
completed leaves no session behind. -/
theorem notStuck_begin (hs : OnePerSession s) (h : NotStuck s)
    (hop : (c.id, op) ∈ s.outstanding)
    (hexit : t.exitRequested = s.exitRequested)
    (hbusy : t.busy = c.id :: (s.complete c.id op).busy)
    (hids : t.clients.map Client.id = s.clients.map Client.id) : NotStuck t := by
  intro hno d hd
  have hmem : d.id ∈ s.clients.map Client.id := hids ▸ List.mem_map_of_mem hd
  obtain ⟨b, hb, hid⟩ := List.mem_map.mp hmem
  rw [hbusy, ← hid]
  by_cases hbc : b.id = c.id
  · exact List.mem_cons.mpr (.inl hbc)
  · exact List.mem_cons_of_mem _
      ((mem_busy_complete hs hop).mpr ⟨h (hexit ▸ hno) b hb, hbc⟩)

/-- A handler that deletes that session leaves none behind. -/
theorem notStuck_release (hs : OnePerSession s) (h : NotStuck s)
    (hop : (c.id, op) ∈ s.outstanding)
    (hexit : t.exitRequested = s.exitRequested) (hbusy : t.busy = (s.complete c.id op).busy)
    (hclients : ∀ d ∈ t.clients, d ∈ s.clients ∧ d.id ≠ c.id) : NotStuck t := by
  intro hno d hd
  obtain ⟨hd, hne⟩ := hclients d hd
  rw [hbusy]
  exact (mem_busy_complete hs hop).mpr ⟨h (hexit ▸ hno) d hd, hne⟩

/-- A text leaves its session behind exactly if it does not begin a command. -/
theorem notStuck_read (hs : OnePerSession s) (h : NotStuck s) (hno : s.exitRequested = false)
    (hc : c ∈ s.clients) (hop : (c.id, .read) ∈ s.outstanding) (text : Cxx.Str) :
    NotStuck ((s.complete c.id .read).handleRead lexicalCast sourceType c (some text)) ↔
      BeginsCommand sourceType text := by
  rcases handleRead_some (s := s.complete c.id .read) hno c text with
    ⟨hbegins, hread⟩ | ⟨hother, hread⟩
  · rw [hread]
    refine iff_of_true ?_ hbegins
    exact notStuck_begin hs h hop rfl rfl (setClient_ids _ _)
  · rw [hread]
    refine iff_of_false (fun hstuck => ?_) hother
    have hmem := hstuck hno (c.command lexicalCast sourceType text)
      ((mem_setClient (c := c.command lexicalCast sourceType text) ⟨c, hc, rfl⟩).mpr (.inl rfl))
    exact ((mem_busy_complete hs hop).mp hmem).2 rfl

theorem notStuck_handleAccept (h : NotStuck s) (ok : Bool) : NotStuck (s.handleAccept ok) := by
  cases ok with
  | false => exact h.of_eq rfl rfl rfl
  | true =>
      intro hno d hd
      obtain ⟨b, hb, rfl⟩ := List.mem_map.mp hd
      split
      next => exact List.mem_cons_self
      next hother =>
        rcases List.mem_append.mp hb with hold | hnew
        · exact List.mem_cons_of_mem _ (h hno b hold)
        · rw [List.mem_singleton.mp hnew] at hother
          exact absurd rfl hother

/-! ## Runs -/

/-- A turn leaves no session behind exactly if a text that it reads begins a
command. -/
theorem notStuck_step_iff (hs : Accounted s ∧ OnePerSession s) (h : NotStuck s)
    (hstep : Doppler.step lexicalCast sourceType correction s e = some t) :
    NotStuck t ↔ ReadsCommand sourceType s e := by
  cases step_sound hstep with
  | accepted => exact iff_of_true (notStuck_handleAccept h _) fun _ => trivial
  | @read c result _ hc hop =>
      cases hexit : s.exitRequested with
      | true =>
          refine iff_of_true (fun hno => ?_) fun hno => ?_
          · rcases handleRead_cases (s.complete c.id .read) c result with
              ⟨_, d, _, hread⟩ | ⟨hno', _⟩ | ⟨hno', _⟩
            · rw [hread] at hno
              exact absurd (hexit.symm.trans hno) Bool.noConfusion
            · exact absurd (hexit.symm.trans hno') Bool.noConfusion
            · exact absurd (hexit.symm.trans hno') Bool.noConfusion
          · exact absurd (hexit.symm.trans hno) Bool.noConfusion
      | false =>
          cases result with
          | none =>
              refine iff_of_true ?_ fun _ => trivial
              rcases handleRead_cases (s.complete c.id .read) c none with
                ⟨hexit', _⟩ | ⟨_, _, hread⟩ | ⟨_, text, htext, _⟩
              · exact absurd (hexit.symm.trans hexit') Bool.noConfusion
              · rw [hread]
                exact notStuck_release hs.2 h hop rfl rfl fun d hd => mem_release.mp hd
              · cases htext
          | some text =>
              rw [notStuck_read hs.2 h hexit hc hop text]
              exact ⟨fun hbegins _ => hbegins, fun hreads => hreads hexit⟩
  | @written c ok _ hc hop =>
      refine iff_of_true ?_ fun _ => trivial
      rcases handleWrite_cases (s.complete c.id .write) c ok with
        ⟨hexit, hwrite⟩ | ⟨_, outRx, outTx, ⟨_, hwrite⟩ | ⟨_, hwrite⟩⟩
      · rw [hwrite]
        intro hno
        exact absurd (hexit.symm.trans hno) Bool.noConfusion
      · rw [hwrite]
        exact notStuck_begin hs.2 h hop rfl rfl (setClient_ids _ _)
      · rw [hwrite]
        exact notStuck_release hs.2 h hop rfl rfl fun d hd => mem_release.mp hd
  | @sessionTimeout c =>
      refine iff_of_true ?_ fun _ => trivial
      obtain ⟨stopped, htimeout⟩ := sessionTimeout_eq s c
      rw [htimeout]
      exact h.of_eq rfl rfl (setClient_ids _ _)
  | serverTimeout =>
      refine iff_of_true ?_ fun _ => trivial
      obtain ⟨armed, stopped, htimeout⟩ := serverTimeout_eq s
      rw [htimeout]
      exact h.of_eq rfl rfl rfl
  | cancelled =>
      refine iff_of_true ?_ fun _ => trivial
      obtain ⟨stopped, htimeout⟩ := cancelledTimeout_eq s
      rw [htimeout]
      exact h.of_eq rfl rfl rfl
  | threadTransferDeInit =>
      refine iff_of_true (fun hno => ?_) fun _ => trivial
      cases hno

theorem onePerSession_initial : OnePerSession (initial : State β) where
  once := List.nodup_nil
  owned := by
    intro id hid
    cases hid

theorem notStuck_initial : NotStuck (initial : State β) := by
  intro _ c hc
  cases hc

/-- In a run no session is ever left behind exactly if every text that is read
begins a command. -/
theorem notStuck_iff (run : Run lexicalCast sourceType correction h s) :
    ((∀ p ∈ h, NotStuck p.1) ∧ NotStuck s) ↔ ∀ p ∈ h, ReadsCommand sourceType p.1 p.2 :=
  run.safe_iff (P := fun s => Accounted s ∧ OnePerSession s)
    ⟨accounted_initial, onePerSession_initial⟩ notStuck_initial
    (fun hs hstep => ⟨hs.1.step hstep, hs.2.step hs.1 hstep⟩) notStuck_step_iff

theorem notStuck_iff_oneQuery :
    ∃ r, Transition.exec (step Cxx.decimal .gpredict (exactCorrection 1000)) initial
        [.accept true, .read 0 (some ['f', '\n']), .write 0 true] = some r ∧ r.1.length = 3 ∧
      (((∀ p ∈ r.1, NotStuck p.1) ∧ NotStuck r.2) ↔
        ∀ p ∈ r.1, ReadsCommand .gpredict p.1 p.2) := by
  obtain ⟨r, hr, hlength⟩ : ∃ r, Transition.exec (step Cxx.decimal .gpredict
      (exactCorrection 1000)) initial [.accept true, .read 0 (some ['f', '\n']), .write 0 true] =
        some r ∧ r.1.length = 3 := ⟨_, rfl, rfl⟩
  exact ⟨r, hr, hlength, notStuck_iff (Transition.exec_run hr)⟩

/-- A client of a GPREDICT server asks for its position. -/
theorem notStuck_fails_unrecognised :
    ∃ (h : List (State Int × Event)) (s : State Int),
      Run Cxx.decimal .gpredict (exactCorrection 1000) h s ∧ ¬ NotStuck s := by
  obtain ⟨r, hr, hno, c, hc, hbusy⟩ :
      ∃ r, Transition.exec (step Cxx.decimal .gpredict (exactCorrection 1000)) initial
          [.accept true, .read 0 (some ['p', '\n'])] = some r ∧
        r.2.exitRequested = false ∧ ∃ c, r.2.client? 0 = some c ∧ r.2.busy = [] :=
    ⟨_, rfl, rfl, _, rfl, rfl⟩
  refine ⟨r.1, r.2, Transition.exec_run hr, fun hstuck => ?_⟩
  have hmem := hstuck hno c (client?_some hc).1
  rw [hbusy] at hmem
  cases hmem

end Doppler

end GsSDR
