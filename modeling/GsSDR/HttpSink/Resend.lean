import GsSDR.HttpSink.Invariant

/-!
# Which packets the HTTP sink sends again

A retry starts at the front of the batch, so it posts every packet of the batch
that it gets to, accepted ones included.  A batch is kept when the last answer
of a pass is not 200.  So no accepted packet is posted again as long as no pass
gets a 200 and then ends on another answer (`noResend`).  After a pass that
does, the accepted packet is posted again as soon as a retry gets to it
(`resend_follows`).
-/

namespace GsSDR

namespace HttpSink

/-- Nothing that has been answered with 200 is posted afterwards. -/
def NoResend (log : List Exchange) : Prop :=
  log.Pairwise fun a b => ∀ p, a = .answer p 200 → b ≠ .post p

/-- If this event ends a pass whose last answer was not 200, then no answer of
the pass was 200. -/
def KeepsNothingAccepted (s : State) (e : Event) : Prop :=
  e.endsAttempt = true → s.statuses.getLast? ≠ some 200 → 200 ∉ s.statuses

/-- Where the accepted packets of the batch can be: behind the worker in this
pass, or in a batch that is given up. -/
structure Settled (s : State) : Prop where
  log : NoResend s.log
  taken : ∀ p, Answered s.log p → p ∈ s.taken
  passed : s.pc.sending = true → ∀ (j : Nat) (p : Packet), s.batch[j]? = some p →
    Answered s.log p → s.statuses[j]? = some 200
  givenUp : s.pc.sending = false → ∀ p ∈ s.batch, Answered s.log p → s.dataSentSuccess = true

theorem noResend_post {log : List Exchange} {p : Packet} (h : NoResend log)
    (hp : ¬ Answered log p) : NoResend (log ++ [.post p]) := by
  refine List.pairwise_append.mpr ⟨h, List.pairwise_singleton _ _, ?_⟩
  intro a ha b hb q haq
  rw [List.mem_singleton.mp hb]
  rintro ⟨⟩
  exact hp (by rw [Answered, ← haq]; exact ha)

theorem noResend_answer {log : List Exchange} {p : Packet} {status : Nat} (h : NoResend log) :
    NoResend (log ++ [.answer p status]) := by
  refine List.pairwise_append.mpr ⟨h, List.pairwise_singleton _ _, ?_⟩
  intro a _ b hb q _
  rw [List.mem_singleton.mp hb]
  rintro ⟨⟩

@[simp] theorem answered_post (log : List Exchange) (p q : Packet) :
    Answered (log ++ [.post p]) q ↔ Answered log q := by
  simp [Answered]

theorem answered_answer {log : List Exchange} {p q : Packet} {status : Nat} :
    Answered (log ++ [.answer p status]) q ↔ Answered log q ∨ (q = p ∧ status = 200) := by
  simp only [Answered, List.mem_append, List.mem_singleton, Exchange.answer.injEq]
  constructor
  · rintro (h | ⟨h1, h2⟩)
    · exact .inl h
    · exact .inr ⟨h1, h2.symm⟩
  · rintro (h | ⟨h1, h2⟩)
    · exact .inl h
    · exact .inr ⟨h1, h2.symm⟩

theorem settled_initial : Settled initial where
  log := List.Pairwise.nil
  taken := by intro p hp; cases hp
  passed := by intro h; cases h
  givenUp := by intro _ p hp; cases hp

/-- A packet that the worker is about to send has not been accepted. -/
theorem Settled.not_answered {s : State} {i : Nat} {p : Packet} (c : Consistent s)
    (h : Settled s) (hpc : s.pc = .write i ∨ s.pc = .read i)
    (hp : s.bufferWriteStorage[i]? = some p) : s.batch[i]? = some p ∧ ¬ Answered s.log p := by
  have hs : s.pc.sending = true := by rcases hpc with h | h <;> rw [h] <;> rfl
  have hi : i < s.niutputItemsReal := by
    have hindex := c.index
    rcases hpc with h | h <;> rw [h] at hindex <;> exact hindex
  have hlen : s.statuses.length = i := by
    have hcount := c.count hs
    rcases hpc with h | h <;> rw [h] at hcount <;> exact hcount
  have hbatch : s.batch[i]? = some p := by rw [batch_getElem? hi, hp]
  refine ⟨hbatch, fun ha => ?_⟩
  have hnone : s.statuses[i]? = none := List.getElem?_eq_none (Nat.le_of_eq hlen)
  rw [h.passed hs i p hbatch ha] at hnone
  cases hnone

/-- Moves inside the `try` block that send nothing. -/
theorem Settled.move {s t : State} (h : Settled s) (hs : s.pc.sending = true)
    (hlog : t.log = s.log) (htaken : t.taken = s.taken) (hbatch : t.batch = s.batch)
    (hst : t.statuses = s.statuses) (ht : t.pc.sending = true) : Settled t where
  log := by rw [hlog]; exact h.log
  taken := by rw [hlog, htaken]; exact h.taken
  passed := by
    intro _
    rw [hbatch, hlog, hst]
    exact h.passed hs
  givenUp := by
    intro hn
    rw [ht] at hn
    cases hn

/-- Moves outside the `try` block. -/
theorem Settled.idle {s t : State} (h : Settled s) (hs : s.pc.sending = false)
    (hlog : t.log = s.log) (htaken : t.taken = s.taken) (hbatch : t.batch = s.batch)
    (hflag : t.dataSentSuccess = s.dataSentSuccess) (ht : t.pc.sending = false) : Settled t where
  log := by rw [hlog]; exact h.log
  taken := by rw [hlog, htaken]; exact h.taken
  passed := by
    intro hn
    rw [ht] at hn
    cases hn
  givenUp := by
    intro _
    rw [hbatch, hlog, hflag]
    exact h.givenUp hs

/-- At the end of a pass that keeps nothing accepted, the accepted packets of
the batch are in a batch that is given up. -/
theorem Settled.ended {s t : State} {e : Event} (c : Consistent s) (h : Settled s)
    (hs : s.pc.sending = true) (he : e.endsAttempt = true) (hcond : KeepsNothingAccepted s e)
    (hlog : NoResend t.log) (hans : ∀ p, Answered t.log p ↔ Answered s.log p)
    (htaken : t.taken = s.taken) (hbatch : t.batch = s.batch)
    (hflag : t.dataSentSuccess = s.dataSentSuccess) (hsleep : t.pc = .sleep) : Settled t where
  log := hlog
  taken := by
    intro p hp
    rw [htaken]
    exact h.taken p ((hans p).mp hp)
  passed := by
    intro hn
    rw [hsleep] at hn
    cases hn
  givenUp := by
    intro _ p hp ha
    rw [hbatch] at hp
    obtain ⟨j, hj⟩ := List.mem_iff_getElem?.mp hp
    have hmem : 200 ∈ s.statuses :=
      List.mem_of_getElem? (h.passed hs j p hj ((hans p).mp ha))
    have hlast : s.statuses.getLast? = some 200 := by
      by_contra hne
      exact hcond he hne hmem
    rw [hflag, c.flag hs]
    exact verdict_eq_true.mpr (.inl hlast)

theorem Settled.beginPass {s : State} (c : Consistent s) (h : Settled s)
    (hpc : s.pc = .loopTop) : Settled (beginPass s) := by
  have hidle : s.pc.sending = false := by rw [hpc]; rfl
  have hlog := beginPass_log s
  have hfresh : ∀ p ∈ (HttpSink.beginPass s).batch, Answered s.log p →
      s.dataSentSuccess = true ∧ p ∈ s.fifo.queue → False := by
    rintro p _ ha ⟨_, hq⟩
    exact c.inOrder.queue_not_taken hq (h.taken p ha)
  cases hflag : s.dataSentSuccess with
  | true =>
      obtain ⟨hbatch, htaken, _⟩ := beginPass_batch hflag
      have hnone : ∀ p ∈ (HttpSink.beginPass s).batch, ¬ Answered s.log p := by
        intro p hp ha
        exact hfresh p hp ha ⟨hflag, List.mem_of_mem_take (hbatch ▸ hp)⟩
      refine ⟨hlog ▸ h.log, ?_, ?_, ?_⟩
      · intro p hp
        rw [htaken]
        exact List.mem_append_left _ (h.taken p (hlog ▸ hp))
      · intro _ j p hj ha
        exact absurd (hlog ▸ ha) (hnone p (List.mem_of_getElem? hj))
      · intro _ p hp ha
        exact absurd (hlog ▸ ha) (hnone p hp)
  | false =>
      obtain ⟨hbatch, htaken⟩ := beginPass_retry hflag
      have hnone : ∀ p ∈ s.batch, ¬ Answered s.log p := by
        intro p hp ha
        have := h.givenUp hidle p hp ha
        rw [hflag] at this
        cases this
      refine ⟨hlog ▸ h.log, ?_, ?_, ?_⟩
      · intro p hp
        rw [htaken]
        exact h.taken p (hlog ▸ hp)
      · intro _ j p hj ha
        rw [hbatch] at hj
        exact absurd (hlog ▸ ha) (hnone p (List.mem_of_getElem? hj))
      · intro _ p hp ha
        rw [hbatch] at hp
        exact absurd (hlog ▸ ha) (hnone p hp)

/-- The answer to a packet that has not been accepted before. -/
theorem Settled.readAnswer {s : State} {i : Nat} {p : Packet} (c : Consistent s)
    (h : Settled s) (hpc : s.pc = .read i) (hp : s.bufferWriteStorage[i]? = some p)
    (status : Nat) : Settled (readAnswer s i p status) := by
  obtain ⟨hbatch, _⟩ := h.not_answered c (.inr hpc) hp
  have hs : s.pc.sending = true := by rw [hpc]; rfl
  have hlen : s.statuses.length = i := by
    have hcount := c.count hs
    rw [hpc] at hcount
    exact hcount
  refine ⟨noResend_answer h.log, ?_, ?_, ?_⟩
  · intro q hq
    rcases answered_answer.mp hq with hq | ⟨rfl, _⟩
    · exact h.taken q hq
    · exact c.batch_subset (List.mem_of_getElem? hbatch)
  · intro _ j q hj ha
    change s.batch[j]? = some q at hj
    change (s.statuses ++ [status])[j]? = some 200
    rcases answered_answer.mp ha with ha | ⟨rfl, rfl⟩
    · have hold := h.passed hs j q hj ha
      have hlt : j < s.statuses.length := (List.getElem?_eq_some_iff.mp hold).1
      rw [List.getElem?_append_left hlt]
      exact hold
    · have hij : j = i := by
        have hjlt : j < s.batch.length := (List.getElem?_eq_some_iff.mp hj).1
        exact (List.getElem?_inj hjlt c.batch_nodup).mp (hj.trans hbatch.symm)
      rw [hij, ← hlen, List.getElem?_concat_length]
  · intro hn
    have hsend := forTest_sending s (i + 1)
    change (forTest s (i + 1)).sending = false at hn
    rw [hsend] at hn
    cases hn

/-- A step that keeps nothing accepted posts nothing accepted. -/
theorem Settled.step {s t : State} {e : Event} (c : Consistent s) (h : Settled s)
    (hcond : KeepsNothingAccepted s e) (hstep : HttpSink.step s e = some t) : Settled t := by
  cases step_sound hstep with
  | packetHandler storage => exact ⟨h.log, h.taken, h.passed, h.givenUp⟩
  | stop => exact ⟨h.log, h.taken, h.passed, h.givenUp⟩
  | enter hpc =>
      exact h.idle (by rw [hpc]; rfl) rfl rfl rfl rfl (exitTest_not_sending s)
  | pass hpc => exact h.beginPass c hpc
  | connected hpc =>
      exact h.move (by rw [hpc]; rfl) rfl rfl rfl rfl (forTest_sending s 0)
  | posted i p hpc hp =>
      have hs : s.pc.sending = true := by rw [hpc]; rfl
      obtain ⟨_, hnew⟩ := h.not_answered c (.inl hpc) hp
      refine ⟨noResend_post h.log hnew, ?_, ?_, ?_⟩
      · intro q hq
        exact h.taken q ((answered_post _ _ _).mp hq)
      · intro _ j q hj ha
        exact h.passed hs j q hj ((answered_post _ _ _).mp ha)
      · intro hn
        cases hn
  | answered i p status hpc hp => exact h.readAnswer c hpc hp status
  | writeThrew i p hpc hp =>
      obtain ⟨_, hnew⟩ := h.not_answered c (.inl hpc) hp
      exact h.ended c (by rw [hpc]; rfl) rfl hcond (noResend_post h.log hnew)
        (answered_post _ _) rfl rfl rfl rfl
  | ended _ hs he _ =>
      exact h.ended c hs he hcond h.log (fun _ => Iff.rfl) rfl rfl rfl rfl
  | wake hpc =>
      exact h.idle (by rw [hpc]; rfl) rfl rfl rfl rfl (exitTest_not_sending s)

/-! ## What a kept batch leads to -/

/-- The answers of a pass are in the log, each to the packet of its place. -/
def Recorded (s : State) : Prop :=
  s.pc.sending = true → ∀ (j : Nat) (p : Packet) (status : Nat), s.batch[j]? = some p →
    s.statuses[j]? = some status → Exchange.answer p status ∈ s.log

/-- A state whose pass has got no answer records nothing. -/
theorem Recorded.of_nil {s : State} (h : s.statuses = []) : Recorded s := by
  intro _ j p status _ hst
  rw [h] at hst
  cases hst

theorem Recorded.of_idle {s : State} (h : s.pc.sending = false) : Recorded s := by
  intro hs
  rw [h] at hs
  cases hs

theorem Recorded.step {s t : State} {e : Event} (c : Consistent s) (h : Recorded s)
    (hstep : HttpSink.step s e = some t) : Recorded t := by
  cases step_sound hstep with
  | packetHandler storage => exact h
  | stop => exact h
  | enter _ => exact .of_idle (exitTest_not_sending s)
  | pass _ =>
      refine .of_nil ?_
      rw [beginPass]
      split <;> rfl
  | connected hpc =>
      have hs : s.pc.sending = true := by rw [hpc]; rfl
      intro _
      exact h hs
  | posted i p hpc _ =>
      have hs : s.pc.sending = true := by rw [hpc]; rfl
      intro _ j q status hj hst
      exact List.mem_append_left _ (h hs j q status hj hst)
  | answered i p status hpc hp =>
      have hs : s.pc.sending = true := by rw [hpc]; rfl
      have hcount := c.count hs
      have hindex := c.index
      rw [hpc] at hcount hindex
      intro _ j q status' hj hst
      change s.batch[j]? = some q at hj
      change (s.statuses ++ [status])[j]? = some status' at hst
      by_cases hlt : j < s.statuses.length
      · rw [List.getElem?_append_left hlt] at hst
        exact List.mem_append_left _ (h hs j q status' hj hst)
      · have hjlt := (List.getElem?_eq_some_iff.mp hst).1
        simp only [List.length_append, List.length_singleton] at hjlt
        have hji : j = s.statuses.length := by omega
        rw [hji, List.getElem?_concat_length] at hst
        cases hst
        rw [hji, hcount, Pc.answers, batch_getElem? hindex, hp] at hj
        cases hj
        exact List.mem_append_right _ (List.mem_singleton.mpr rfl)
  | writeThrew i p _ _ => exact .of_idle rfl
  | ended _ _ _ _ => exact .of_idle rfl
  | wake _ => exact .of_idle (exitTest_not_sending s)

/-- A worker that connects can get to every packet of its batch, with calls of its
own. -/
theorem reaches {s : State} (hpc : s.pc = .connect)
    (hfits : s.niutputItemsReal ≤ s.bufferWriteStorage.length) :
    ∀ {i : Nat}, i < s.niutputItemsReal →
      ∃ (h : List (State × Event)) (t : State), Transition.Run step s h t ∧
        (∀ p ∈ h, p.2 ≠ .threadTransferDeInit) ∧ t.pc = .write i ∧
        t.bufferWriteStorage = s.bufferWriteStorage ∧
        t.niutputItemsReal = s.niutputItemsReal ∧ ∀ x ∈ s.log, x ∈ t.log
  | 0, hi => by
      have hconnect : step s (.connect true) = some { s with pc := .write 0 } := by
        simp [step, hpc, forTest, hi]
      exact ⟨_, _, Transition.Run.nil.snoc hconnect, by simp, rfl, rfl, rfl, fun _ hx => hx⟩
  | i + 1, hi => by
      obtain ⟨h, t, run, hown, htpc, hbuf, hitems, hlog⟩ :=
        reaches hpc hfits (Nat.lt_of_succ_lt hi)
      obtain ⟨p, hp⟩ : ∃ p, t.bufferWriteStorage[i]? = some p :=
        ⟨_, List.getElem?_eq_getElem (by rw [hbuf]; omega)⟩
      have hwrite : step t (.write true) =
          some { t with pc := .read i, log := t.log ++ [.post p] } := by
        simp [step, htpc, hp]
      have hread : step { t with pc := .read i, log := t.log ++ [.post p] } (.read (some 200)) =
          some (readAnswer { t with pc := .read i, log := t.log ++ [.post p] } i p 200) := by
        simp [step, hp]
      refine ⟨_, _, (run.snoc hwrite).snoc hread, ?_, ?_, hbuf, hitems, fun x hx => ?_⟩
      · intro q hq
        simp only [List.mem_append, List.mem_singleton] at hq
        rcases hq with (hq | rfl) | rfl
        · exact hown q hq
        · simp
        · simp
      · simp [readAnswer, forTest, hitems, hi]
      · simp [readAnswer, hlog x hx]

/-- One that keeps its batch and is not stopped can get to every packet of the
batch again. -/
theorem reaches_again {s : State} (hpc : s.pc = .sleep) (hexit : s.exitRequested = false)
    (hflag : s.dataSentSuccess = false) (hfits : s.niutputItemsReal ≤ s.bufferWriteStorage.length)
    {i : Nat} (hi : i < s.niutputItemsReal) :
    ∃ (h : List (State × Event)) (t : State), Transition.Run step s h t ∧ t.pc = .write i ∧
      t.bufferWriteStorage = s.bufferWriteStorage ∧ ∀ x ∈ s.log, x ∈ t.log := by
  have hpos : 0 < s.niutputItemsReal := Nat.lt_of_le_of_lt (Nat.zero_le i) hi
  have hwake : step s .wake = some { s with pc := .loopTop } := by
    simp [step, hpc, exitTest, hexit]
  have hpass : step { s with pc := .loopTop } .pass =
      some { s with pc := .connect, fresh := false, statuses := [] } := by
    simp [step, beginPass, hflag, hpos]
  obtain ⟨h, t, run, _, htpc, hbuf, _, hlog⟩ :=
    reaches (s := { s with pc := .connect, fresh := false, statuses := [] }) rfl hfits hi
  exact ⟨_, t, ((Transition.Run.nil.snoc hwake).snoc hpass).trans run, htpc, hbuf, hlog⟩

/-- Where the condition fails, an accepted packet is kept, and without a stop
the run can go on to post it again. -/
theorem resend_follows {s t : State} {e : Event} (c : Consistent s) (r : Recorded s)
    (hexit : s.exitRequested = false) (hstep : step s e = some t)
    (hbad : ¬ KeepsNothingAccepted s e) :
    ∃ (h : List (State × Event)) (u : State), Transition.Run step t h u ∧ ¬ NoResend u.log := by
  simp only [KeepsNothingAccepted, not_forall, not_not] at hbad
  obtain ⟨he, hlast, hmem⟩ := hbad
  obtain ⟨j, hj⟩ := List.mem_iff_getElem?.mp hmem
  have hverdict : verdict s.fresh s.statuses = false := by
    rw [← Bool.not_eq_true, verdict_eq_true]
    rintro (h | ⟨h, _⟩)
    · exact hlast h
    · rw [h] at hmem
      cases hmem
  -- what the end of the pass leaves: everything as it is, and the worker asleep
  have hend : s.pc.sending = true ∧ t.pc = .sleep ∧ t.exitRequested = s.exitRequested ∧
      t.dataSentSuccess = s.dataSentSuccess ∧ t.niutputItemsReal = s.niutputItemsReal ∧
      t.bufferWriteStorage = s.bufferWriteStorage ∧ ∀ x ∈ s.log, x ∈ t.log := by
    cases step_sound hstep with
    | writeThrew i p hpc _ =>
        exact ⟨by rw [hpc]; rfl, rfl, rfl, rfl, rfl, rfl, fun _ hx => List.mem_append_left _ hx⟩
    | ended _ hs _ _ => exact ⟨hs, rfl, rfl, rfl, rfl, rfl, fun _ hx => hx⟩
    | packetHandler storage => cases he
    | stop => cases he
    | enter _ => cases he
    | pass _ => cases he
    | connected _ => cases he
    | posted i p _ _ => cases he
    | answered i p status _ _ => cases he
    | wake _ => cases he
  obtain ⟨hs, hsleep, hexit', hflag, hitems, hbuf, hlog⟩ := hend
  have hjlt : j < s.niutputItemsReal := by
    have hcount := c.count hs
    have hjlen := (List.getElem?_eq_some_iff.mp hj).1
    have hle : s.pc.answers s.niutputItemsReal ≤ s.niutputItemsReal := by
      have hindex := c.index
      cases hpc : s.pc with
      | write i => rw [hpc] at hindex; exact Nat.le_of_lt hindex
      | read i => rw [hpc] at hindex; exact Nat.le_of_lt hindex
      | shutdown => exact Nat.le_refl _
      | _ => exact Nat.zero_le _
    omega
  obtain ⟨p, hp⟩ : ∃ p, s.bufferWriteStorage[j]? = some p :=
    ⟨_, List.getElem?_eq_getElem (Nat.lt_of_lt_of_le hjlt c.fits)⟩
  have hans : Exchange.answer p 200 ∈ t.log :=
    hlog _ (r hs j p 200 (by rw [batch_getElem? hjlt, hp]) hj)
  obtain ⟨h, u, run, hupc, hubuf, hulog⟩ :=
    reaches_again hsleep (hexit'.trans hexit) (by rw [hflag, c.flag hs, hverdict])
      (by rw [hitems, hbuf]; exact c.fits) (hitems ▸ hjlt)
  have hwrite : step u (.write true) =
      some { u with pc := .read j, log := u.log ++ [.post p] } := by
    simp [step, hupc, hubuf, hbuf, hp]
  refine ⟨_, _, run.snoc hwrite, fun hnone => ?_⟩
  have hcross := (List.pairwise_append.mp hnone).2.2 _ (hulog _ hans) (.post p) (by simp)
  exact hcross p rfl rfl

theorem recorded_initial : Recorded initial := .of_idle rfl

/-- In every run whose passes keep nothing accepted, no accepted packet is
posted again; and from every other end of a pass, unless a stop has been
requested, the run can go on to post one again. -/
theorem noResend {h : List (State × Event)} {s : State} (run : Run h s) :
    ((∀ p ∈ h, KeepsNothingAccepted p.1 p.2) → NoResend s.log) ∧
      ∀ (e : Event) (t : State), step s e = some t → s.exitRequested = false →
        ¬ KeepsNothingAccepted s e →
        ∃ (h' : List (State × Event)) (u : State),
          Transition.Run step t h' u ∧ ¬ NoResend u.log := by
  constructor
  · intro hcond
    have hboth := Transition.Run.invariant_of (P := fun s => Consistent s ∧ Settled s)
      ⟨consistent_initial, settled_initial⟩
      (fun hcs hc hstep => ⟨hcs.1.step hstep, hcs.2.step hcs.1 hc hstep⟩) run hcond
    exact hboth.2.log
  · intro e t hstep hexit hbad
    have hboth := Transition.Run.invariant (P := fun s => Consistent s ∧ Recorded s)
      ⟨consistent_initial, recorded_initial⟩
      (fun hcr hstep => ⟨hcr.1.step hstep, hcr.2.step hcr.1 hstep⟩) run
    exact resend_follows hboth.1 hboth.2 hexit hstep hbad

/-- Two packets, the first accepted and the second refused, up to the end of the
pass. -/
def acceptedThenRefused : List Event :=
  [.enter, .packetHandler ⟨0, ['a']⟩, .packetHandler ⟨0, ['b']⟩, .pass, .connect true,
    .write true, .read (some 200), .write true, .read (some 500)]

theorem noResend_acceptedThenRefused :
    ∃ (h : List (State × Event)) (s : State), h.length = 9 ∧ s.pc = .shutdown ∧
      (((∀ p ∈ h, KeepsNothingAccepted p.1 p.2) → NoResend s.log) ∧
        ∀ (e : Event) (t : State), step s e = some t → s.exitRequested = false →
          ¬ KeepsNothingAccepted s e →
          ∃ (h' : List (State × Event)) (u : State),
            Transition.Run step t h' u ∧ ¬ NoResend u.log) := by
  obtain ⟨r, hr, hlen, hpc⟩ :
      ∃ r, Transition.exec step initial acceptedThenRefused = some r ∧ r.1.length = 9 ∧
        r.2.pc = .shutdown :=
    ⟨_, rfl, rfl, rfl⟩
  exact ⟨r.1, r.2, hlen, hpc, noResend (Transition.exec_run hr)⟩

/-- The pass of `acceptedThenRefused` ends, and the retry posts the accepted
packet first. -/
theorem noResend_fails_refused : ¬ ∀ h s, Run h s → NoResend s.log := by
  intro hall
  obtain ⟨r, hr, hlog⟩ :
      ∃ r, Transition.exec step initial
          (acceptedThenRefused ++ [.shutdown true, .wake, .pass, .connect true, .write true]) =
            some r ∧
        r.2.log = [.post ⟨0, ⟨0, ['a']⟩⟩, .answer ⟨0, ⟨0, ['a']⟩⟩ 200, .post ⟨1, ⟨0, ['b']⟩⟩,
          .answer ⟨1, ⟨0, ['b']⟩⟩ 500, .post ⟨0, ⟨0, ['a']⟩⟩] :=
    ⟨_, rfl, rfl⟩
  have hnone := hall _ _ (Transition.exec_run hr)
  rw [hlog] at hnone
  simp [NoResend] at hnone

end HttpSink

end GsSDR
