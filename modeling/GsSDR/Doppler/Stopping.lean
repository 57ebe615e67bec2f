import GsSDR.Doppler.Accounting

/-!
# Whether a stop is noticed

Nothing wakes the loop when a stop is requested.  It is noticed by the next
handler that tests the flag, and without traffic of the clients that is the
handler of a timer.  The timer of a session is armed when a read is started and
not again when it expires, and the timer of the server is not armed again when
it expires while a session is counted.  So the loop is left without a timer
that notices a stop as soon as the last armed timer of a session is gone, by its
expiry or with its session, while sessions remain.
-/

namespace GsSDR

namespace Doppler

variable {β : Type*} {lexicalCast : Cxx.Str → Option Int} {sourceType : SourceType}
  {correction : Int → β} {h : List (State β × Event)} {s t : State β} {e : Event} {c d : Client}

/-- Something is left to run. -/
def Working (s : State β) : Prop :=
  s.accepting = true ∨ s.outstanding ≠ [] ∨ 0 < s.cancelled ∨ s.timerArmed = true ∨
    ∃ c ∈ s.clients, c.timerArmed = true

/-- `io_service::run` has not returned. -/
def Running (s : State β) : Prop := s.stopped = false ∧ Working s

def Event.isTimer : Event → Bool
  | .sessionTimeout _ | .serverTimeout => true
  | _ => false

/-- While the loop runs, a timer is armed whose expiry stops the loop if a stop
has been requested. -/
def StopNoticed (lexicalCast : Cxx.Str → Option Int) (sourceType : SourceType)
    (correction : Int → β) (s : State β) : Prop :=
  Running s → ∃ e t, e.isTimer = true ∧
    step lexicalCast sourceType correction s.threadTransferDeInit e = some t ∧
    t.stopped = true

/-- The timer of a session is armed, or that of the server while no session is
counted. -/
def Watched (s : State β) : Prop :=
  (∃ c ∈ s.clients, c.timerArmed = true) ∨ (s.timerArmed = true ∧ s.count = 0)

theorem sessionTimeout_halts (hstopped : s.stopped = false) (hc : c ∈ s.clients)
    (harmed : c.timerArmed = true) :
    ∃ t, step lexicalCast sourceType correction s.threadTransferDeInit (.sessionTimeout c.id) =
      some t ∧ t.stopped = true := by
  obtain ⟨d, hd⟩ : ∃ d, s.threadTransferDeInit.client? c.id = some d :=
    Option.isSome_iff_exists.mp (List.find?_isSome.mpr ⟨c, hc, by simp⟩)
  refine ⟨s.threadTransferDeInit.sessionTimeout d, ?_, rfl⟩
  rw [step.eq_def, if_pos ⟨hstopped, c, hc, rfl, harmed⟩]
  show (s.threadTransferDeInit.client? c.id).map _ = _
  rw [hd]
  rfl

theorem serverTimeout_halts (hstopped : s.stopped = false) (harmed : s.timerArmed = true)
    (hcount : s.count = 0) :
    ∃ t, step lexicalCast sourceType correction s.threadTransferDeInit .serverTimeout = some t ∧
      t.stopped = true := by
  refine ⟨s.threadTransferDeInit.serverTimeout, if_pos ⟨hstopped, harmed⟩, ?_⟩
  have hnone : ¬ 0 < s.threadTransferDeInit.count := Nat.not_lt.mpr (Nat.le_of_eq hcount)
  rw [State.serverTimeout, if_neg hnone]
  rfl

theorem stopNoticed_iff :
    StopNoticed lexicalCast sourceType correction s ↔ (Running s → Watched s) := by
  refine imp_congr_right fun hrunning => ?_
  constructor
  · rintro ⟨e, t, htimer, hstep, ht⟩
    cases step_sound hstep with
    | accepted => cases htimer
    | read => cases htimer
    | written => cases htimer
    | cancelled => cases htimer
    | threadTransferDeInit => cases htimer
    | sessionTimeout _ _ harmed =>
        obtain ⟨d, hd, _, harmed⟩ := harmed
        exact .inl ⟨d, hd, harmed⟩
    | serverTimeout _ harmed =>
        refine .inr ⟨harmed, ?_⟩
        by_contra hcount
        have hsome : 0 < s.threadTransferDeInit.count := Nat.pos_of_ne_zero hcount
        rw [State.serverTimeout, if_pos hsome] at ht
        exact absurd (hrunning.1.symm.trans ht) Bool.false_ne_true
  · rintro (⟨c, hc, harmed⟩ | ⟨harmed, hcount⟩)
    · obtain ⟨t, hstep, ht⟩ := sessionTimeout_halts hrunning.1 hc harmed
      exact ⟨_, t, rfl, hstep, ht⟩
    · obtain ⟨t, hstep, ht⟩ := serverTimeout_halts hrunning.1 harmed hcount
      exact ⟨_, t, rfl, hstep, ht⟩

/-! ## The turns that leave the loop without a timer -/

/-- The timer of another session is armed. -/
def OthersArmed (s : State β) (id : Nat) : Prop :=
  ∃ c ∈ s.clients, c.id ≠ id ∧ c.timerArmed = true

/-- Nothing is left to run but timers of sessions. -/
def Idle (s : State β) : Prop :=
  s.accepting = false ∧ s.outstanding = [] ∧ s.cancelled = 0 ∧ s.timerArmed = false

/-- Without a stop requested, the timer of a session expires only while another
one is armed or nothing else is left to run, and a session is deleted only while
the timer of another one is armed, or the timer of the server for the last
session. -/
def KeepsTimer (s : State β) (e : Event) : Prop :=
  s.exitRequested = false →
    match e with
    | .sessionTimeout id => OthersArmed s id ∨ Idle s
    | .read id none => OthersArmed s id ∨ (s.timerArmed = true ∧ s.count = 1)
    | .write id false => OthersArmed s id ∨ (s.timerArmed = true ∧ s.count = 1)
    | _ => True

theorem watched_setClient (hs : Accounted s) (hc : c ∈ s.clients) (hid : d.id = c.id)
    (harmed : d.timerArmed = c.timerArmed) (hw : Watched s) : Watched (s.setClient d) := by
  rcases hw with ⟨b, hb, hbarmed⟩ | hserver
  · by_cases hbc : b.id = c.id
    · have hbc' := hs.eq_of_id hb hc hbc
      refine .inl ⟨d, (mem_setClient ⟨c, hc, hid.symm⟩).mpr (.inl rfl), ?_⟩
      rw [harmed, ← hbc', hbarmed]
    · refine .inl ⟨b, (mem_setClient ⟨c, hc, hid.symm⟩).mpr (.inr ⟨hb, ?_⟩), hbarmed⟩
      rwa [hid]
  · exact .inr hserver

theorem watched_start (hc : c ∈ s.clients) : Watched (s.start c) :=
  .inl ⟨{ c with timerArmed := true },
    (mem_setClient (s := s) (c := { c with timerArmed := true }) ⟨c, hc, rfl⟩).mpr (.inl rfl), rfl⟩

theorem watched_disarm (hs : Accounted s) (hc : c ∈ s.clients) :
    Watched (s.setClient { c with timerArmed := false }) ↔ OthersArmed s c.id := by
  have hmem := fun b => mem_setClient (d := b) (c := { c with timerArmed := false }) ⟨c, hc, rfl⟩
  constructor
  · rintro (⟨b, hb, harmed⟩ | ⟨_, hcount⟩)
    · rcases (hmem b).mp hb with rfl | ⟨hb, hne⟩
      · cases harmed
      · exact ⟨b, hb, hne, harmed⟩
    · have hpos := List.length_pos_of_mem hc
      rw [← hs.count] at hpos
      exact absurd hcount (Nat.ne_of_gt hpos)
  · rintro ⟨b, hb, hne, harmed⟩
    exact .inl ⟨b, (hmem b).mpr (.inr ⟨hb, hne⟩), harmed⟩

/-- Behind the deletion of a session. -/
theorem watched_release (hs : Accounted s) (hc : c ∈ s.clients) :
    Watched (s.release c) ↔ OthersArmed s c.id ∨ (s.timerArmed = true ∧ s.count = 1) := by
  have hpos := List.length_pos_of_mem hc
  rw [← hs.count] at hpos
  have hcount : s.count - 1 = 0 ↔ s.count = 1 := by omega
  constructor
  · rintro (⟨b, hb, harmed⟩ | ⟨hserver, hzero⟩)
    · obtain ⟨hb, hne⟩ := mem_release.mp hb
      exact .inl ⟨b, hb, hne, harmed⟩
    · exact .inr ⟨hserver, hcount.mp hzero⟩
  · rintro (⟨b, hb, hne, harmed⟩ | ⟨hserver, hone⟩)
    · exact .inl ⟨b, mem_release.mpr ⟨hb, hne⟩, harmed⟩
    · exact .inr ⟨hserver, hcount.mpr hone⟩

/-- A deletion in a watched state leaves something to run, because the wait it
cancels is still to be handled. -/
theorem running_release (hs : Accounted s) (hc : c ∈ s.clients) (hstopped : s.stopped = false)
    (hw : Watched s) : Running (s.release c) := by
  refine ⟨hstopped, ?_⟩
  rcases hw with ⟨b, hb, harmed⟩ | ⟨hserver, _⟩
  · by_cases hbc : b.id = c.id
    · have hbc' := hs.eq_of_id hb hc hbc
      refine .inr (.inr (.inl ?_))
      show 0 < s.cancelled + c.timerArmed.toNat
      rw [← hbc', harmed]
      exact Nat.succ_pos _
    · exact .inr (.inr (.inr (.inr ⟨b, mem_release.mpr ⟨hb, hbc⟩, harmed⟩)))
  · exact .inr (.inr (.inr (.inl hserver)))

theorem running_disarm (hc : c ∈ s.clients) (hstopped : s.stopped = false)
    (hothers : ¬ OthersArmed s c.id) :
    Running (s.setClient { c with timerArmed := false }) ↔ ¬ Idle s := by
  have hmem := fun b => mem_setClient (d := b) (c := { c with timerArmed := false }) ⟨c, hc, rfl⟩
  constructor
  · rintro ⟨_, hworking⟩ ⟨haccept, houtstanding, hcancelled, hserver⟩
    rcases hworking with h | h | h | h | ⟨b, hb, harmed⟩
    · exact absurd (haccept.symm.trans h) Bool.false_ne_true
    · exact h houtstanding
    · exact absurd hcancelled (Nat.ne_of_gt h)
    · exact absurd (hserver.symm.trans h) Bool.false_ne_true
    · rcases (hmem b).mp hb with rfl | ⟨hb, hne⟩
      · cases harmed
      · exact hothers ⟨b, hb, hne, harmed⟩
  · intro hidle
    refine ⟨hstopped, ?_⟩
    by_contra hnot
    obtain ⟨haccept, hnot⟩ := not_or.mp hnot
    obtain ⟨houtstanding, hnot⟩ := not_or.mp hnot
    obtain ⟨hcancelled, hnot⟩ := not_or.mp hnot
    obtain ⟨hserver, _⟩ := not_or.mp hnot
    exact hidle ⟨Bool.not_eq_true _ ▸ haccept, Classical.not_not.mp houtstanding,
      Nat.eq_zero_of_not_pos hcancelled, Bool.not_eq_true _ ▸ hserver⟩

theorem release_iff (hs : Accounted s) (hc : c ∈ s.clients) (hstopped : s.stopped = false)
    (hw : Watched s) :
    (Running (s.release c) → Watched (s.release c)) ↔
      OthersArmed s c.id ∨ (s.timerArmed = true ∧ s.count = 1) := by
  rw [watched_release hs hc]
  constructor
  · intro h
    exact h (running_release hs hc hstopped hw)
  · intro h _
    exact h

theorem not_running_halt : ¬ Running s.halt := fun h => Bool.noConfusion h.1

theorem sessionTimeout_iff (hs : Accounted s) (hc : c ∈ s.clients) (hstopped : s.stopped = false) :
    (Running (s.setClient { c with timerArmed := false }) →
      Watched (s.setClient { c with timerArmed := false })) ↔ OthersArmed s c.id ∨ Idle s := by
  rw [watched_disarm hs hc]
  by_cases hothers : OthersArmed s c.id
  · exact iff_of_true (fun _ => hothers) (.inl hothers)
  · rw [running_disarm hc hstopped hothers]
    constructor
    · intro h
      by_contra hnot
      exact hothers (h fun hidle => hnot (.inr hidle))
    · rintro (h | hidle)
      · exact fun _ => h
      · exact fun hnot => absurd hidle hnot

/-- Where a stop has been requested, a handler that ends the loop meets the
condition. -/
theorem halt_iff (hexit : s.exitRequested = true) :
    (Running t.halt → Watched t.halt) ↔ KeepsTimer s e := by
  refine iff_of_true (fun h => absurd h not_running_halt) fun hno => ?_
  rw [hexit] at hno
  cases hno

/-- A turn out of a state where a stop is noticed keeps that exactly under the
condition. -/
theorem stopNoticed_step_iff (hs : Accounted s) (hgood : Running s → Watched s)
    (hstep : step lexicalCast sourceType correction s e = some t) :
    (Running t → Watched t) ↔ KeepsTimer s e := by
  cases step_sound hstep with
  | @accepted ok hstopped haccepting =>
      have hw := hgood ⟨hstopped, .inl haccepting⟩
      refine iff_of_true (fun _ => ?_) (fun _ => trivial)
      cases ok with
      | true => exact watched_start (List.mem_append_right _ (List.mem_singleton.mpr rfl))
      | false => exact hw
  | @read c result hstopped hc hop =>
      have hw : Watched (s.complete c.id .read) :=
        hgood ⟨hstopped, .inr (.inl (List.ne_nil_of_mem hop))⟩
      have hs' := hs.complete c.id .read
      rcases handleRead_cases (s.complete c.id .read) c result with
        ⟨hexit, _, _, hread⟩ | ⟨hno, rfl, hread⟩ | ⟨_, text, rfl, hread | hread⟩
      · rw [hread]
        exact halt_iff hexit
      · rw [hread, release_iff hs' hc hstopped hw]
        exact ⟨fun h _ => h, fun h => h hno⟩
      · rw [hread]
        exact iff_of_true (fun _ => watched_setClient hs' hc rfl rfl hw) (fun _ => trivial)
      · rw [hread]
        exact iff_of_true (fun _ => watched_setClient hs' hc rfl rfl hw) (fun _ => trivial)
  | @written c ok hstopped hc hop =>
      have hw : Watched (s.complete c.id .write) :=
        hgood ⟨hstopped, .inr (.inl (List.ne_nil_of_mem hop))⟩
      have hs' := hs.complete c.id .write
      rcases handleWrite_cases (s.complete c.id .write) c ok with
        ⟨hexit, hwrite⟩ | ⟨hno, outRx, outTx, ⟨rfl, hwrite⟩ | ⟨rfl, hwrite⟩⟩
      · rw [hwrite]
        exact halt_iff hexit
      · rw [hwrite]
        exact iff_of_true (fun _ => watched_start hc) (fun _ => trivial)
      · rw [hwrite]
        refine (release_iff (hs'.of_eq rfl rfl rfl) hc hstopped hw).trans ?_
        exact ⟨fun h _ => h, fun h => h hno⟩
  | @sessionTimeout c hstopped hc _ =>
      rcases sessionTimeout_cases s c with ⟨hexit, htimeout⟩ | ⟨hno, htimeout⟩
      · rw [htimeout]
        exact halt_iff hexit
      · rw [htimeout, sessionTimeout_iff hs hc hstopped]
        exact ⟨fun h _ => h, fun h => h hno⟩
  | serverTimeout hstopped harmed =>
      have hw := hgood ⟨hstopped, .inr (.inr (.inr (.inl harmed)))⟩
      rcases serverTimeout_cases s with
        ⟨hpos, htimeout⟩ | ⟨_, hexit, htimeout⟩ | ⟨hzero, _, htimeout⟩
      · rw [htimeout]
        refine iff_of_true (fun _ => ?_) (fun _ => trivial)
        rcases hw with hsession | ⟨_, hzero⟩
        · exact .inl hsession
        · exact absurd hzero (Nat.ne_of_gt hpos)
      · rw [htimeout]
        exact halt_iff hexit
      · rw [htimeout]
        exact iff_of_true (fun _ => .inr ⟨rfl, hzero⟩) (fun _ => trivial)
  | cancelled hstopped hpos =>
      have hw := hgood ⟨hstopped, .inr (.inr (.inl hpos))⟩
      rcases cancelledTimeout_cases s with ⟨hexit, htimeout⟩ | ⟨_, htimeout⟩
      · rw [htimeout]
        exact halt_iff hexit
      · rw [htimeout]
        exact iff_of_true (fun _ => hw) (fun _ => trivial)
  | threadTransferDeInit hstopped => exact iff_of_true (fun h => hgood h) (fun _ => trivial)

/-- In a run a stop is noticed in every state exactly when every turn meets the
condition. -/
theorem stopNoticed_run (run : Run lexicalCast sourceType correction h s) :
    ((∀ p ∈ h, StopNoticed lexicalCast sourceType correction p.1) ∧
        StopNoticed lexicalCast sourceType correction s) ↔
      ∀ p ∈ h, KeepsTimer p.1 p.2 := by
  refine run.safe_iff (G := StopNoticed lexicalCast sourceType correction) accounted_initial ?_
    Accounted.step ?_
  · exact stopNoticed_iff.mpr fun _ => .inr ⟨rfl, rfl⟩
  · intro s e t hs hgood hstep
    exact stopNoticed_iff.trans (stopNoticed_step_iff hs (stopNoticed_iff.mp hgood) hstep)

/-- A client connects, asks for the frequency and gets it. -/
def oneQuery : List Event := [.accept true, .read 0 (some ['f', '\n']), .write 0 true]

theorem stopNoticed_run_oneQuery :
    ∃ r, Transition.exec (step Cxx.decimal .gpredict (exactCorrection 1000)) initial oneQuery =
        some r ∧ r.1.length = 3 ∧
      (((∀ p ∈ r.1, StopNoticed Cxx.decimal .gpredict (exactCorrection 1000) p.1) ∧
          StopNoticed Cxx.decimal .gpredict (exactCorrection 1000) r.2) ↔
        ∀ p ∈ r.1, KeepsTimer p.1 p.2) := by
  obtain ⟨r, hr, hlength⟩ : ∃ r, Transition.exec (step Cxx.decimal .gpredict (exactCorrection 1000))
      initial oneQuery = some r ∧ r.1.length = 3 := ⟨_, rfl, rfl⟩
  exact ⟨r, hr, hlength, stopNoticed_run (Transition.exec_run hr)⟩

/-- The client is idle until the timer of its session expires. -/
theorem stopNoticed_fails_idle :
    ∃ (h : List (State Int × Event)) (s : State Int),
      Run Cxx.decimal .gpredict (exactCorrection 1000) h s ∧
        ¬ StopNoticed Cxx.decimal .gpredict (exactCorrection 1000) s := by
  obtain ⟨r, hr, hstopped, haccepting, hclients, hcount⟩ :
      ∃ r, Transition.exec (step Cxx.decimal .gpredict (exactCorrection 1000)) initial
          [.accept true, .sessionTimeout 0] = some r ∧
        r.2.stopped = false ∧ r.2.accepting = true ∧
        r.2.clients.all (fun c => !c.timerArmed) = true ∧ r.2.count = 1 :=
    ⟨_, rfl, rfl, rfl, rfl, rfl⟩
  refine ⟨r.1, r.2, Transition.exec_run hr, fun hnoticed => ?_⟩
  rcases stopNoticed_iff.mp hnoticed ⟨hstopped, .inl haccepting⟩ with ⟨c, hc, harmed⟩ | ⟨_, hzero⟩
  · have hnot := List.all_eq_true.mp hclients c hc
    rw [harmed] at hnot
    cases hnot
  · rw [hcount] at hzero
    cases hzero

end Doppler

end GsSDR
