import GsSDR.HttpSource.Thread
import GsSDR.Lib.Progress

/-!
# Stopping the HTTP source

The thread tests the flag of a stop behind each iteration only, so it makes up to
nine more calls, and sends at most one request, one acknowledgement and one packet
more (`exit_within`).

The flag is shared by all blocks of the class.  When another block is made before the
thread has seen the flag, the stop is lost, and the thread may go on with any number of
requests, unless it is about to end in the publish block (`stop_lost`).
-/

namespace GsSDR

namespace HttpSource

open Cxx Transition

variable {tree : PropertyTree} {h h' : List (Thread × Event)} {s t : Thread} {e : Event}

/-- The event is a call of the thread. -/
def Event.isCall : Event → Bool
  | .threadTransferDeInit | .stopOther | .makeOther => false
  | _ => true

/-- No block of the class is made. -/
def Event.keepsStop : Event → Bool
  | .makeOther => false
  | _ => true

/-- The thread has ended. -/
def Pc.ended : Pc → Bool
  | .returned | .terminated => true
  | _ => false

/-- The thread has seen the flag, or has ended. -/
def Pc.seen : Pc → Bool
  | .shutdown | .returned | .terminated => true
  | _ => false

/-- The variables may be complete here. -/
def Pc.acknowledges : Pc → Bool
  | .writeAck | .readAck | .terminated => true
  | _ => false

/-- The calls left behind a stop. -/
def Pc.stopCalls : Pc → Nat
  | .entry => 1
  | .resolve => 9
  | .connectFirst => 8
  | .connect => 7
  | .writeGet => 6
  | .readGet => 5
  | .writeAck => 4
  | .readAck => 3
  | .exitTest => 2
  | .shutdown => 1
  | .sleep => 8
  | .returned | .terminated => 0

/-- The thread sends its request behind this call. -/
def Pc.stopRequests : Pc → Nat
  | .resolve | .connectFirst | .connect | .writeGet | .sleep => 1
  | _ => 0

def Pc.stopAcks : Pc → Nat
  | .resolve | .connectFirst | .connect | .writeGet | .readGet | .writeAck | .sleep => 1
  | _ => 0

def Pc.stopPdus : Pc → Nat
  | .entry | .exitTest | .shutdown | .returned | .terminated => 0
  | _ => 1

namespace Thread

/-- An iteration publishes at most one packet. -/
theorem publish_length {v v' : RecordVars} {pdus : List Pdu} (h : publish v = some (pdus, v')) :
    pdus.length ≤ 1 := by
  rcases publish_cases v with ⟨_, hnothing⟩ | ⟨_, _, hnone | hempty⟩ | ⟨_, _, f, _, hone⟩
  · rw [hnothing] at h
    cases h
    exact Nat.zero_le 1
  · rw [hnone] at h
    cases h
  · rw [hempty] at h
    cases h
    exact Nat.zero_le 1
  · rw [hone] at h
    cases h
    exact Nat.le_refl 1

/-- What may still happen behind a stop does not grow from the one state to the other. -/
structure Left (s t : Thread) : Prop where
  calls : t.pc.stopCalls ≤ s.pc.stopCalls
  requests : t.requests + t.pc.stopRequests ≤ s.requests + s.pc.stopRequests
  acks : t.acks.length + t.pc.stopAcks ≤ s.acks.length + s.pc.stopAcks
  published : t.published.length + t.pc.stopPdus ≤ s.published.length + s.pc.stopPdus

theorem Left.refl (s : Thread) : Left s s :=
  ⟨Nat.le_refl _, Nat.le_refl _, Nat.le_refl _, Nat.le_refl _⟩

theorem Left.trans {s t u : Thread} (h : Left s t) (h' : Left t u) : Left s u :=
  ⟨h'.calls.trans h.calls, h'.requests.trans h.requests, h'.acks.trans h.acks,
    h'.published.trans h.published⟩

/-- A step from a place to a place, from what the places leave. -/
theorem left_moved {pc : Pc} (pc' : Pc) (hs : s.pc = pc) (ht : t.pc = pc')
    (hcalls : pc'.stopCalls < pc.stopCalls)
    (hrequests : t.requests + pc'.stopRequests ≤ s.requests + pc.stopRequests)
    (hacks : t.acks.length + pc'.stopAcks ≤ s.acks.length + pc.stopAcks)
    (hpublished : t.published.length + pc'.stopPdus ≤ s.published.length + pc.stopPdus) :
    t.pc.stopCalls < s.pc.stopCalls ∧ Left s t := by
  subst hs ht
  exact ⟨hcalls, Nat.le_of_lt hcalls, hrequests, hacks, hpublished⟩

/-- The end of the `try` block, from a place where a packet may be published. -/
theorem left_endTry {u : Thread} {pc : Pc} (ok : Bool) (hs : s.pc = pc)
    (hcalls : 2 < pc.stopCalls) (hpdus : pc.stopPdus = 1) (hrequests : u.requests = s.requests)
    (hacks : u.acks = s.acks) (hpublished : u.published = s.published) :
    (u.endTry ok).pc.stopCalls < s.pc.stopCalls ∧ Left s (u.endTry ok) := by
  rw [endTry]
  cases hpublish : publish u.worker.vars with
  | none =>
      refine left_moved .terminated hs rfl (Nat.zero_lt_of_lt hcalls) ?_ ?_ ?_
      · exact hrequests ▸ Nat.le_add_right _ _
      · exact hacks ▸ Nat.le_add_right _ _
      · exact hpublished ▸ Nat.le_add_right _ _
  | some r =>
      refine left_moved .exitTest hs rfl hcalls ?_ ?_ ?_
      · exact hrequests ▸ Nat.le_add_right _ _
      · exact hacks ▸ Nat.le_add_right _ _
      · rw [hpdus, ← hpublished]
        simpa [Pc.stopPdus] using @publish_length _ r.2 r.1 hpublish

/-- At the top of the loop all of an iteration is left. -/
theorem left_top {u : Thread} {pc : Pc} (hs : s.pc = pc) (hcalls : 7 < pc.stopCalls)
    (hone : pc.stopRequests = 1 ∧ pc.stopAcks = 1 ∧ pc.stopPdus = 1)
    (hrequests : u.requests = s.requests) (hacks : u.acks = s.acks)
    (hpublished : u.published = s.published) :
    u.top.pc.stopCalls < s.pc.stopCalls ∧ Left s u.top := by
  obtain ⟨h, h', h''⟩ := hone
  have hleft : ∀ pc', u.top.pc = pc' → pc'.stopCalls ≤ 7 → pc'.stopRequests = 1 →
      pc'.stopAcks = 1 → pc'.stopPdus = 1 →
        u.top.pc.stopCalls < s.pc.stopCalls ∧ Left s u.top := by
    intro pc' hpc' hle hr ha hp
    refine left_moved pc' hs hpc' (Nat.lt_of_le_of_lt hle hcalls) ?_ ?_ ?_
    · show u.requests + _ ≤ _
      rw [hrequests, h, hr]
    · show u.acks.length + _ ≤ _
      rw [hacks, h', ha]
    · show u.published.length + _ ≤ _
      rw [hpublished, h'', hp]
  cases hconnected : u.worker.serverConnected with
  | true => exact hleft .writeGet (by simp [top, hconnected]) (by decide) rfl rfl rfl
  | false => exact hleft .connect (by simp [top, hconnected]) (by decide) rfl rfl rfl

/-- The `try` block behind the answer. -/
theorem left_readBody (body : Str) (hpc : s.pc = .readGet) :
    (s.readBody tree body).pc.stopCalls < s.pc.stopCalls ∧ Left s (s.readBody tree body) := by
  have hend : ∀ {u : Thread} (ok : Bool), u.requests = s.requests → u.acks = s.acks →
      u.published = s.published →
        (u.endTry ok).pc.stopCalls < s.pc.stopCalls ∧ Left s (u.endTry ok) :=
    fun ok => left_endTry ok hpc (by decide) rfl
  rw [readBody]
  split
  next => exact hend true rfl rfl rfl
  next =>
    cases tree.readJson body with
    | none => exact hend false rfl rfl rfl
    | some records =>
        simp only
        split
        next => exact hend false rfl rfl rfl
        next =>
          split
          next =>
            exact left_moved .writeAck hpc rfl (Nat.lt_succ_self 4) (Nat.le_refl _) (Nat.le_refl _)
              (Nat.le_refl _)
          next => exact hend true rfl rfl rfl

/-- With the flag set, each call of the thread is one of those that are left. -/
theorem left_call (hexit : s.exitRequested = true) (hown : e.isCall = true)
    (hstep : step tree s e = some t) : t.pc.stopCalls < s.pc.stopCalls ∧ Left s t := by
  cases step_sound hstep with
  | stop _ h => rcases h with ⟨rfl, _⟩ | rfl <;> cases hown
  | make => cases hown
  | enter hpc =>
      exact left_moved .returned hpc (by simp [hexit]) Nat.zero_lt_one (Nat.le_refl _)
        (Nat.le_refl _) (Nat.le_refl _)
  | resolve ok hpc =>
      cases ok with
      | true =>
          exact left_moved .connectFirst hpc rfl (Nat.lt_succ_self 8) (Nat.le_refl _)
            (Nat.le_refl _)
            (Nat.le_refl _)
      | false =>
          exact left_moved .terminated hpc rfl (Nat.succ_pos 8) (Nat.le_add_right _ 1)
            (Nat.le_add_right _ 1) (Nat.le_add_right _ 1)
  | connectFirst ok hpc => exact left_top hpc (by decide) ⟨rfl, rfl, rfl⟩ rfl rfl rfl
  | connected hpc =>
      exact left_moved .writeGet hpc rfl (Nat.lt_succ_self 6) (Nat.le_refl _) (Nat.le_refl _)
        (Nat.le_refl _)
  | requested hpc =>
      exact left_moved .readGet hpc rfl (Nat.lt_succ_self 5) (Nat.le_refl _) (Nat.le_refl _)
        (Nat.le_refl _)
  | answered body hpc => exact left_readBody body hpc
  | acked hpc =>
      refine left_moved .readAck hpc rfl (Nat.lt_succ_self 3) (Nat.le_refl _) ?_ (Nat.le_refl _)
      rw [List.length_append, List.length_singleton]
      exact Nat.le_refl _
  | ended ok hpc => exact left_endTry ok hpc (by decide) rfl rfl rfl rfl
  | threw _ hcall =>
      rcases hcall with ⟨hpc, _⟩ | ⟨hpc, _⟩ | ⟨hpc, _⟩ | ⟨hpc, _⟩ <;>
        exact left_endTry false hpc (by decide) rfl rfl rfl rfl
  | testExit hpc =>
      cases hconnected : s.worker.serverConnected with
      | true =>
          exact left_moved .shutdown hpc (by simp [hexit]) (Nat.lt_succ_self 1)
            (Nat.le_refl _) (Nat.le_refl _) (Nat.le_refl _)
      | false =>
          exact left_moved .returned hpc (by simp [hexit]) Nat.zero_lt_two
            (Nat.le_refl _) (Nat.le_refl _) (Nat.le_refl _)
  | shutdown ok hpc =>
      exact left_moved .returned hpc rfl Nat.zero_lt_one (Nat.le_refl _) (Nat.le_refl _)
        (Nat.le_refl _)
  | wake hpc => exact left_top hpc (by decide) ⟨rfl, rfl, rfl⟩ rfl rfl rfl

/-- What others do leaves the thread as it is, and the flag set unless a block is made. -/
theorem outside_step (hown : e.isCall = false) (hstep : step tree s e = some t) :
    ∃ b, t = { s with exitRequested := b } ∧ (e.keepsStop = true → b = true) := by
  cases step_sound hstep with
  | stop e _ => exact ⟨true, rfl, fun _ => rfl⟩
  | make => exact ⟨false, rfl, fun h => by cases h⟩
  | threw _ hcall => rcases hcall with ⟨_, rfl⟩ | ⟨_, rfl⟩ | ⟨_, rfl⟩ | ⟨_, rfl⟩ <;> cases hown
  | _ => cases hown

/-- No call of the thread changes the flag. -/
theorem exitRequested_call (hown : e.isCall = true) (hstep : step tree s e = some t) :
    t.exitRequested = s.exitRequested := by
  have hend : ∀ (u : Thread) (ok : Bool), (u.endTry ok).exitRequested = u.exitRequested := by
    intro u ok
    rw [endTry]
    split <;> rfl
  cases step_sound hstep with
  | stop _ h => rcases h with ⟨rfl, _⟩ | rfl <;> cases hown
  | make => cases hown
  | answered body hpc =>
      rw [readBody]
      split
      next => exact hend _ true
      next =>
        cases tree.readJson body with
        | none => exact hend _ false
        | some records =>
            simp only
            split
            next => exact hend _ false
            next =>
              split
              next => rfl
              next => exact hend _ true
  | ended ok hpc => exact hend s ok
  | threw _ _ => exact hend s false
  | _ => rfl

/-- Until it has ended, the thread has a next call. -/
theorem exists_call (tree : PropertyTree) (hpc : s.pc.ended = false) :
    ∃ e t, e.isCall = true ∧ step tree s e = some t := by
  cases h : s.pc with
  | entry => exact ⟨.enter, _, rfl, by simp only [step, h]; rfl⟩
  | resolve => exact ⟨.resolve true, _, rfl, by simp only [step, h]; rfl⟩
  | connectFirst => exact ⟨.connect true, _, rfl, by simp only [step, h]; rfl⟩
  | connect => exact ⟨.connect true, _, rfl, by simp only [step, h]; rfl⟩
  | writeGet => exact ⟨.writeGet true, _, rfl, by simp only [step, h]; rfl⟩
  | readGet => exact ⟨.readGet none, _, rfl, by simp only [step, h]; rfl⟩
  | writeAck => exact ⟨.writeAck true, _, rfl, by simp only [step, h]; rfl⟩
  | readAck => exact ⟨.readAck true, _, rfl, by simp only [step, h]; rfl⟩
  | exitTest => exact ⟨.testExit, _, rfl, by simp only [step, h]; rfl⟩
  | shutdown => exact ⟨.shutdown true, _, rfl, by simp only [step, h]; rfl⟩
  | sleep => exact ⟨.wake, _, rfl, by simp only [step, h]; rfl⟩
  | returned => simp [h, Pc.ended] at hpc
  | terminated => simp [h, Pc.ended] at hpc

/-! ## A stop that is kept -/

/-- Behind a stop, and while no block of the class is made, the thread makes at most nine
calls and sends at most one request, one acknowledgement and one packet.  Until it has
ended it has a next call. -/
theorem exit_within (go : Transition.Run (step tree) s h t) (hexit : s.exitRequested = true)
    (hkeeps : ∀ p ∈ h, p.2.keepsStop = true) :
    calls Event.isCall h ≤ 9 ∧ t.requests ≤ s.requests + 1 ∧
      t.acks.length ≤ s.acks.length + 1 ∧ t.published.length ≤ s.published.length + 1 ∧
      (t.pc.ended = true ∨ ∃ e u, e.isCall = true ∧ step tree t e = some u) := by
  have hkeep : ∀ {u : Thread} {e : Event} {v : Thread},
      u.exitRequested = true ∧ Left s u → step tree u e = some v → e.keepsStop = true →
        (v.exitRequested = true ∧ Left s v) ∧
          v.pc.stopCalls + (if e.isCall then 1 else 0) ≤ u.pc.stopCalls := by
    rintro u e v ⟨hflag, hu⟩ hstep hkeeps
    cases hown : e.isCall with
    | true =>
        obtain ⟨hless, hv⟩ := left_call hflag hown hstep
        exact ⟨⟨(exitRequested_call hown hstep).trans hflag, hu.trans hv⟩, hless⟩
    | false =>
        obtain ⟨b, rfl, hb⟩ := outside_step hown hstep
        exact ⟨⟨hb hkeeps, hu.trans ⟨Nat.le_refl _, Nat.le_refl _, Nat.le_refl _,
          Nat.le_refl _⟩⟩, Nat.le_refl _⟩
  obtain ⟨⟨_, hrest⟩, hcalls⟩ := @calls_add_measure _ _ (step tree) Event.isCall
    Event.keepsStop h s t (fun u => u.exitRequested = true ∧ Left s u)
    (fun u => u.pc.stopCalls) hkeep ⟨hexit, .refl s⟩ go hkeeps
  have hnine : s.pc.stopCalls ≤ 9 := by cases s.pc <;> decide
  have hrequests : s.pc.stopRequests ≤ 1 := by cases s.pc <;> decide
  have hacks : s.pc.stopAcks ≤ 1 := by cases s.pc <;> decide
  have hpdus : s.pc.stopPdus ≤ 1 := by cases s.pc <;> decide
  have h1 := hrest.requests
  have h2 := hrest.acks
  have h3 := hrest.published
  refine ⟨by omega, by omega, by omega, by omega, ?_⟩
  cases hpc : t.pc.ended with
  | true => exact .inl rfl
  | false => exact .inr (exists_call tree hpc)

/-- A stop of another block during the sleep, behind a request that failed. -/
theorem exit_within_sleeping :
    ∃ r r', Transition.exec (step (.ofTexts [])) initial
        [.enter, .resolve true, .connect true, .writeGet false, .testExit, .stopOther] = some r ∧
      Transition.exec (step (.ofTexts [])) r.2 [.wake, .connect false] = some r' ∧
      calls Event.isCall r'.1 ≤ 9 ∧ r'.2.requests ≤ r.2.requests + 1 ∧
      r'.2.acks.length ≤ r.2.acks.length + 1 ∧
      r'.2.published.length ≤ r.2.published.length + 1 ∧
      (r'.2.pc.ended = true ∨ ∃ e u, e.isCall = true ∧ step (.ofTexts []) r'.2 e = some u) := by
  obtain ⟨r, hr, r', hr', hexit, hkeeps⟩ :
      ∃ r, Transition.exec (step (.ofTexts [])) initial
          [.enter, .resolve true, .connect true, .writeGet false, .testExit, .stopOther] =
            some r ∧
        ∃ r', Transition.exec (step (.ofTexts [])) r.2 [.wake, .connect false] = some r' ∧
          r.2.exitRequested = true ∧ (r'.1.all fun p => p.2.keepsStop) = true :=
    ⟨_, rfl, _, rfl, rfl, rfl⟩
  exact ⟨r, r', hr, hr',
    exit_within (Transition.exec_run hr') hexit fun p hp => List.all_eq_true.mp hkeeps p hp⟩

/-! ## A stop that is lost -/

/-- Complete variables are those of a packet that is being acknowledged. -/
def Acknowledging (s : Thread) : Prop :=
  s.worker.vars.complete = true → s.pc.acknowledges = true

theorem acknowledging_endTry (s : Thread) (ok : Bool) : Acknowledging (s.endTry ok) := by
  intro hcomplete
  rw [endTry] at hcomplete ⊢
  cases hpublish : publish s.worker.vars with
  | none => rfl
  | some r =>
      rw [hpublish] at hcomplete
      have hreset : r.2.complete = false := @publish_incomplete _ r.2 r.1 hpublish
      rw [show r.2.complete = true from hcomplete] at hreset
      cases hreset

theorem acknowledging_readBody (tree : PropertyTree) (s : Thread) (body : Str) :
    Acknowledging (s.readBody tree body) := by
  rw [readBody]
  split
  next => exact acknowledging_endTry _ true
  next =>
    cases tree.readJson body with
    | none => exact acknowledging_endTry _ false
    | some records =>
        simp only
        split
        next => exact acknowledging_endTry _ false
        next =>
          split
          next => exact fun _ => rfl
          next => exact acknowledging_endTry _ true

/-- At another place the variables are not complete. -/
theorem Acknowledging.elsewhere (hs : Acknowledging s) {pc : Pc} (hpc : s.pc = pc)
    (hother : pc.acknowledges = false) : s.worker.vars.complete = false := by
  by_contra hcomplete
  have hplace := hs (by simpa using hcomplete)
  rw [hpc, hother] at hplace
  cases hplace

theorem Acknowledging.step (hs : Acknowledging s) (hstep : Thread.step tree s e = some t) :
    Acknowledging t := by
  have hother : ∀ {u : Thread} {pc : Pc}, s.pc = pc → pc.acknowledges = false →
      u.worker.vars = s.worker.vars → Acknowledging u := by
    intro u pc hpc hother hvars hcomplete
    rw [hvars, hs.elsewhere hpc hother] at hcomplete
    cases hcomplete
  cases step_sound hstep with
  | stop _ _ => exact hs
  | make => exact hs
  | enter hpc => exact hother hpc rfl rfl
  | resolve ok hpc => exact hother hpc rfl rfl
  | connectFirst ok hpc => exact hother hpc rfl rfl
  | connected hpc => exact hother hpc rfl rfl
  | requested hpc => exact hother hpc rfl rfl
  | answered body hpc => exact acknowledging_readBody tree s body
  | acked hpc => exact fun _ => rfl
  | ended ok hpc => exact acknowledging_endTry s ok
  | threw _ _ => exact acknowledging_endTry s false
  | testExit hpc => exact hother hpc rfl rfl
  | shutdown ok hpc => exact hother hpc rfl rfl
  | wake hpc => exact hother hpc rfl rfl

theorem Run.acknowledging (run : Thread.Run tree h s) : Acknowledging s :=
  Transition.Run.invariant (fun hcomplete => by cases hcomplete) Acknowledging.step run

/-- The flag is not set, and the thread gets through the next publish block. -/
structure Free (s : Thread) : Prop where
  flag : s.exitRequested = false
  publish : (HttpSource.publish s.worker.vars).isSome = true

/-- Its own calls can take the thread to a request that comes behind this many. -/
def Requests (tree : PropertyTree) (n : Nat) (s : Thread) : Prop :=
  ∃ h t, Transition.Run (step tree) s h t ∧ (∀ p ∈ h, p.2.isCall = true) ∧
    t.pc = .writeGet ∧ Free t ∧ t.requests = n

theorem Requests.of_call {n : Nat} (hown : e.isCall = true) (hstep : step tree s e = some t)
    (ht : Requests tree n t) : Requests tree n s := by
  obtain ⟨h, u, run, hcalls, hu⟩ := ht
  refine ⟨(s, e) :: h, u, (Transition.Run.nil.snoc hstep).trans run, ?_, hu⟩
  intro p hp
  rcases List.mem_cons.mp hp with rfl | hp
  · exact hown
  · exact hcalls p hp

theorem Requests.trans {n m : Nat} (hs : Requests tree n s)
    (hmore : ∀ t, t.pc = .writeGet → Free t → t.requests = n → Requests tree m t) :
    Requests tree m s := by
  obtain ⟨h, t, run, hcalls, hpc, hfree, hrequests⟩ := hs
  obtain ⟨h', u, run', hcalls', hu⟩ := hmore t hpc hfree hrequests
  refine ⟨h ++ h', u, run.trans run', ?_, hu⟩
  intro p hp
  rcases List.mem_append.mp hp with hp | hp
  · exact hcalls p hp
  · exact hcalls' p hp

theorem Free.writeGet (hs : Free s) (hpc : s.pc = .writeGet) : Requests tree s.requests s :=
  ⟨[], s, .nil, by simp, hpc, hs, rfl⟩

theorem Free.top (hs : Free s) : Requests tree s.requests s.top := by
  cases hconnected : s.worker.serverConnected with
  | true => exact Free.writeGet ⟨hs.flag, hs.publish⟩ (by simp [Thread.top, hconnected])
  | false =>
      have hstep : Thread.step tree s.top (.connect true) =
          some { s with pc := .writeGet, worker := ⟨true, s.worker.vars⟩ } := by
        simp [Thread.step, Thread.top, hconnected]
      exact .of_call rfl hstep (Free.writeGet ⟨hs.flag, hs.publish⟩ rfl)

theorem Free.exitTest (hs : Free s) (hpc : s.pc = .exitTest) : Requests tree s.requests s := by
  have htest : Thread.step tree s .testExit = some { s with pc := .sleep } := by
    simp [Thread.step, hpc, hs.flag]
  exact .of_call rfl htest (.of_call (e := .wake) rfl rfl hs.top)

theorem Free.endTry (hs : Free s) (ok : Bool) : Requests tree s.requests (s.endTry ok) := by
  obtain ⟨r, hr⟩ := Option.isSome_iff_exists.mp hs.publish
  have hreset : r.2.complete = false := @publish_incomplete _ r.2 r.1 hr
  simp only [Thread.endTry, hr]
  refine Free.exitTest ⟨hs.flag, ?_⟩ rfl
  rw [HttpSource.publish, hreset]
  rfl

/-- From any place where it has not seen the flag, the thread can come to a request. -/
theorem Free.requests (hs : Free s) (hseen : s.pc.seen = false) :
    Requests tree s.requests s := by
  have htop : ∀ c, Requests tree s.requests { s with worker := ⟨c, s.worker.vars⟩ }.top :=
    fun c => Free.top ⟨hs.flag, hs.publish⟩
  cases hpc : s.pc with
  | entry =>
      have henter : Thread.step tree s .enter = some { s with pc := .resolve } := by
        simp [Thread.step, hpc, hs.flag]
      refine .of_call rfl henter (.of_call (e := .resolve true) rfl rfl ?_)
      exact .of_call (e := .connect true) rfl rfl (htop true)
  | resolve =>
      have hresolve : Thread.step tree s (.resolve true) = some { s with pc := .connectFirst } := by
        simp only [Thread.step, hpc, if_true]
      exact .of_call rfl hresolve (.of_call (e := .connect true) rfl rfl (htop true))
  | connectFirst =>
      have hconnect : Thread.step tree s (.connect true) =
          some { s with worker := ⟨true, s.worker.vars⟩ }.top := by
        simp only [Thread.step, hpc]
      exact .of_call rfl hconnect (htop true)
  | connect =>
      have hconnect : Thread.step tree s (.connect true) =
          some { s with worker := ⟨true, s.worker.vars⟩ }.top := by
        simp only [Thread.step, hpc]
      exact .of_call rfl hconnect (htop true)
  | writeGet => exact hs.writeGet hpc
  | readGet =>
      have hread : Thread.step tree s (.readGet none) = some (s.endTry false) := by
        simp only [Thread.step, hpc]
      exact .of_call rfl hread (hs.endTry false)
  | writeAck =>
      have hwrite : Thread.step tree s (.writeAck false) = some (s.endTry false) := by
        simp only [Thread.step, hpc]
      exact .of_call rfl hwrite (hs.endTry false)
  | readAck =>
      have hread : Thread.step tree s (.readAck true) = some (s.endTry true) := by
        simp only [Thread.step, hpc]
      exact .of_call rfl hread (hs.endTry true)
  | exitTest => exact hs.exitTest hpc
  | sleep =>
      have hwake : Thread.step tree s .wake = some s.top := by
        simp only [Thread.step, hpc]
      exact .of_call rfl hwake hs.top
  | shutdown => simp [hpc, Pc.seen] at hseen
  | returned => simp [hpc, Pc.seen] at hseen
  | terminated => simp [hpc, Pc.seen] at hseen

/-- And to any number of requests. -/
theorem Free.requests_any (hs : Free s) (hseen : s.pc.seen = false) (n : Nat) :
    Requests tree (s.requests + n) s := by
  induction n with
  | zero => exact hs.requests hseen
  | succ n ih =>
      refine ih.trans fun t hpc ht hrequests => ?_
      have hwrite : Thread.step tree t (.writeGet true) =
          some { t with pc := .readGet, requests := s.requests + (n + 1) } := by
        simp only [Thread.step, hpc, hrequests, Nat.add_assoc]
      exact .of_call rfl hwrite (Free.requests ⟨ht.flag, ht.publish⟩ rfl)

theorem endTry_requests (s : Thread) (ok : Bool) : (s.endTry ok).requests = s.requests := by
  rw [endTry]
  split <;> rfl

/-- The thread sends no request any more. -/
def Last (s : Thread) : Prop :=
  s.pc.seen = true ∨
    (s.pc = .writeAck ∨ s.pc = .readAck) ∧ publish s.worker.vars = none

theorem endTry_last (hpublish : publish s.worker.vars = none) (ok : Bool) :
    Last (s.endTry ok) := by
  rw [endTry, hpublish]
  exact .inl rfl

theorem Last.step (hs : Last s) (hstep : Thread.step tree s e = some t) :
    Last t ∧ t.requests = s.requests := by
  have hpublish : ∀ {pc}, s.pc = pc → pc.seen = false → publish s.worker.vars = none := by
    rintro pc rfl hseen
    rcases hs with h | ⟨_, h⟩
    · rw [hseen] at h
      cases h
    · exact h
  have hplace : ∀ {pc}, s.pc = pc → pc.seen = true ∨ pc = .writeAck ∨ pc = .readAck := by
    rintro pc rfl
    exact hs.imp_right And.left
  cases step_sound hstep with
  | stop _ _ => exact ⟨hs, rfl⟩
  | make => exact ⟨hs, rfl⟩
  | acked hpc => exact ⟨.inr ⟨.inr rfl, hpublish hpc rfl⟩, rfl⟩
  | ended ok hpc => exact ⟨endTry_last (hpublish hpc rfl) ok, endTry_requests s ok⟩
  | threw _ hcall =>
      rcases hcall with ⟨hpc, _⟩ | ⟨hpc, _⟩ | ⟨hpc, _⟩ | ⟨hpc, _⟩ <;>
        exact ⟨endTry_last (hpublish hpc rfl) false, endTry_requests s false⟩
  | shutdown ok hpc => exact ⟨.inl rfl, rfl⟩
  | enter hpc => simpa [Pc.seen] using hplace hpc
  | resolve ok hpc => simpa [Pc.seen] using hplace hpc
  | connectFirst ok hpc => simpa [Pc.seen] using hplace hpc
  | connected hpc => simpa [Pc.seen] using hplace hpc
  | requested hpc => simpa [Pc.seen] using hplace hpc
  | answered body hpc => simpa [Pc.seen] using hplace hpc
  | testExit hpc => simpa [Pc.seen] using hplace hpc
  | wake hpc => simpa [Pc.seen] using hplace hpc

/-- Unless the thread has seen the flag or is about to end in the publish block, the
constructor of one other block makes it send any number of requests, whatever stops came
before.  Otherwise it sends none, whatever others do. -/
theorem stop_lost (run : Thread.Run tree h s) :
    (s.pc.seen = false ∧ (publish s.worker.vars).isSome = true →
      ∀ n, ∃ u h' t, step tree s .makeOther = some u ∧ Transition.Run (step tree) u h' t ∧
        (∀ p ∈ h', p.2.isCall = true) ∧ t.requests = s.requests + n) ∧
    (¬ (s.pc.seen = false ∧ (publish s.worker.vars).isSome = true) →
      ∀ h' t, Transition.Run (step tree) s h' t → t.requests = s.requests) := by
  refine ⟨?_, ?_⟩
  · rintro ⟨hseen, hpublish⟩ n
    have hfree : Free { s with exitRequested := false } := ⟨rfl, hpublish⟩
    obtain ⟨h', t, run', hcalls, _, _, hrequests⟩ :
        Requests tree (s.requests + n) { s with exitRequested := false } :=
      hfree.requests_any hseen n
    exact ⟨_, h', t, rfl, run', hcalls, hrequests⟩
  · intro hnot h' t go
    have hlast : Last s := by
      cases hseen : s.pc.seen with
      | true => exact .inl hseen
      | false =>
          have hpublish : publish s.worker.vars = none := by
            rw [← Option.not_isSome_iff_eq_none]
            exact fun hsome => hnot ⟨hseen, hsome⟩
          have hcomplete : s.worker.vars.complete = true := by
            by_contra hincomplete
            rw [publish, if_neg hincomplete] at hpublish
            cases hpublish
          refine .inr ⟨?_, hpublish⟩
          have hplace := run.acknowledging hcomplete
          cases hpc : s.pc with
          | writeAck => exact .inl rfl
          | readAck => exact .inr rfl
          | terminated =>
              rw [hpc] at hseen
              cases hseen
          | _ => simp [hpc, Pc.acknowledges] at hplace
    have hkept : Last t ∧ t.requests = s.requests := by
      refine go.invariant (P := fun t => Last t ∧ t.requests = s.requests) ⟨hlast, rfl⟩ ?_
      rintro u e v ⟨hu, hrequests⟩ hstep
      exact ⟨(hu.step hstep).1, (hu.step hstep).2.trans hrequests⟩
    exact hkept.2

/-- A stop while the thread waits for an answer. -/
theorem stop_lost_waiting :
    ∃ r, Transition.exec (step (.ofTexts [])) initial
        [.enter, .resolve true, .connect true, .writeGet true, .threadTransferDeInit] = some r ∧
      r.2.exitRequested = true ∧
      ∀ n, ∃ u h' t, step (.ofTexts []) r.2 .makeOther = some u ∧
        Transition.Run (step (.ofTexts [])) u h' t ∧ (∀ p ∈ h', p.2.isCall = true) ∧
        t.requests = r.2.requests + n := by
  obtain ⟨r, hr, hexit, hseen, hpublish⟩ :
      ∃ r, Transition.exec (step (.ofTexts [])) initial
          [.enter, .resolve true, .connect true, .writeGet true, .threadTransferDeInit] =
            some r ∧
        r.2.exitRequested = true ∧ r.2.pc.seen = false ∧
          (publish r.2.worker.vars).isSome = true :=
    ⟨_, rfl, rfl, rfl, rfl⟩
  exact ⟨r, hr, hexit, (stop_lost (Transition.exec_run hr)).1 ⟨hseen, hpublish⟩⟩

end Thread

end HttpSource

end GsSDR
