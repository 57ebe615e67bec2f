import GsSDR.Doppler.Outstanding
import GsSDR.Lib.Mealy

/-!
# What a session hears and says

The turns of one session are picked out of the history of a run: the texts that
its `handle_read` takes, the replies to them, and the frequencies that its
`handle_write` hands to `message_callback`.

Whatever is called in between, they are those of a machine that reads one text
after the other (`Follows`).
-/

namespace GsSDR

namespace Doppler

open Cxx Mealy

variable {β : Type*}

/-- The session whose operation has completed. -/
def Event.session? : Event → Option Nat
  | .read id _ => some id
  | .write id _ => some id
  | _ => none

/-- What `handle_write` hands to `message_callback`. -/
def Session.callback (session : Session) : Option (Int × Int) :=
  if session.newFreq then some (session.freqRx, session.freqTx) else none

variable (lexicalCast : Str → Option Int) (sourceType : SourceType)

/-- A session as a machine that reads texts. -/
def Session.hear (session : Session) (text : Str) : Session :=
  (session.handleRead lexicalCast sourceType text).1

def Session.reply (session : Session) (text : Str) : Option Str :=
  (session.handleRead lexicalCast sourceType text).2

/-- The frequencies that go out behind the reply. -/
def Session.publish (session : Session) (text : Str) : Option (Int × Int) :=
  (session.hear lexicalCast sourceType text).callback

/-! ## The history of a session -/

/-- The text that a turn takes. -/
def textOf (p : State β × Event) : Option Str :=
  match p.2 with
  | .read _ (some text) => if p.1.exitRequested then none else some text
  | _ => none

/-- The reply that a turn begins to write. -/
def replyOf (p : State β × Event) : Option Str :=
  match p.2 with
  | .read id (some text) =>
      if p.1.exitRequested then none
      else (p.1.client? id).bind fun c => c.session.reply lexicalCast sourceType text
  | _ => none

/-- The frequencies that a turn hands to `message_callback`. -/
def callbackOf (p : State β × Event) : Option (Int × Int) :=
  match p.2 with
  | .write id _ =>
      if p.1.exitRequested then none
      else (p.1.client? id).bind fun c => c.session.callback
  | _ => none

/-- The turns of a session. -/
def ofSession (id : Nat) (h : List (State β × Event)) : List (State β × Event) :=
  h.filter fun p => decide (p.2.session? = some id)

def texts (id : Nat) (h : List (State β × Event)) : List Str := (ofSession id h).filterMap textOf

def replies (id : Nat) (h : List (State β × Event)) : List Str :=
  (ofSession id h).filterMap (replyOf lexicalCast sourceType)

def callbacks (id : Nat) (h : List (State β × Event)) : List (Int × Int) :=
  (ofSession id h).filterMap callbackOf

/-- The texts whose replies have been written. -/
def answered {α : Type*} (id : Nat) (s : State β) (texts : List α) : List α :=
  if (id, Op.write) ∈ s.outstanding then texts.dropLast else texts

/-- A session has done what its texts say. -/
structure Follows (id : Nat) (h : List (State β × Event)) (s : State β) : Prop where
  session : ∀ c ∈ s.clients, c.id = id →
    c.session = (texts id h).foldl (Session.hear lexicalCast sourceType) .new
  answering : (id, Op.write) ∈ s.outstanding → texts id h ≠ []
  replies : replies lexicalCast sourceType id h =
    outputs (Session.hear lexicalCast sourceType) (Session.reply lexicalCast sourceType) .new
      (texts id h)
  callbacks : callbacks id h =
    outputs (Session.hear lexicalCast sourceType) (Session.publish lexicalCast sourceType) .new
      (answered id s (texts id h))
  /-- Before it is accepted it has read nothing. -/
  unborn : s.nextId ≤ id → texts id h = []

variable {lexicalCast} {sourceType} {correction : Int → β} {h : List (State β × Event)}
  {s t : State β} {e : Event} {c d : Client} {id : Nat} {op : Op}

/-! ## What goes out on the ports -/

theorem callbackOf_write (hno : s.exitRequested = false) (ok : Bool) :
    callbackOf (s, .write id ok) = (s.client? id).bind fun c => c.session.callback := by
  simp [callbackOf, hno]

theorem handleWrite_ports (hno : s.exitRequested = false) (c : Client) (ok : Bool) :
    (s.handleWrite correction c ok).outRx =
        s.outRx ++ (c.session.callback.map fun f => correction f.1).toList ∧
      (s.handleWrite correction c ok).outTx =
        s.outTx ++ (c.session.callback.map fun f => correction f.2).toList := by
  have hno' : ¬ s.exitRequested = true := by
    rw [hno]
    exact Bool.false_ne_true
  have hset : (s.setNewFreq correction c.session).outRx =
        s.outRx ++ (c.session.callback.map fun f => correction f.1).toList ∧
      (s.setNewFreq correction c.session).outTx =
        s.outTx ++ (c.session.callback.map fun f => correction f.2).toList := by
    rw [State.setNewFreq, Session.callback]
    split
    next => exact ⟨rfl, rfl⟩
    next => exact ⟨(List.append_nil _).symm, (List.append_nil _).symm⟩
  rw [State.handleWrite, if_neg hno']
  cases ok with
  | true => exact hset
  | false => exact hset

/-- A turn publishes what it hands to `message_callback`. -/
theorem step_ports (hs : Accounted s)
    (hstep : step lexicalCast sourceType correction s e = some t) :
    t.outRx = s.outRx ++ ((callbackOf (s, e)).map fun f => correction f.1).toList ∧
      t.outTx = s.outTx ++ ((callbackOf (s, e)).map fun f => correction f.2).toList := by
  have hsame : ∀ {u : State β}, u.outRx = s.outRx → u.outTx = s.outTx → callbackOf (s, e) = none →
      u.outRx = s.outRx ++ ((callbackOf (s, e)).map fun f => correction f.1).toList ∧
        u.outTx = s.outTx ++ ((callbackOf (s, e)).map fun f => correction f.2).toList := by
    intro u hrx htx hnone
    rw [hrx, htx, hnone]
    exact ⟨(List.append_nil _).symm, (List.append_nil _).symm⟩
  cases step_sound hstep with
  | @accepted ok =>
      cases ok with
      | true => exact hsame rfl rfl rfl
      | false => exact hsame rfl rfl rfl
  | @read c result =>
      have hnone : callbackOf (s, .read c.id result) = none := rfl
      rcases handleRead_cases (s.complete c.id .read) c result with
        ⟨_, d, _, hread⟩ | ⟨_, _, hread⟩ | ⟨_, text, _, hread | hread⟩
      · rw [hread]
        exact hsame rfl rfl hnone
      · rw [hread]
        exact hsame rfl rfl hnone
      · rw [hread]
        exact hsame rfl rfl hnone
      · rw [hread]
        exact hsame rfl rfl hnone
  | @written c ok _ hc _ =>
      cases hexit : s.exitRequested with
      | true =>
          have hexit' : (s.complete c.id .write).exitRequested = true := hexit
          rw [State.handleWrite, if_pos hexit']
          exact hsame rfl rfl (if_pos hexit)
      | false =>
          have hcallback : callbackOf (s, .write c.id ok) = c.session.callback := by
            rw [callbackOf_write hexit, hs.client? hc, Option.bind_some]
          rw [hcallback]
          exact handleWrite_ports (s := s.complete c.id .write) hexit c ok
  | @sessionTimeout c =>
      obtain ⟨stopped, htimeout⟩ := sessionTimeout_eq s c
      rw [htimeout]
      exact hsame rfl rfl rfl
  | serverTimeout =>
      obtain ⟨armed, stopped, htimeout⟩ := serverTimeout_eq s
      rw [htimeout]
      exact hsame rfl rfl rfl
  | cancelled =>
      obtain ⟨stopped, htimeout⟩ := cancelledTimeout_eq s
      rw [htimeout]
      exact hsame rfl rfl rfl
  | threadTransferDeInit => exact hsame rfl rfl rfl

/-- The ports carry what all sessions have handed over. -/
theorem Run.ports (run : Run lexicalCast sourceType correction h s) :
    s.outRx = (h.filterMap callbackOf).map (fun f => correction f.1) ∧
      s.outTx = (h.filterMap callbackOf).map (fun f => correction f.2) := by
  induction run with
  | nil => exact ⟨rfl, rfl⟩
  | @snoc h s t e prev hstep ih =>
      obtain ⟨hrx, htx⟩ := step_ports (Run.accounted prev) hstep
      rw [hrx, htx, ih.1, ih.2, List.filterMap_append, List.map_append, List.map_append]
      cases hcallback : callbackOf (s, e) with
      | none => simp [hcallback]
      | some f => simp [hcallback]

/-! ## The operations of a session -/

theorem mem_outstanding_complete (hs : OnePerSession s) (hop : (id, op) ∈ s.outstanding)
    {x : Nat} {op' : Op} :
    (x, op') ∈ (s.complete id op).outstanding ↔ (x, op') ∈ s.outstanding ∧ x ≠ id := by
  constructor
  · intro hx
    exact ⟨List.mem_of_mem_erase hx,
      ((mem_busy_complete hs hop).mp (List.mem_map_of_mem hx)).2⟩
  · rintro ⟨hx, hne⟩
    refine (List.mem_erase_of_ne ?_).mpr hx
    rintro heq
    injection heq with hid _
    exact hne hid

/-- While a session reads, it does not write. -/
theorem not_writing (hs : OnePerSession s) (hop : (id, Op.read) ∈ s.outstanding) :
    (id, Op.write) ∉ s.outstanding := by
  intro hwrite
  have hkept : (id, Op.write) ∈ (s.complete id .read).outstanding :=
    (List.mem_erase_of_ne (by simp)).mpr hwrite
  exact ((mem_outstanding_complete hs hop).mp hkept).2 rfl

theorem mem_begin {op' : Op} {x : Nat} (hne : id ≠ x) :
    (x, op') ∈ (s.begin id op).outstanding ↔ (x, op') ∈ s.outstanding := by
  show (x, op') ∈ (id, op) :: s.outstanding ↔ _
  rw [List.mem_cons, Prod.mk.injEq]
  exact or_iff_right fun h => hne h.1.symm

/-- Another session is not replaced. -/
theorem client_other (hc : c ∈ s.clients) (hid : d.id = c.id) (hne : c.id ≠ id) {b : Client}
    (hb : b ∈ (s.setClient d).clients) (hbid : b.id = id) : b ∈ s.clients := by
  rcases (mem_setClient ⟨c, hc, hid.symm⟩).mp hb with rfl | ⟨hb, _⟩
  · exact absurd (hid.symm.trans hbid) hne
  · exact hb

/-- What the handlers of other operations leave of a session. -/
structure Untouched (id : Nat) (s t : State β) : Prop where
  session : ∀ d ∈ t.clients, d.id = id →
    (∃ c ∈ s.clients, c.id = id ∧ c.session = d.session) ∨ s.nextId = id ∧ d.session = .new
  writing : (id, Op.write) ∈ t.outstanding ↔ (id, Op.write) ∈ s.outstanding
  nextId : s.nextId ≤ t.nextId

theorem Untouched.of_clients (hclients : ∀ d ∈ t.clients, d.id = id → d ∈ s.clients)
    (hwriting : (id, Op.write) ∈ t.outstanding ↔ (id, Op.write) ∈ s.outstanding)
    (hnext : t.nextId = s.nextId) : Untouched id s t where
  session := fun d hd hid => .inl ⟨d, hclients d hd hid, hid, rfl⟩
  writing := hwriting
  nextId := Nat.le_of_eq hnext.symm

theorem untouched_timer (hc : c ∈ s.clients) (armed : Bool)
    (hclients : t.clients = (s.setClient { c with timerArmed := armed }).clients)
    (hwriting : (id, Op.write) ∈ t.outstanding ↔ (id, Op.write) ∈ s.outstanding)
    (hnext : t.nextId = s.nextId) : Untouched id s t where
  session := by
    intro d hd hid
    rw [hclients] at hd
    rcases (mem_setClient (c := { c with timerArmed := armed }) ⟨c, hc, rfl⟩).mp hd with
      rfl | ⟨hd, _⟩
    · exact .inl ⟨c, hc, hid, rfl⟩
    · exact .inl ⟨d, hd, hid, rfl⟩
  writing := hwriting
  nextId := Nat.le_of_eq hnext.symm

theorem untouched_accept (ok : Bool) : Untouched id s (s.handleAccept ok) := by
  cases ok with
  | false => exact .of_clients (fun d hd _ => hd) Iff.rfl rfl
  | true =>
      refine ⟨fun d hd hid => ?_, ?_, Nat.le_succ _⟩
      · obtain ⟨b, hb, rfl⟩ := List.mem_map.mp hd
        split at hid
        next heq =>
          rw [if_pos heq]
          exact .inr ⟨hid, rfl⟩
        next hne =>
          rw [if_neg hne]
          rcases List.mem_append.mp hb with hb | hb
          · exact .inl ⟨b, hb, hid, rfl⟩
          · rw [List.mem_singleton.mp hb] at hne
            exact absurd rfl hne
      · show (id, Op.write) ∈ (s.nextId, Op.read) :: s.outstanding ↔ _
        simp

/-- The handlers of another session leave a session as it is. -/
theorem untouched_of_ne (hs : OnePerSession s)
    (hop : (c.id, op) ∈ s.outstanding) (hne : c.id ≠ id)
    (hclients : ∀ d ∈ t.clients, d.id = id → d ∈ s.clients)
    (hwriting : ∀ op', (id, op') ∈ t.outstanding ↔ (id, op') ∈ (s.complete c.id op).outstanding)
    (hnext : t.nextId = s.nextId) : Untouched id s t := by
  refine .of_clients hclients ?_ hnext
  rw [hwriting, mem_outstanding_complete hs hop]
  exact ⟨fun h => h.1, fun h => ⟨h, fun heq => hne heq.symm⟩⟩

/-- What calls no handler of the session leaves it as it is. -/
theorem untouched_step (hs : OnePerSession s)
    (hstep : step lexicalCast sourceType correction s e = some t)
    (hother : e.session? ≠ some id) : Untouched id s t := by
  cases step_sound hstep with
  | accepted => exact untouched_accept _
  | @read c result _ hc hop =>
      have hne : c.id ≠ id := fun heq => hother (congrArg some heq)
      rcases handleRead_cases (s.complete c.id .read) c result with
        ⟨_, d, hid, hread⟩ | ⟨_, _, hread⟩ | ⟨_, text, _, hread | hread⟩
      · rw [hread]
        refine untouched_of_ne hs hop hne (fun b hb hbid => ?_) (fun _ => Iff.rfl) rfl
        exact client_other (s := s.complete c.id .read) hc hid hne hb hbid
      · rw [hread]
        exact untouched_of_ne hs hop hne (fun b hb _ => (mem_release.mp hb).1)
          (fun _ => Iff.rfl) rfl
      · rw [hread]
        refine untouched_of_ne hs hop hne (fun b hb hbid => ?_) (fun _ => Iff.rfl) rfl
        exact client_other (s := s.complete c.id .read)
          (d := c.command lexicalCast sourceType text) hc rfl hne hb hbid
      · rw [hread]
        refine untouched_of_ne hs hop hne (fun b hb hbid => ?_) (fun _ => mem_begin hne) rfl
        exact client_other (s := s.complete c.id .read)
          (d := c.command lexicalCast sourceType text) hc rfl hne hb hbid
  | @written c ok _ hc hop =>
      have hne : c.id ≠ id := fun heq => hother (congrArg some heq)
      rcases handleWrite_cases (s.complete c.id .write) c ok with
        ⟨_, hwrite⟩ | ⟨_, outRx, outTx, ⟨_, hwrite⟩ | ⟨_, hwrite⟩⟩
      · rw [hwrite]
        exact untouched_of_ne hs hop hne (fun b hb _ => hb) (fun _ => Iff.rfl) rfl
      · rw [hwrite]
        refine untouched_of_ne hs hop hne (fun b hb hbid => ?_) (fun _ => mem_begin hne) rfl
        exact client_other (d := { c with timerArmed := true }) hc rfl hne hb hbid
      · rw [hwrite]
        exact untouched_of_ne hs hop hne (fun b hb _ => (mem_release.mp hb).1)
          (fun _ => Iff.rfl) rfl
  | @sessionTimeout c _ hc _ =>
      obtain ⟨stopped, htimeout⟩ := sessionTimeout_eq s c
      rw [htimeout]
      exact untouched_timer hc false rfl Iff.rfl rfl
  | serverTimeout =>
      obtain ⟨armed, stopped, htimeout⟩ := serverTimeout_eq s
      rw [htimeout]
      exact .of_clients (fun d hd _ => hd) Iff.rfl rfl
  | cancelled =>
      obtain ⟨stopped, htimeout⟩ := cancelledTimeout_eq s
      rw [htimeout]
      exact .of_clients (fun d hd _ => hd) Iff.rfl rfl
  | threadTransferDeInit => exact .of_clients (fun d hd _ => hd) Iff.rfl rfl

/-! ## One more turn -/

theorem ofSession_other (hother : e.session? ≠ some id) :
    ofSession id (h ++ [(s, e)]) = ofSession id h := by
  rw [ofSession, List.filter_append, List.filter_cons_of_neg (by simpa using hother),
    List.filter_nil, List.append_nil, ofSession]

theorem ofSession_own (hown : e.session? = some id) :
    ofSession id (h ++ [(s, e)]) = ofSession id h ++ [(s, e)] := by
  rw [ofSession, List.filter_append, List.filter_cons_of_pos (by simpa using hown),
    List.filter_nil, ofSession]

theorem filterMap_own {α : Type*} (f : State β × Event → Option α)
    (hown : e.session? = some id) :
    (ofSession id (h ++ [(s, e)])).filterMap f =
      (ofSession id h).filterMap f ++ (f (s, e)).toList := by
  rw [ofSession_own hown, List.filterMap_append]
  cases hf : f (s, e) with
  | none => rw [List.filterMap_cons_none hf]; rfl
  | some y => rw [List.filterMap_cons_some hf]; rfl

theorem follows_untouched (hf : Follows lexicalCast sourceType id h s) (hu : Untouched id s t)
    (hother : e.session? ≠ some id) :
    Follows lexicalCast sourceType id (h ++ [(s, e)]) t := by
  have hsame := ofSession_other (h := h) (s := s) hother
  constructor
  · intro d hd hid
    rw [texts, hsame]
    rcases hu.session d hd hid with ⟨c, hc, hcid, hsession⟩ | ⟨hnext, hnew⟩
    · rw [← hsession]
      exact hf.session c hc hcid
    · rw [hnew, ← texts, hf.unborn (Nat.le_of_eq hnext)]
      rfl
  · intro hwriting
    rw [texts, hsame]
    exact hf.answering (hu.writing.mp hwriting)
  · rw [replies, texts, hsame]
    exact hf.replies
  · have hanswered : answered id t (texts id h) = answered id s (texts id h) := by
      simp only [answered, hu.writing]
    rw [callbacks, texts, hsame, ← texts, hanswered]
    exact hf.callbacks
  · intro hle
    rw [texts, hsame]
    exact hf.unborn (Nat.le_trans hu.nextId hle)

theorem not_unborn (hs : Accounted s) (hc : c ∈ s.clients) (hnext : t.nextId = s.nextId) :
    ¬ t.nextId ≤ c.id := by
  rw [hnext]
  exact Nat.not_le.mpr (hs.fresh c hc)

/-- A read that fails ends the session. -/
theorem follows_released (hf : Follows lexicalCast sourceType c.id h s) (hs : Accounted s)
    (ho : OnePerSession s) (hc : c ∈ s.clients) (hop : (c.id, Op.read) ∈ s.outstanding) :
    Follows lexicalCast sourceType c.id (h ++ [(s, .read c.id none)])
      ((s.complete c.id .read).release c) := by
  have hturn : ∀ {α : Type} (f : State β × Event → Option α), f (s, .read c.id none) = none →
      (ofSession c.id (h ++ [(s, .read c.id none)])).filterMap f =
        (ofSession c.id h).filterMap f := by
    intro α f hnone
    rw [filterMap_own f rfl, hnone]
    exact List.append_nil _
  have htexts : texts c.id (h ++ [(s, .read c.id none)]) = texts c.id h := hturn textOf rfl
  have hnot : (c.id, Op.write) ∉ ((s.complete c.id .read).release c).outstanding :=
    fun hwrite => ((mem_outstanding_complete ho hop).mp hwrite).2 rfl
  constructor
  · intro d hd hid
    exact absurd hid (mem_release.mp hd).2
  · intro hwriting
    exact absurd hwriting hnot
  · rw [htexts, replies, hturn _ rfl]
    exact hf.replies
  · have hcallbacks := hf.callbacks
    rw [answered, if_neg (not_writing ho hop)] at hcallbacks
    rw [htexts, callbacks, hturn _ rfl, answered, if_neg hnot]
    exact hcallbacks
  · intro hle
    exact absurd hle (not_unborn hs hc rfl)

/-- A text that begins no command sets nothing. -/
theorem publish_none {text : Str} (hother : ¬ BeginsCommand sourceType text) (session : Session) :
    session.publish lexicalCast sourceType text = none := by
  have hvalues : rxValue lexicalCast sourceType text = none ∧
      txValue lexicalCast sourceType text = none := by
    cases sourceType with
    | gpredict =>
        simp only [BeginsCommand, ← startsWith_singleton, not_or, Bool.not_eq_true] at hother
        simp [rxValue, txValue, rxField, txField, hother]
    | gsjd =>
        simp only [BeginsCommand, ← startsWith_singleton, not_or, Bool.not_eq_true] at hother
        simp [rxValue, txValue, rxField, txField, hother]
  rw [Session.publish, Session.hear, handleRead_eq, Session.after, hvalues.1, hvalues.2]
  simp [Session.callback]

/-- A read hears one more text, and answers it if it begins a command. -/
theorem follows_read (hf : Follows lexicalCast sourceType c.id h s) (hs : Accounted s)
    (ho : OnePerSession s) (hno : s.exitRequested = false) (hc : c ∈ s.clients)
    (hop : (c.id, Op.read) ∈ s.outstanding) (text : Str) :
    Follows lexicalCast sourceType c.id (h ++ [(s, .read c.id (some text))])
      ((s.complete c.id .read).handleRead lexicalCast sourceType c (some text)) := by
  have hsession := hf.session c hc rfl
  have htexts : texts c.id (h ++ [(s, .read c.id (some text))]) = texts c.id h ++ [text] := by
    rw [texts, filterMap_own _ rfl]
    simp [textOf, hno, texts]
  have hcallbacks : callbacks c.id (h ++ [(s, .read c.id (some text))]) = callbacks c.id h := by
    rw [callbacks, filterMap_own _ rfl]
    exact List.append_nil _
  have hold := hf.callbacks
  rw [answered, if_neg (not_writing ho hop)] at hold
  have hset : ∀ d ∈ ((s.complete c.id .read).setClient
      (c.command lexicalCast sourceType text)).clients, d.id = c.id →
      d.session = (texts c.id (h ++ [(s, .read c.id (some text))])).foldl
        (Session.hear lexicalCast sourceType) .new := by
    intro d hd hid
    rcases (mem_setClient (s := s.complete c.id .read) (c := c.command lexicalCast sourceType text)
      ⟨c, hc, rfl⟩).mp hd with rfl | ⟨_, hne⟩
    · rw [htexts, List.foldl_append, ← hsession]
      rfl
    · exact absurd hid hne
  have hreplies : replies lexicalCast sourceType c.id (h ++ [(s, .read c.id (some text))]) =
      outputs (Session.hear lexicalCast sourceType) (Session.reply lexicalCast sourceType) .new
        (texts c.id (h ++ [(s, .read c.id (some text))])) := by
    rw [htexts, outputs_concat, ← hsession, ← hf.replies, replies, filterMap_own _ rfl]
    simp [replyOf, hno, hs.client? hc, replies]
  rcases handleRead_some (s := s.complete c.id .read) hno c text with
    ⟨_, hread⟩ | ⟨hother, hread⟩
  · rw [hread]
    refine ⟨hset, ?_, hreplies, ?_, ?_⟩
    · intro _
      rw [htexts]
      exact List.concat_ne_nil _ _
    · have hwriting : (c.id, Op.write) ∈ (((s.complete c.id .read).setClient
          (c.command lexicalCast sourceType text)).begin c.id .write).outstanding :=
        List.mem_cons_self
      rw [hcallbacks, htexts, answered, if_pos hwriting, List.dropLast_concat]
      exact hold
    · intro hle
      exact absurd hle (not_unborn hs hc rfl)
  · have hnot : (c.id, Op.write) ∉ ((s.complete c.id .read).setClient
        (c.command lexicalCast sourceType text)).outstanding :=
      fun hwrite => ((mem_outstanding_complete ho hop).mp hwrite).2 rfl
    rw [hread]
    refine ⟨hset, ?_, hreplies, ?_, ?_⟩
    · intro hwriting
      exact absurd hwriting hnot
    · rw [hcallbacks, htexts, answered, if_neg hnot, outputs_concat, publish_none hother]
      rw [Option.toList_none, List.append_nil]
      exact hold
    · intro hle
      exact absurd hle (not_unborn hs hc rfl)

/-- A write hands over what the text before it has set. -/
theorem follows_written {ok : Bool} (hf : Follows lexicalCast sourceType c.id h s)
    (hs : Accounted s) (hno : s.exitRequested = false) (hc : c ∈ s.clients)
    (hop : (c.id, Op.write) ∈ s.outstanding)
    (hclients : ∀ d ∈ t.clients, d.id = c.id → d.session = c.session)
    (hnot : (c.id, Op.write) ∉ t.outstanding) (hnext : t.nextId = s.nextId) :
    Follows lexicalCast sourceType c.id (h ++ [(s, .write c.id ok)]) t := by
  have hsession := hf.session c hc rfl
  have htexts : texts c.id (h ++ [(s, .write c.id ok)]) = texts c.id h := by
    rw [texts, filterMap_own _ rfl]
    exact List.append_nil _
  have hcallbacks : callbacks c.id (h ++ [(s, .write c.id ok)]) =
      callbacks c.id h ++ c.session.callback.toList := by
    rw [callbacks, filterMap_own _ rfl, callbackOf_write hno, hs.client? hc, Option.bind_some,
      callbacks]
  obtain ⟨ts, text, hlast⟩ :=
    List.eq_nil_or_concat (texts c.id h) |>.resolve_left (hf.answering hop)
  constructor
  · intro d hd hid
    rw [htexts, hclients d hd hid]
    exact hsession
  · intro hwriting
    exact absurd hwriting hnot
  · rw [htexts, replies, filterMap_own _ rfl]
    rw [show replyOf lexicalCast sourceType (s, Event.write c.id ok) = none from rfl]
    rw [Option.toList_none, List.append_nil]
    exact hf.replies
  · have hold := hf.callbacks
    rw [answered, if_pos hop, hlast, List.concat_eq_append, List.dropLast_concat] at hold
    rw [hlast, List.concat_eq_append, List.foldl_append] at hsession
    rw [hcallbacks, htexts, answered, if_neg hnot, hlast, List.concat_eq_append, outputs_concat,
      hold, hsession]
    rfl
  · intro hle
    exact absurd hle (not_unborn hs hc hnext)

/-! ## Runs -/

/-- The handlers do not touch the flag. -/
theorem exitRequested_step (hstep : step lexicalCast sourceType correction s e = some t)
    (he : e ≠ .threadTransferDeInit) : t.exitRequested = s.exitRequested := by
  cases step_sound hstep with
  | @accepted ok =>
      cases ok with
      | true => rfl
      | false => rfl
  | @read c result =>
      rcases handleRead_cases (s.complete c.id .read) c result with
        ⟨_, d, _, hread⟩ | ⟨_, _, hread⟩ | ⟨_, text, _, hread | hread⟩
      · rw [hread]
        rfl
      · rw [hread]
        rfl
      · rw [hread]
        rfl
      · rw [hread]
        rfl
  | @written c ok =>
      rcases handleWrite_cases (s.complete c.id .write) c ok with
        ⟨_, hwrite⟩ | ⟨_, outRx, outTx, ⟨_, hwrite⟩ | ⟨_, hwrite⟩⟩
      · rw [hwrite]
        rfl
      · rw [hwrite]
        rfl
      · rw [hwrite]
        rfl
  | @sessionTimeout c =>
      obtain ⟨stopped, htimeout⟩ := sessionTimeout_eq s c
      rw [htimeout]
      rfl
  | serverTimeout =>
      obtain ⟨armed, stopped, htimeout⟩ := serverTimeout_eq s
      rw [htimeout]
  | cancelled =>
      obtain ⟨stopped, htimeout⟩ := cancelledTimeout_eq s
      rw [htimeout]
  | threadTransferDeInit => exact absurd rfl he

/-- A stop is not taken back. -/
theorem exitRequested_back (hstep : step lexicalCast sourceType correction s e = some t)
    (hno : t.exitRequested = false) : s.exitRequested = false := by
  by_cases he : e = .threadTransferDeInit
  · subst he
    cases step_sound hstep
    cases hno
  · rw [← exitRequested_step hstep he]
    exact hno

theorem follows_step (hf : s.exitRequested = false → Follows lexicalCast sourceType id h s)
    (hs : Accounted s) (ho : OnePerSession s)
    (hstep : step lexicalCast sourceType correction s e = some t)
    (hno : t.exitRequested = false) :
    Follows lexicalCast sourceType id (h ++ [(s, e)]) t := by
  by_cases hown : e.session? = some id
  · cases step_sound hstep with
    | accepted => cases hown
    | @read c result _ hc hop =>
        cases hown
        rcases handleRead_cases (s.complete c.id .read) c result with
          ⟨hexit, _, _, hread⟩ | ⟨hno', hnone, hread⟩ | ⟨hno', text, htext, _⟩
        · rw [hread] at hno
          exact absurd (hno.symm.trans hexit) Bool.false_ne_true
        · rw [hread, hnone]
          exact follows_released (hf hno') hs ho hc hop
        · rw [htext]
          exact follows_read (hf hno') hs ho hno' hc hop text
    | @written c ok _ hc hop =>
        cases hown
        have hnot : (c.id, Op.write) ∉ (s.complete c.id .write).outstanding :=
          fun hwrite => ((mem_outstanding_complete ho hop).mp hwrite).2 rfl
        rcases handleWrite_cases (s.complete c.id .write) c ok with
          ⟨hexit, hwrite⟩ | ⟨hno', outRx, outTx, ⟨_, hwrite⟩ | ⟨_, hwrite⟩⟩
        · rw [hwrite] at hno
          exact absurd (hno.symm.trans hexit) Bool.false_ne_true
        · rw [hwrite]
          refine follows_written (hf hno') hs hno' hc hop (fun d hd hid => ?_) ?_ rfl
          · rcases (mem_setClient (s := s) (c := { c with timerArmed := true })
              ⟨c, hc, rfl⟩).mp hd with rfl | ⟨_, hne⟩
            · rfl
            · exact absurd hid hne
          · rintro (_ | ⟨_, hmem⟩)
            exact hnot hmem
        · rw [hwrite]
          refine follows_written (hf hno') hs hno' hc hop (fun d hd hid => ?_) hnot rfl
          exact absurd hid (mem_release.mp hd).2
    | sessionTimeout => cases hown
    | serverTimeout => cases hown
    | cancelled => cases hown
    | threadTransferDeInit => cases hown
  · exact follows_untouched (hf (exitRequested_back hstep hno)) (untouched_step ho hstep hown) hown

theorem follows_initial : Follows lexicalCast sourceType id [] (initial : State β) where
  session := by
    intro c hc
    cases hc
  answering := by
    intro hwriting
    cases hwriting
  replies := rfl
  callbacks := rfl
  unborn := fun _ => rfl

/-- Until a stop is requested, every session has done what its texts say. -/
theorem Run.follows (run : Run lexicalCast sourceType correction h s)
    (hno : s.exitRequested = false) (id : Nat) : Follows lexicalCast sourceType id h s := by
  induction run with
  | nil => exact follows_initial
  | @snoc h s t e prev hstep ih =>
      have hinv := Transition.Run.invariant (P := fun s => Accounted s ∧ OnePerSession s)
        ⟨accounted_initial, onePerSession_initial⟩
        (fun hs hstep => ⟨hs.1.step hstep, hs.2.step hs.1 hstep⟩) prev
      exact follows_step ih hinv.1 hinv.2 hstep hno

end Doppler

end GsSDR
