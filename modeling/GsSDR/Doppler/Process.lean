import GsSDR.Doppler.Dialogue
import GsSDR.Lib.Latch
import GsSDR.Lib.LexicalCast

/-!
# Several Doppler blocks in one process

Every block has its own parameters, its own thread with a server, and its own
ports.  All blocks share `sInstance`, which is the block constructed last, and
the exit flag, which every constructor clears and every `stop` sets.  The
handlers of a server reach the block through `sInstance`.

So what a session of a block changes goes out on the ports of the last block and
with its base frequency, and its stop check is that of all blocks (`alone_iff`).

A destroyed block is taken to be stopped and still there.
-/

namespace GsSDR

namespace Doppler

open Cxx

/-- The thread of a block. -/
inductive Thread (β : Type*) where
  | created
  | running (server : State β)
  | ended
deriving Repr

/-- A block: its parameters, its thread, and what its ports have carried. -/
structure Block (κ β : Type*) where
  baseFrequency : κ
  sourceType : SourceType
  thread : Thread β
  outRx : List β
  outTx : List β
deriving Repr

/-- The blocks in the order of their construction, and the static variables. -/
structure Process (κ β : Type*) where
  blocks : List (Block κ β)
  sInstance : Option Nat
  exitRequested : Bool
deriving Repr

/-- What happens next in the process. -/
inductive Call (κ : Type*) where
  | construct (baseFrequency : κ) (sourceType : SourceType)
  /-- The thread of a block begins. -/
  | wait (i : Nat)
  | handler (i : Nat) (e : Event)
  /-- `stop`, or the destructor. -/
  | stop (i : Nat)
deriving DecidableEq, Repr

variable {κ β : Type*}

namespace Process

/-- Before any block is constructed. -/
def empty : Process κ β := ⟨[], none, false⟩

/-- `gs_doppler_correction_impl::gs_doppler_correction_impl`. -/
def construct (p : Process κ β) (baseFrequency : κ) (sourceType : SourceType) : Process κ β where
  blocks := p.blocks ++ [⟨baseFrequency, sourceType, .created, [], []⟩]
  sInstance := some p.blocks.length
  exitRequested := false

/-- `mainInstance`, with its index. -/
def mainInstance (p : Process κ β) : Option (Nat × Block κ β) :=
  p.sInstance.bind fun k => (p.blocks[k]?).map fun main => (k, main)

def setThread (p : Process κ β) (i : Nat) (thread : Thread β) : Process κ β :=
  { p with blocks := p.blocks.modify i fun b => { b with thread := thread } }

def setPorts (p : Process κ β) (k : Nat) (outRx outTx : List β) : Process κ β :=
  { p with blocks := p.blocks.modify k fun b => { b with outRx := outRx, outTx := outTx } }

/-- `gs_doppler_correction_wait`, up to `run`. -/
def wait (p : Process κ β) (i : Nat) : Option (Process κ β) :=
  match (p.blocks[i]?).map Block.thread with
  | some .created => some (p.setThread i (if p.exitRequested then .ended else .running initial))
  | _ => none

/-- What the handlers of a server see: the static flag, and the ports of the
main instance. -/
def view (p : Process κ β) (main : Block κ β) (server : State β) : State β :=
  { server with exitRequested := p.exitRequested, outRx := main.outRx, outTx := main.outTx }

end Process

variable (lexicalCast : Str → Option Int) (correction : κ → Int → β)

/-- A handler of the server of a block. -/
def Process.handler (p : Process κ β) (i : Nat) (e : Event) : Option (Process κ β) :=
  match p.blocks[i]?, p.mainInstance with
  | some b, some (k, main) =>
      match b.thread with
      | .running server =>
          (step lexicalCast b.sourceType (correction main.baseFrequency) (p.view main server) e).map
            fun t => (p.setPorts k t.outRx t.outTx).setThread i (.running t)
      | _ => none
  | _, _ => none

/-- One event of the process. -/
def Process.step (p : Process κ β) (c : Call κ) : Option (Process κ β) :=
  match c with
  | .construct baseFrequency sourceType => some (p.construct baseFrequency sourceType)
  | .wait i => p.wait i
  | .handler i e =>
      -- the flag is set by `stop` only
      if e = .threadTransferDeInit then none else p.handler lexicalCast correction i e
  | .stop i => if i < p.blocks.length then some { p with exitRequested := true } else none

/-- The runs of a process. -/
abbrev Process.Run (h : List (Process κ β × Call κ)) (p : Process κ β) : Prop :=
  Transition.Run (Process.step lexicalCast correction) Process.empty h p

/-! ## What the blocks do for each other -/

def Call.isStop : Call κ → Bool
  | .stop _ => true
  | _ => false

def Call.isConstruct : Call κ → Bool
  | .construct _ _ => true
  | _ => false

/-- The frequencies that a session has changed, when the reply has been
written. -/
def changeOf (server : State β) : Event → Option (Int × Int)
  | .write id _ => (server.client? id).bind fun c => c.session.callback
  | _ => none

/-- The handler makes the stop check. -/
def checksStop (server : State β) : Event → Bool
  | .read _ _ => true
  | .write _ _ => true
  | .sessionTimeout _ => true
  | .cancelled => true
  -- it returns before the check while a session is counted
  | .serverTimeout => server.count == 0
  | _ => false

/-- The ports of a block get the corrections of these frequencies, with its base
frequency. -/
def Block.Publishes (d d' : Block κ β) (freqs : Option (Int × Int)) : Prop :=
  d'.outRx = d.outRx ++ (freqs.map fun f => correction d.baseFrequency f.1).toList ∧
    d'.outTx = d.outTx ++ (freqs.map fun f => correction d.baseFrequency f.2).toList

/-- A change by a session of a block goes out on the ports of this block, with
its base frequency, and on no others; and a stop check of the block is true only
when it has been stopped. -/
def Alone (calls : List (Call κ)) (p : Process κ β) (c : Call κ) : Prop :=
  ∀ i e b server q, c = .handler i e → p.blocks[i]? = some b → b.thread = .running server →
    p.step lexicalCast correction c = some q →
    (∀ (j : Nat) (d d' : Block κ β), p.blocks[j]? = some d → q.blocks[j]? = some d' →
        d.Publishes correction d' (if j = i then changeOf server e else none)) ∧
      (checksStop server e = true → p.exitRequested = true → Call.stop i ∈ calls)

/-- A block is stopped, and none has been constructed since. -/
def StopInForce (calls : List (Call κ)) : Prop :=
  Transition.Latched Call.isStop Call.isConstruct calls

/-- When a session has changed a frequency, its block is the last one, and no stop
is in force; and a stop is in force at a stop check of a block only when this block
has been stopped. -/
def LastAndOwnStop (calls : List (Call κ)) (p : Process κ β) (c : Call κ) : Prop :=
  ∀ i e b server, c = .handler i e → p.blocks[i]? = some b → b.thread = .running server →
    ((changeOf server e).isSome = true → i + 1 = p.blocks.length ∧ ¬ StopInForce calls) ∧
      (checksStop server e = true → StopInForce calls → Call.stop i ∈ calls)

variable {lexicalCast} {correction} {h : List (Process κ β × Call κ)} {p q : Process κ β}
  {b d d' main : Block κ β} {c : Call κ} {e : Event} {server : State β} {i j k : Nat}

/-! ## The handler of a block -/

theorem Process.setThread_getElem? (thread : Thread β) :
    (p.setThread i thread).blocks[j]? =
      (p.blocks[j]?).map fun d => if i = j then { d with thread := thread } else d := by
  rw [Process.setThread, List.getElem?_modify]
  rfl

theorem Process.setPorts_getElem? (outRx outTx : List β) :
    (p.setPorts k outRx outTx).blocks[j]? =
      (p.blocks[j]?).map fun d =>
        if k = j then { d with outRx := outRx, outTx := outTx } else d := by
  rw [Process.setPorts, List.getElem?_modify]
  rfl

theorem Process.mainInstance_some (h : p.mainInstance = some (k, main)) :
    p.sInstance = some k ∧ p.blocks[k]? = some main := by
  obtain ⟨k', hk', hmap⟩ := Option.bind_eq_some_iff.mp h
  obtain ⟨main', hmain', heq⟩ := Option.map_eq_some_iff.mp hmap
  cases heq
  exact ⟨hk', hmain'⟩

/-- A handler runs in the server of its block, on the flag of all blocks and the
ports of the main instance. -/
theorem Process.handler_some (hq : p.handler lexicalCast correction i e = some q) :
    ∃ b server k main t, p.blocks[i]? = some b ∧ b.thread = .running server ∧
      p.sInstance = some k ∧ p.blocks[k]? = some main ∧
      Doppler.step lexicalCast b.sourceType (correction main.baseFrequency) (p.view main server) e =
        some t ∧
      q = (p.setPorts k t.outRx t.outTx).setThread i (.running t) := by
  rw [Process.handler] at hq
  split at hq
  next b k main hb hmain =>
    obtain ⟨hk, hkmain⟩ := Process.mainInstance_some hmain
    split at hq
    next server hthread =>
      obtain ⟨t, ht, rfl⟩ := Option.map_eq_some_iff.mp hq
      exact ⟨b, server, k, main, t, hb, hthread, hk, hkmain, ht, rfl⟩
    next => cases hq
  next => cases hq

/-- All that the other events of the process can do. -/
theorem Process.wait_some (hq : p.wait i = some q) :
    ∃ b, p.blocks[i]? = some b ∧ b.thread = .created ∧
      q = p.setThread i (if p.exitRequested then .ended else .running initial) := by
  rw [Process.wait] at hq
  split at hq
  next hcreated =>
    cases hq
    obtain ⟨b, hb, hthread⟩ := Option.map_eq_some_iff.mp hcreated
    exact ⟨b, hb, hthread, rfl⟩
  next => cases hq

theorem Process.step_handler (hstep : p.step lexicalCast correction (.handler i e) = some q) :
    e ≠ .threadTransferDeInit ∧ p.handler lexicalCast correction i e = some q := by
  simp only [Process.step] at hstep
  split at hstep
  next => cases hstep
  next hne => exact ⟨hne, hstep⟩

theorem Process.step_stop (hstep : p.step lexicalCast correction (.stop i) = some q) :
    i < p.blocks.length ∧ q = { p with exitRequested := true } := by
  simp only [Process.step] at hstep
  split at hstep
  next hi =>
    cases hstep
    exact ⟨hi, rfl⟩
  next => cases hstep

/-- What the handler hands over goes out on the ports of the main instance. -/
theorem Process.handler_ports {t : State β} (hk : p.blocks[k]? = some main)
    (hs : Accounted server)
    (hstep : Doppler.step lexicalCast b.sourceType (correction main.baseFrequency)
      (p.view main server) e = some t)
    (hd : p.blocks[j]? = some d)
    (hd' : ((p.setPorts k t.outRx t.outTx).setThread i (.running t)).blocks[j]? = some d') :
    d.Publishes correction d' (if j = k then callbackOf (p.view main server, e) else none) := by
  have hports := step_ports (s := p.view main server) (hs.of_eq rfl rfl rfl) hstep
  rw [Process.setThread_getElem?, Process.setPorts_getElem?, hd, Option.map_some, Option.map_some,
    Option.some.injEq] at hd'
  by_cases hjk : j = k
  · subst hjk
    cases hk.symm.trans hd
    rw [if_pos rfl] at hd' ⊢
    split at hd'
    next =>
      subst hd'
      exact hports
    next =>
      subst hd'
      exact hports
  · rw [if_neg (Ne.symm hjk)] at hd'
    rw [if_neg hjk]
    split at hd'
    next =>
      subst hd'
      exact ⟨(List.append_nil _).symm, (List.append_nil _).symm⟩
    next =>
      subst hd'
      exact ⟨(List.append_nil _).symm, (List.append_nil _).symm⟩

/-! ## Invariants -/

/-- What holds of the static variables and the servers in every state. -/
structure Process.Shared (p : Process κ β) : Prop where
  last : ∀ k, p.sInstance = some k → k + 1 = p.blocks.length
  accounted : ∀ (i : Nat) (b : Block κ β) (server : State β), p.blocks[i]? = some b →
    b.thread = .running server → Accounted server

theorem Process.shared_empty : (Process.empty : Process κ β).Shared where
  last := by
    intro k hk
    cases hk
  accounted := by
    intro i b server hb
    cases hb

theorem Process.Shared.construct (hp : p.Shared) (baseFrequency : κ) (sourceType : SourceType) :
    (p.construct baseFrequency sourceType).Shared where
  last := by
    intro k hk
    cases hk
    show _ = (p.blocks ++ [_]).length
    rw [List.length_append]
    rfl
  accounted := by
    intro i b server hb hthread
    rcases List.mem_append.mp (List.mem_of_getElem? hb) with hold | hnew
    · obtain ⟨i', hi'⟩ := List.mem_iff_getElem?.mp hold
      exact hp.accounted i' b server hi' hthread
    · rw [List.mem_singleton.mp hnew] at hthread
      cases hthread

theorem Process.Shared.setThread (hp : p.Shared) {thread : Thread β}
    (hthread : ∀ server, thread = .running server → Accounted server) :
    (p.setThread i thread).Shared where
  last := by
    intro k hk
    rw [Process.setThread, List.length_modify]
    exact hp.last k hk
  accounted := by
    intro j b server hb hrunning
    rw [Process.setThread_getElem?] at hb
    obtain ⟨d, hd, rfl⟩ := Option.map_eq_some_iff.mp hb
    split at hrunning
    next => exact hthread server hrunning
    next => exact hp.accounted j d server hd hrunning

theorem Process.Shared.setPorts (hp : p.Shared) (outRx outTx : List β) :
    (p.setPorts k outRx outTx).Shared where
  last := by
    intro k' hk'
    rw [Process.setPorts, List.length_modify]
    exact hp.last k' hk'
  accounted := by
    intro j b server hb hrunning
    rw [Process.setPorts_getElem?] at hb
    obtain ⟨d, hd, rfl⟩ := Option.map_eq_some_iff.mp hb
    split at hrunning
    next => exact hp.accounted j d server hd hrunning
    next => exact hp.accounted j d server hd hrunning

theorem Process.Shared.wait (hp : p.Shared) (hq : p.wait i = some q) : q.Shared := by
  obtain ⟨_, _, _, rfl⟩ := Process.wait_some hq
  refine hp.setThread fun server hserver => ?_
  split at hserver
  next => cases hserver
  next =>
    cases hserver
    exact accounted_initial

theorem Process.Shared.step (hp : p.Shared)
    (hstep : p.step lexicalCast correction c = some q) : q.Shared := by
  cases c with
  | construct baseFrequency sourceType =>
      cases hstep
      exact hp.construct baseFrequency sourceType
  | wait i => exact hp.wait hstep
  | handler i e =>
      obtain ⟨_, hhandler⟩ := Process.step_handler hstep
      obtain ⟨b, server, k, main, t, hb, hthread, _, _, ht, rfl⟩ := Process.handler_some hhandler
      refine (hp.setPorts _ _).setThread fun server' hserver' => ?_
      cases hserver'
      have hview : Accounted (p.view main server) :=
        (hp.accounted i b server hb hthread).of_eq rfl rfl rfl
      exact hview.step ht
  | stop i =>
      obtain ⟨_, rfl⟩ := Process.step_stop hstep
      exact ⟨hp.last, hp.accounted⟩

/-- The exit flag is set exactly if a stop is in force. -/
theorem Process.exitRequested_iff (run : Process.Run lexicalCast correction h p) :
    p.exitRequested = true ↔ StopInForce (h.map Prod.snd) := by
  refine run.latch (f := Process.exitRequested) rfl ?_
  intro p c q hstep
  cases c with
  | construct baseFrequency sourceType =>
      cases hstep
      rfl
  | wait i =>
      obtain ⟨_, _, _, rfl⟩ := Process.wait_some hstep
      rfl
  | handler i e =>
      obtain ⟨_, hhandler⟩ := Process.step_handler hstep
      obtain ⟨b, server, k, main, t, hb, hthread, _, _, _, rfl⟩ := Process.handler_some hhandler
      rfl
  | stop i =>
      obtain ⟨_, rfl⟩ := Process.step_stop hstep
      rfl

/-! ## One block -/

theorem Process.length_le (hstep : p.step lexicalCast correction c = some q) :
    p.blocks.length ≤ q.blocks.length := by
  cases c with
  | construct baseFrequency sourceType =>
      cases hstep
      show _ ≤ (p.blocks ++ [_]).length
      rw [List.length_append]
      exact Nat.le_add_right _ _
  | wait i =>
      obtain ⟨_, _, _, rfl⟩ := Process.wait_some hstep
      exact Nat.le_of_eq (List.length_modify ..).symm
  | handler i e =>
      obtain ⟨_, hhandler⟩ := Process.step_handler hstep
      obtain ⟨b, server, k, main, t, hb, hthread, _, _, _, rfl⟩ := Process.handler_some hhandler
      rw [Process.setThread, Process.setPorts, List.length_modify, List.length_modify]
  | stop i =>
      obtain ⟨_, rfl⟩ := Process.step_stop hstep
      exact Nat.le_refl _

theorem stopped_of_step {sourceType : SourceType} {f : Int → β} {s t : State β}
    (hstep : Doppler.step lexicalCast sourceType f s e = some t) : s.stopped = false := by
  simp only [Doppler.step] at hstep
  split at hstep
  next hready => exact hready.1
  next => cases hstep

/-- A block that is the only one: it is the main instance, its ports have carried
nothing before its thread begins, and its server runs as the event loop says, until
it stops. -/
structure Process.Single (lexicalCast : Str → Option Int) (correction : κ → Int → β)
    (p : Process κ β) (b : Block κ β) : Prop where
  main : p.sInstance = some 0
  ports : b.thread = .created → b.outRx = [] ∧ b.outTx = []
  runs : ∀ server, b.thread = .running server → server.stopped = false →
    ∃ k, Doppler.Run lexicalCast b.sourceType (correction b.baseFrequency) k (p.view b server)

theorem Process.Single.wait (hs : p.Single lexicalCast correction b) (hthread : b.thread = .created)
    {thread : Thread β} (hbegins : thread = if p.exitRequested then .ended else .running initial) :
    (p.setThread 0 thread).Single lexicalCast correction { b with thread := thread } := by
  refine ⟨hs.main, fun hagain => ?_, fun server hserver _ => ?_⟩
  · change thread = .created at hagain
    rw [hbegins] at hagain
    split at hagain
    next => cases hagain
    next => cases hagain
  · change thread = .running server at hserver
    rw [hbegins] at hserver
    split at hserver
    next => cases hserver
    next hno =>
      cases hserver
      obtain ⟨hrx, htx⟩ := hs.ports hthread
      have hview : (p.setThread 0 thread).view { b with thread := thread } initial = initial := by
        rw [Process.view]
        dsimp only [Process.setThread]
        rw [hrx, htx, Bool.eq_false_iff.mpr hno]
        rfl
      rw [hview]
      exact ⟨[], .nil⟩

theorem Process.Single.handler {t : State β} (hs : p.Single lexicalCast correction b)
    (hthread : b.thread = .running server) (he : e ≠ .threadTransferDeInit)
    (ht : Doppler.step lexicalCast b.sourceType (correction b.baseFrequency) (p.view b server) e =
      some t) :
    ((p.setPorts 0 t.outRx t.outTx).setThread 0 (.running t)).Single lexicalCast correction
      { b with outRx := t.outRx, outTx := t.outTx, thread := .running t } := by
  refine ⟨hs.main, fun hcreated => ?_, fun server' hserver' _ => ?_⟩
  · cases hcreated
  · cases hserver'
    obtain ⟨k, hk⟩ := hs.runs server hthread (stopped_of_step (s := p.view b server) ht)
    have hview : { t with exitRequested := p.exitRequested } = t := by
      rw [show p.exitRequested = t.exitRequested from (exitRequested_step ht he).symm]
    refine ⟨k ++ [(p.view b server, e)], ?_⟩
    show Transition.Run _ initial _ { t with exitRequested := p.exitRequested }
    rw [hview]
    exact hk.snoc ht

theorem Process.Single.stop (hs : p.Single lexicalCast correction b) :
    Process.Single lexicalCast correction { p with exitRequested := true } b := by
  refine ⟨hs.main, hs.ports, fun server hserver hgoes => ?_⟩
  obtain ⟨k, hk⟩ := hs.runs server hserver hgoes
  refine ⟨_, hk.snoc (e := .threadTransferDeInit) ?_⟩
  rw [Doppler.step, if_pos ⟨hgoes, trivial⟩]
  rfl

/-- The server of a block that is the only one runs as the event loop says. -/
theorem Process.single (run : Process.Run lexicalCast correction h p) (hone : p.blocks.length ≤ 1)
    (hb : p.blocks[0]? = some b) : p.Single lexicalCast correction b := by
  induction run generalizing b with
  | nil => cases hb
  | @snoc h p q c prev hstep ih =>
      have hone' := Nat.le_trans (Process.length_le hstep) hone
      have hindex : ∀ {i : Nat} {d : Block κ β}, p.blocks[i]? = some d → i = 0 := by
        intro i d hd
        exact Nat.lt_one_iff.mp
          (Nat.lt_of_lt_of_le (List.getElem?_eq_some_iff.mp hd).1 hone')
      cases c with
      | construct baseFrequency sourceType =>
          cases hstep
          have hblocks : p.blocks = [] := by
            change (p.blocks ++ [_]).length ≤ 1 at hone
            rw [List.length_append, List.length_singleton] at hone
            exact List.eq_nil_of_length_eq_zero (by omega)
          rw [Process.construct, hblocks] at hb
          cases hb
          refine ⟨by rw [Process.construct, hblocks]; rfl, fun _ => ⟨rfl, rfl⟩, fun server h => ?_⟩
          cases h
      | wait i =>
          obtain ⟨b₀, hb₀, hthread, rfl⟩ := Process.wait_some hstep
          cases hindex hb₀
          rw [Process.setThread_getElem?, hb₀, Option.map_some, if_pos rfl] at hb
          cases hb
          exact (ih hone' hb₀).wait hthread rfl
      | handler i e =>
          obtain ⟨hne, hhandler⟩ := Process.step_handler hstep
          obtain ⟨b₀, server, k, main, t, hb₀, hthread, _, hkmain, ht, rfl⟩ :=
            Process.handler_some hhandler
          cases hindex hb₀
          cases hindex hkmain
          cases hb₀.symm.trans hkmain
          rw [Process.setThread_getElem?, Process.setPorts_getElem?, hb₀, Option.map_some,
            Option.map_some, if_pos rfl, if_pos rfl] at hb
          cases hb
          exact (ih hone' hb₀).handler hthread hne ht
      | stop i =>
          obtain ⟨_, rfl⟩ := Process.step_stop hstep
          exact (ih hone' hb).stop

/-! ## Runs -/

/-- A handler hands over the change of its session, unless a stop is noticed. -/
theorem callbackOf_view (p : Process κ β) (main : Block κ β) (server : State β) (e : Event) :
    callbackOf (p.view main server, e) =
      if p.exitRequested then none else changeOf server e := by
  cases e with
  | write id ok => rfl
  | _ => exact (ite_self none).symm

/-- What two frequency changes publish is one list only if both are none or
neither is. -/
theorem Block.Publishes.isSome_eq {freqs freqs' : Option (Int × Int)}
    (hd : d.Publishes correction d' freqs) (hd' : d.Publishes correction d' freqs') :
    freqs.isSome = freqs'.isSome := by
  have hlength := congrArg List.length (List.append_cancel_left (hd.1.symm.trans hd'.1))
  cases freqs with
  | none =>
      cases freqs' with
      | none => rfl
      | some f => cases hlength
  | some f =>
      cases freqs' with
      | none => cases hlength
      | some f' => rfl

theorem alone_step_iff {calls : List (Call κ)} (hp : p.Shared)
    (hstop : p.exitRequested = true ↔ StopInForce calls)
    (hstep : p.step lexicalCast correction c = some q) :
    Alone lexicalCast correction calls p c ↔ LastAndOwnStop calls p c := by
  constructor
  · rintro halone i e b server rfl hb hthread
    obtain ⟨hports, hcheck⟩ := halone i e b server q rfl hb hthread hstep
    refine ⟨fun hchange => ?_, fun hchecks hforce => hcheck hchecks (hstop.mpr hforce)⟩
    obtain ⟨_, hhandler⟩ := Process.step_handler hstep
    obtain ⟨b', server', k, main, t, hb', hthread', hk, hkmain, ht, rfl⟩ :=
      Process.handler_some hhandler
    cases hb.symm.trans hb'
    cases hthread.symm.trans hthread'
    obtain ⟨d', hd'⟩ : ∃ d',
        ((p.setPorts k t.outRx t.outTx).setThread i (.running t)).blocks[i]? = some d' := by
      rw [Process.setThread_getElem?, Process.setPorts_getElem?, hb]
      exact ⟨_, rfl⟩
    have hown := hports i b d' hb hd'
    rw [if_pos rfl] at hown
    have hhanded := Process.handler_ports hkmain (hp.accounted i b server hb hthread) ht hb hd'
    rw [callbackOf_view] at hhanded
    have hsome := hown.isSome_eq hhanded
    rw [hchange] at hsome
    split at hsome
    next hik =>
      split at hsome
      next => cases hsome
      next hno => exact ⟨hik ▸ hp.last k hk, fun hforce => hno (hstop.mpr hforce)⟩
    next => cases hsome
  · rintro hcond i e b server q' rfl hb hthread hq'
    cases hstep.symm.trans hq'
    obtain ⟨hchange, hcheck⟩ := hcond i e b server rfl hb hthread
    refine ⟨fun j d d' hd hd' => ?_, fun hchecks hexit => hcheck hchecks (hstop.mp hexit)⟩
    obtain ⟨_, hhandler⟩ := Process.step_handler hstep
    obtain ⟨b', server', k, main, t, hb', hthread', hk, hkmain, ht, rfl⟩ :=
      Process.handler_some hhandler
    cases hb.symm.trans hb'
    cases hthread.symm.trans hthread'
    have hhanded := Process.handler_ports hkmain (hp.accounted i b server hb hthread) ht hd hd'
    rw [callbackOf_view] at hhanded
    cases hchanged : changeOf server e with
    | none =>
        rw [hchanged] at hhanded
        simp only [ite_self] at hhanded ⊢
        exact hhanded
    | some f =>
        obtain ⟨hlast, hforce⟩ := hchange (by rw [hchanged]; rfl)
        have hik : i = k := Nat.succ_injective (hlast.trans (hp.last k hk).symm)
        have hno : ¬ p.exitRequested = true := fun hexit => hforce (hstop.mp hexit)
        rw [if_neg hno, ← hik, hchanged] at hhanded
        exact hhanded

/-- In every run of a process, a handler works for its own block alone exactly
under the condition. -/
theorem alone_iff (run : Process.Run lexicalCast correction h p) :
    ∀ h₁ r h₂, h = h₁ ++ r :: h₂ →
      (Alone lexicalCast correction (h₁.map Prod.snd) r.1 r.2 ↔
        LastAndOwnStop (h₁.map Prod.snd) r.1 r.2) := by
  intro h₁ r h₂ hsplit
  obtain ⟨before, q, hstep⟩ := run.before hsplit
  have hshared : r.1.Shared :=
    Transition.Run.invariant Process.shared_empty Process.Shared.step before
  exact alone_step_iff hshared (Process.exitRequested_iff before) hstep

/-- A block that is the only one serves a client and is stopped. -/
theorem alone_iff_oneBlock :
    ∃ r, Transition.exec (Process.step lexicalCastInt exactCorrection) Process.empty
        [.construct 1000 .gpredict, .wait 0, .handler 0 (.accept true),
          .handler 0 (.read 0 (some ['F', '1', '0', '0', '\n'])), .handler 0 (.write 0 true),
          .stop 0, .handler 0 (.sessionTimeout 0)] = some r ∧
      r.2.blocks.map Block.outRx = [[900]] ∧
      ∀ h₁ u h₂, r.1 = h₁ ++ u :: h₂ →
        (Alone lexicalCastInt exactCorrection (h₁.map Prod.snd) u.1 u.2 ↔
          LastAndOwnStop (h₁.map Prod.snd) u.1 u.2) := by
  obtain ⟨r, hr, hrx⟩ : ∃ r, Transition.exec (Process.step lexicalCastInt exactCorrection)
      Process.empty [.construct 1000 .gpredict, .wait 0, .handler 0 (.accept true),
        .handler 0 (.read 0 (some ['F', '1', '0', '0', '\n'])), .handler 0 (.write 0 true),
        .stop 0, .handler 0 (.sessionTimeout 0)] = some r ∧
      r.2.blocks.map Block.outRx = [[900]] := ⟨_, rfl, rfl⟩
  exact ⟨r, hr, hrx, alone_iff (Transition.exec_run hr)⟩

/-- A second block is constructed, and then a client of the first one sets 100. -/
theorem alone_fails_twoBlocks :
    ∃ (h : List (Process Int Int × Call Int)) (p q : Process Int Int) (c : Call Int),
      Process.Run lexicalCastInt exactCorrection h p ∧
        p.step lexicalCastInt exactCorrection c = some q ∧
        q.blocks.map Block.outRx = [[], [1900]] ∧
        ¬ Alone lexicalCastInt exactCorrection (h.map Prod.snd) p c := by
  obtain ⟨r, hr, q, hstep, hrx, b, server, hb, hthread, hchange, b', hb', hbefore, hbehind⟩ :
      ∃ r, Transition.exec (Process.step lexicalCastInt exactCorrection) Process.empty
          [.construct 1000 .gpredict, .wait 0, .construct 2000 .gpredict,
            .handler 0 (.accept true),
            .handler 0 (.read 0 (some ['F', '1', '0', '0', '\n']))] = some r ∧
        ∃ q, r.2.step lexicalCastInt exactCorrection (.handler 0 (.write 0 true)) = some q ∧
          q.blocks.map Block.outRx = [[], [1900]] ∧
          ∃ b server, r.2.blocks[0]? = some b ∧ b.thread = .running server ∧
            changeOf server (.write 0 true) = some (100, 0) ∧
            ∃ b', q.blocks[0]? = some b' ∧ b.outRx = [] ∧ b'.outRx = [] :=
    ⟨_, rfl, _, rfl, rfl, _, _, rfl, rfl, rfl, _, rfl, rfl, rfl⟩
  refine ⟨r.1, r.2, q, _, Transition.exec_run hr, hstep, hrx, fun halone => ?_⟩
  have hports := ((halone 0 _ b server q rfl hb hthread hstep).1 0 b b' hb hb').1
  rw [if_pos rfl, hchange, hbefore, hbehind] at hports
  cases hports

end Doppler

end GsSDR
