import GsSDR.Afsk.Progress
import GsSDR.BuildPacket.Transfer
import GsSDR.HttpSource.Poll

/-!
# The transmit flowgraph

In the transmit flowgraph `vzlu_sat_tx_0`, `build_packet_1`, triggered by a strobe, and
`http_transfer_source`, which polls a server, are wired to the port `in` of
`afsk_basic`.  As committed the source is disabled, so the runs there are those without
a poll.  Messages wait at the port until the block handles them, in the order in which
they were published.  Strobes, polls, the handling of a message and the calls of `work`
come in any order.

`Wired` says what the order of events does not change: everything published is
handled or waits, in the order of publication, and of this the packets are what
the builder published and the telecommands are what the source published.
-/

namespace GsSDR.Transmit

open Afsk

variable {R S : Type}

/-- The dictionary of a message, from the block that published it. -/
inductive Dict where
  | packet (dict : Option BuildPacket.Meta)
  | telecommand (timestamp spacecraftId radioId : Int)
deriving DecidableEq, Repr

def Dict.isPacket : Dict → Bool
  | .packet _ => true
  | .telecommand _ _ _ => false

/-- What the builder publishes on `out_pdus`. -/
def packetMsg : BuildPacket.Message → Option (Msg Dict)
  | .stat _ => none
  | .out dict vector => some ⟨.packet dict, vector⟩

/-- What the source publishes on `out`. -/
def telecommandMsg (pdu : HttpSource.Pdu) : Msg Dict :=
  ⟨.telecommand pdu.timestamp pdu.spacecraftId pdu.radioId, pdu.u8vector⟩

/-- What the blocks are made with, and what is outside of them. -/
structure Flowgraph (R S : Type) where
  fl : Floats R S
  modulator : Basic R
  crc32 : List UInt8 → UInt32
  /-- What the file holds. -/
  content : List UInt8
  tree : HttpSource.PropertyTree

/-- The blocks, the messages at the port `in`, and all that was published to it. -/
structure State (R S : Type) where
  builder : BuildPacket.State
  source : HttpSource.State
  queue : List (Msg Dict)
  modulator : Basic.State R S Dict
  sent : List (Msg Dict)

def initial (builder : BuildPacket.State) (connected : Bool) : State R S where
  builder
  source := HttpSource.initial connected
  queue := []
  modulator := Basic.initial
  sent := []

inductive Event where
  /-- The strobe triggers the builder, with these random numbers. -/
  | strobe (rand : Nat → Nat)
  /-- An iteration of the source. -/
  | poll (poll : HttpSource.Poll)
  /-- The modulator handles a message. -/
  | deliver
  /-- The modulator is asked for samples. -/
  | work (length : Nat)

/-- Messages go to the port. -/
def State.post (s : State R S) (msgs : List (Msg Dict)) : State R S :=
  { s with queue := s.queue ++ msgs, sent := s.sent ++ msgs }

section

variable [Add R] [Mul R] [Div R] [NatCast R] (g : Flowgraph R S)

def step (s : State R S) : Event → Option (State R S)
  | .strobe rand =>
      (BuildPacket.packetHandler g.crc32 rand g.content s.builder).map fun r =>
        { s.post (r.1.filterMap packetMsg) with builder := r.2 }
  | .poll poll =>
      (HttpSource.step g.tree s.source poll).map fun t =>
        { s.post ((t.published.drop s.source.published.length).map telecommandMsg) with
          source := t }
  | .deliver =>
      match s.queue with
      | [] => none
      | msg :: queue =>
          (Basic.step g.fl g.modulator s.modulator (.handleMsg msg)).map fun t =>
            { s with queue, modulator := t }
  | .work length =>
      (Basic.step g.fl g.modulator s.modulator (.work length)).map fun t =>
        { s with modulator := t }

abbrev Run (builder : BuildPacket.State) (connected : Bool) (h : List (State R S × Event))
    (s : State R S) : Prop :=
  Transition.Run (step g) (initial builder connected) h s

/-- The random numbers of the strobes. -/
def Event.rand : Event → Option (Nat → Nat)
  | .strobe rand => some rand
  | _ => none

def strobes (h : List (State R S × Event)) : List (Nat → Nat) := h.filterMap fun p => p.2.rand

/-- What the order of events does not change. -/
structure Wired (builder : BuildPacket.State) (rands : List (Nat → Nat)) (s : State R S) :
    Prop where
  handled : s.sent = s.modulator.received ++ s.queue
  packets : ∃ ms, BuildPacket.triggers g.crc32 g.content rands builder = some (ms, s.builder) ∧
    s.sent.filter (fun msg => msg.dict.isPacket) = ms.filterMap packetMsg
  telecommands : s.sent.filter (fun msg => !msg.dict.isPacket) =
    s.source.published.map telecommandMsg
  streaming : Basic.Streaming g.fl g.modulator s.modulator

end

/-! ## What the blocks publish -/

theorem filter_packetMsg (ms : List BuildPacket.Message) :
    (ms.filterMap packetMsg).filter (fun msg => msg.dict.isPacket) = ms.filterMap packetMsg ∧
      (ms.filterMap packetMsg).filter (fun msg => !msg.dict.isPacket) = [] := by
  induction ms with
  | nil => exact ⟨rfl, rfl⟩
  | cons m ms ih =>
      cases m with
      | stat dict => exact ih
      | out dict vector =>
          obtain ⟨hpackets, hothers⟩ := ih
          constructor
          · simpa [packetMsg, Dict.isPacket] using hpackets
          · simpa [packetMsg, Dict.isPacket] using hothers

theorem filter_telecommandMsg (pdus : List HttpSource.Pdu) :
    (pdus.map telecommandMsg).filter (fun msg => msg.dict.isPacket) = [] ∧
      (pdus.map telecommandMsg).filter (fun msg => !msg.dict.isPacket) =
        pdus.map telecommandMsg := by
  constructor
  · rw [List.filter_eq_nil_iff]
    simp [telecommandMsg, Dict.isPacket]
  · rw [List.filter_eq_self]
    simp [telecommandMsg, Dict.isPacket]

/-- An iteration of the source adds to what it has published. -/
theorem published_prefix {tree : HttpSource.PropertyTree} {s t : HttpSource.State}
    {poll : HttpSource.Poll} (h : HttpSource.step tree s poll = some t) :
    s.published <+: t.published := by
  obtain ⟨w, _, rfl⟩ := Option.map_eq_some_iff.mp h
  exact List.prefix_append _ _

/-- One trigger more. -/
theorem triggers_concat {crc32 : List UInt8 → UInt32} {content : List UInt8}
    {s t u : BuildPacket.State} {ms ms' : List BuildPacket.Message} {rand : Nat → Nat}
    {rands : List (Nat → Nat)}
    (h : BuildPacket.triggers crc32 content rands s = some (ms, t))
    (hlast : BuildPacket.packetHandler crc32 rand content t = some (ms', u)) :
    BuildPacket.triggers crc32 content (rands ++ [rand]) s = some (ms ++ ms', u) := by
  induction rands generalizing s ms with
  | nil =>
      cases h
      rw [List.nil_append, BuildPacket.triggers, hlast]
      simp [BuildPacket.triggers]
  | cons first rands ih =>
      rw [BuildPacket.triggers] at h
      split at h
      next => cases h
      next r hr =>
        obtain ⟨⟨ms₁, t₁⟩, hrest, heq⟩ := Option.map_eq_some_iff.mp h
        cases heq
        rw [List.cons_append, BuildPacket.triggers, hr]
        simp only [ih hrest, Option.map_some, List.append_assoc]

theorem strobes_concat (h : List (State R S × Event)) (s : State R S) (e : Event) :
    strobes (h ++ [(s, e)]) = strobes h ++ e.rand.toList := by
  rw [strobes, List.filterMap_append]
  cases e <;> rfl

/-! ## The invariant -/

variable [Add R] [Mul R] [Div R] [NatCast R] {g : Flowgraph R S}
variable {builder : BuildPacket.State} {connected : Bool} {rands : List (Nat → Nat)}
variable {h : List (State R S × Event)} {s t : State R S}

theorem wired_initial : Wired g builder [] (initial builder connected : State R S) where
  handled := rfl
  packets := ⟨[], rfl, rfl⟩
  telecommands := rfl
  streaming := Basic.streaming_initial

/-- Every event keeps the blocks wired. -/
theorem Wired.step {e : Event} (hs : Wired g builder rands s) (hstep : step g s e = some t) :
    Wired g builder (rands ++ e.rand.toList) t := by
  obtain ⟨hhandled, ⟨ms, hms, hpackets⟩, htelecommands, hstreaming⟩ := hs
  cases e with
  | strobe rand =>
      obtain ⟨⟨ms', builder'⟩, hbuilder, rfl⟩ := Option.map_eq_some_iff.mp hstep
      obtain ⟨hnew, hother⟩ := filter_packetMsg ms'
      refine ⟨?_, ⟨ms ++ ms', triggers_concat hms hbuilder, ?_⟩, ?_, hstreaming⟩
      · simp only [State.post, hhandled, List.append_assoc]
      · simp only [State.post, List.filter_append, hpackets, hnew, List.filterMap_append]
      · simp only [State.post, List.filter_append, htelecommands, hother, List.append_nil]
  | poll poll =>
      obtain ⟨source', hsource, rfl⟩ := Option.map_eq_some_iff.mp hstep
      obtain ⟨new, hnew⟩ := published_prefix hsource
      obtain ⟨hother, htelecommand⟩ := filter_telecommandMsg new
      refine ⟨?_, ⟨ms, ?_, ?_⟩, ?_, hstreaming⟩
      · simp only [State.post, hhandled, List.append_assoc]
      · show BuildPacket.triggers g.crc32 g.content (rands ++ []) builder = _
        rw [List.append_nil]
        exact hms
      · simp only [State.post, ← hnew, List.drop_left, List.filter_append, hpackets, hother,
          List.append_nil]
      · simp only [State.post, ← hnew, List.drop_left, List.filter_append, htelecommands,
          htelecommand, List.map_append]
  | deliver =>
      rw [Transmit.step] at hstep
      split at hstep
      next => cases hstep
      next msg queue hqueue =>
        obtain ⟨modulator', hmodulator, rfl⟩ := Option.map_eq_some_iff.mp hstep
        have hreceived : modulator'.received = s.modulator.received ++ [msg] := by
          cases hmodulator
          rfl
        refine ⟨?_, ⟨ms, ?_, hpackets⟩, htelecommands,
          Basic.step_streaming hstreaming hmodulator⟩
        · rw [hreceived, hhandled, hqueue, List.append_assoc]
          rfl
        · show BuildPacket.triggers g.crc32 g.content (rands ++ []) builder = _
          rw [List.append_nil]
          exact hms
  | work length =>
      obtain ⟨modulator', hmodulator, rfl⟩ := Option.map_eq_some_iff.mp hstep
      refine ⟨?_, ⟨ms, ?_, hpackets⟩, htelecommands, Basic.step_streaming hstreaming hmodulator⟩
      · rw [Basic.work_received hmodulator]
        exact hhandled
      · show BuildPacket.triggers g.crc32 g.content (rands ++ []) builder = _
        rw [List.append_nil]
        exact hms

/-- The blocks are wired in every run. -/
theorem Run.wired (run : Run g builder connected h s) : Wired g builder (strobes h) s := by
  induction run with
  | nil => exact wired_initial
  | snoc _ hstep ih =>
      rw [strobes_concat]
      exact ih.step hstep

/-! ## The modulator in the flowgraph -/

/-- The flowgraph asks the modulator for samples. -/
def Event.asks : Event → Bool
  | .work length => decide (1 ≤ length)
  | _ => false

/-- A run of the flowgraph is one of its modulator, with the same calls. -/
theorem modulator_run {h : List (State R S × Event)} (go : Transition.Run (step g) s h t) :
    ∃ h', Transition.Run (Basic.step g.fl g.modulator) s.modulator h' t.modulator ∧
      Transition.calls Basic.Event.asks h' = Transition.calls Event.asks h := by
  induction go with
  | nil => exact ⟨[], .nil, rfl⟩
  | @snoc h u t e _ hstep ih =>
      obtain ⟨h', run, hcalls⟩ := ih
      rw [Transition.calls_concat]
      cases e with
      | strobe rand =>
          obtain ⟨r, _, rfl⟩ := Option.map_eq_some_iff.mp hstep
          exact ⟨h', run, hcalls⟩
      | poll poll =>
          obtain ⟨source, _, rfl⟩ := Option.map_eq_some_iff.mp hstep
          exact ⟨h', run, hcalls⟩
      | deliver =>
          rw [Transmit.step] at hstep
          split at hstep
          next => cases hstep
          next msg queue _ =>
            obtain ⟨modulator, hmodulator, rfl⟩ := Option.map_eq_some_iff.mp hstep
            refine ⟨_, run.snoc hmodulator, ?_⟩
            rw [Transition.calls_concat, hcalls]
            rfl
      | work length =>
          obtain ⟨modulator, hmodulator, rfl⟩ := Option.map_eq_some_iff.mp hstep
          refine ⟨_, run.snoc hmodulator, ?_⟩
          rw [Transition.calls_concat, hcalls]
          rfl

/-- The burst of a message is finished after as many calls as it costs. -/
theorem finished_of_calls {h' : List (State R S × Event)} {k : Nat}
    (run : Run g builder connected h s) (htag : g.modulator.streamTag.length ≠ 0)
    (hsps : 1 ≤ g.modulator.modem.sps) (hk : k < s.modulator.received.length)
    (go : Transition.Run (step g) s h' t)
    (hcalls : g.modulator.modem.cost (s.modulator.received.take (k + 1)) ≤
      s.modulator.spent + Transition.calls Event.asks h') : k < t.modulator.finished := by
  obtain ⟨later, hgo, hsame⟩ := modulator_run go
  exact (Basic.due_within htag hsps k).reached ⟨run.wired.streaming, hk, hcalls⟩ hgo
    (fun _ _ => rfl) (Nat.le_of_eq hsame.symm)

/-- The modulator can be asked any number of times, without an event of the others. -/
theorem exists_calls (hsps : 1 ≤ g.modulator.modem.sps) (n : Nat) (s : State R S) :
    ∃ h t, Transition.Run (step g) s h t ∧ Transition.calls Event.asks h = n ∧
      t.source = s.source := by
  induction n with
  | zero => exact ⟨[], s, .nil, rfl, rfl⟩
  | succ n ih =>
      obtain ⟨h, t, go, hcalls, hsource⟩ := ih
      obtain ⟨modulator, hwork⟩ := Basic.step_isSome g.fl hsps t.modulator (.work 1)
      have hstep : step g t (.work 1) = some { t with modulator } := by
        rw [step, hwork, Option.map_some]
      refine ⟨_, _, go.snoc hstep, ?_, hsource⟩
      rw [Transition.calls_concat, hcalls]
      rfl

end GsSDR.Transmit
