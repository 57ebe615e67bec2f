import GsSDR.Lib.Runs

/-!
# The gain control and its worker

A packet switches the gain on and sets `m_new_timer`.  The worker thread
(`usrp_gain_control_wait`) switches it off once at its start.  Then it polls the
flag, and whenever it finds it set, clears it, waits for `m_timer_wait` and
switches the gain off.

A machine step is one access to what the threads share, or one call of the
worker.  The runtime delivers packets one after the other, so at most one call
of `packet_handler` is in progress.  The worker reads both flags without the
lock, so its tests are steps of their own.  What an OFF is due to (`started`)
is a record of the run.
-/

namespace GsSDR

namespace GainControl

/-- A command on `usrp_pdus`, with its gain. -/
inductive Command (γ : Type*) where
  | on (gain : γ)
  /-- `started` is the number of ONs that had been published when the wait
  behind this command was started, and `none` at the start of the worker. -/
  | off (gain : γ) (started : Option Nat)
deriving DecidableEq, Repr

variable {γ : Type*}

def Command.isOn : Command γ → Bool
  | .on _ => true
  | .off _ _ => false

/-- The number of ONs. -/
def ons (log : List (Command γ)) : Nat := log.countP Command.isOn

/-- The number of OFFs. -/
def offs (log : List (Command γ)) : Nat := log.countP fun command => !command.isOn

/-- What the worker does next. -/
inductive Pc where
  /-- The sleep and the first OFF. -/
  | starting
  /-- The test of `m_exit_requested`. -/
  | exitTest
  /-- The test of `m_new_timer`. -/
  | flagTest
  /-- `m_new_timer = false`. -/
  | clear
  /-- The timer is about to be made. -/
  | startWait
  /-- `t.wait()`, with the number of ONs at its start. -/
  | waiting (started : Nat)
  /-- The OFF behind that wait. -/
  | publishOff (started : Nat)
  | sleep
  | returned
deriving DecidableEq, Repr

/-- Where the call of `packet_handler` is. -/
inductive Handler where
  | idle
  /-- In front of its ON. -/
  | called
  /-- Between its ON and `m_new_timer = true`. -/
  | published
deriving DecidableEq, Repr

/-- The block. -/
structure State (γ : Type*) where
  newTimer : Bool
  exitRequested : Bool
  gainOn : γ
  gainOff : γ
  pc : Pc
  handler : Handler
  /-- Everything published. -/
  log : List (Command γ)
deriving Repr

/-- What happens next. -/
inductive Event (γ : Type*) where
  /-- `packet_handler` is called. -/
  | packetHandler
  | publishOn
  | setNewTimer
  | setGainOn (gain : γ)
  | setGainOff (gain : γ)
  | threadDeInit
  /-- The worker goes on. -/
  | work
deriving DecidableEq, Repr

/-- The event is a step of the worker. -/
def Event.isWork : Event γ → Bool
  | .work => true
  | _ => false

/-- The constructor, up to the start of the worker. -/
def initial (gainOn gainOff : γ) : State γ where
  newTimer := false
  exitRequested := false
  gainOn := gainOn
  gainOff := gainOff
  pc := .starting
  handler := .idle
  log := []

/-- `send_uhd_usrp_cmd`. -/
def State.send (s : State γ) (command : Command γ) : State γ :=
  { s with log := s.log ++ [command] }

/-- `usrp_gain_control_wait`, from one access to the next. -/
def work (s : State γ) : Option (State γ) :=
  match s.pc with
  | .starting => some { s.send (.off s.gainOff none) with pc := .exitTest }
  | .exitTest => some { s with pc := if s.exitRequested then .returned else .flagTest }
  | .flagTest => some { s with pc := if s.newTimer then .clear else .sleep }
  | .clear => some { s with newTimer := false, pc := .startWait }
  | .startWait => some { s with pc := .waiting (ons s.log) }
  | .waiting started => some { s with pc := .publishOff started }
  | .publishOff started =>
      some { s.send (.off s.gainOff (some started)) with pc := .exitTest }
  | .sleep => some { s with pc := .exitTest }
  | .returned => none

/-- One step of the block. -/
def step (s : State γ) (e : Event γ) : Option (State γ) :=
  match e, s.handler with
  | .packetHandler, .idle => some { s with handler := .called }
  | .publishOn, .called => some { s.send (.on s.gainOn) with handler := .published }
  | .setNewTimer, .published => some { s with newTimer := true, handler := .idle }
  | .setGainOn gain, _ => some { s with gainOn := gain }
  | .setGainOff gain, _ => some { s with gainOff := gain }
  | .threadDeInit, _ => some { s with exitRequested := true }
  | .work, _ => work s
  | _, _ => none

/-- The runs of the block from its construction. -/
abbrev Run (gainOn gainOff : γ) (h : List (State γ × Event γ)) (s : State γ) : Prop :=
  Transition.Run step (initial gainOn gainOff) h s

/-! ## What a step does -/

/-- The steps, one constructor for each thing they can do. -/
inductive Step : State γ → Event γ → State γ → Prop where
  | called {s : State γ} :
      s.handler = .idle → Step s .packetHandler { s with handler := .called }
  | publishOn {s : State γ} :
      s.handler = .called →
      Step s .publishOn { s.send (.on s.gainOn) with handler := .published }
  | setNewTimer {s : State γ} :
      s.handler = .published → Step s .setNewTimer { s with newTimer := true, handler := .idle }
  | setGainOn {s : State γ} {gain : γ} : Step s (.setGainOn gain) { s with gainOn := gain }
  | setGainOff {s : State γ} {gain : γ} : Step s (.setGainOff gain) { s with gainOff := gain }
  | stop {s : State γ} : Step s .threadDeInit { s with exitRequested := true }
  | firstOff {s : State γ} :
      s.pc = .starting → Step s .work { s.send (.off s.gainOff none) with pc := .exitTest }
  | exit {s : State γ} :
      s.pc = .exitTest → s.exitRequested = true → Step s .work { s with pc := .returned }
  | goOn {s : State γ} :
      s.pc = .exitTest → s.exitRequested = false → Step s .work { s with pc := .flagTest }
  | found {s : State γ} :
      s.pc = .flagTest → s.newTimer = true → Step s .work { s with pc := .clear }
  | notFound {s : State γ} :
      s.pc = .flagTest → s.newTimer = false → Step s .work { s with pc := .sleep }
  | cleared {s : State γ} :
      s.pc = .clear → Step s .work { s with newTimer := false, pc := .startWait }
  | started {s : State γ} :
      s.pc = .startWait → Step s .work { s with pc := .waiting (ons s.log) }
  | elapsed {s : State γ} {started : Nat} :
      s.pc = .waiting started → Step s .work { s with pc := .publishOff started }
  | off {s : State γ} {started : Nat} :
      s.pc = .publishOff started →
      Step s .work { s.send (.off s.gainOff (some started)) with pc := .exitTest }
  | woke {s : State γ} : s.pc = .sleep → Step s .work { s with pc := .exitTest }

variable {s t : State γ} {e : Event γ} {h : List (State γ × Event γ)}

theorem work_sound (h : work s = some t) : Step s .work t := by
  simp only [work] at h
  split at h
  next hpc => cases h; exact .firstOff hpc
  next hpc =>
    cases h
    split
    next hexit => exact .exit hpc hexit
    next hexit => exact .goOn hpc (by simpa using hexit)
  next hpc =>
    cases h
    split
    next hflag => exact .found hpc hflag
    next hflag => exact .notFound hpc (by simpa using hflag)
  next hpc => cases h; exact .cleared hpc
  next hpc => cases h; exact .started hpc
  next hpc => cases h; exact .elapsed hpc
  next hpc => cases h; exact .off hpc
  next hpc => cases h; exact .woke hpc
  next => cases h

/-- A step does nothing that `Step` does not list. -/
theorem step_sound (h : step s e = some t) : Step s e t := by
  simp only [step] at h
  split at h
  next hidle => cases h; exact .called hidle
  next hcalled => cases h; exact .publishOn hcalled
  next hpublished => cases h; exact .setNewTimer hpublished
  next => cases h; exact .setGainOn
  next => cases h; exact .setGainOff
  next => cases h; exact .stop
  next => exact work_sound h
  next => cases h

/-- The worker has a next step until it has returned. -/
theorem work_isSome (hpc : s.pc ≠ .returned) : ∃ t, step s .work = some t := by
  rw [step]
  cases h : s.pc with
  | returned => exact absurd h hpc
  | _ => exact ⟨_, by rw [work, h]⟩

/-! ## What has been published -/

@[simp] theorem ons_concat (log : List (Command γ)) (command : Command γ) :
    ons (log ++ [command]) = ons log + command.isOn.toNat := by
  rw [ons, ons, List.countP_append, List.countP_singleton]
  cases command.isOn <;> rfl

@[simp] theorem offs_on (log : List (Command γ)) (gain : γ) :
    offs (log ++ [.on gain]) = offs log := by
  simp [offs, List.countP_append, Command.isOn]

@[simp] theorem offs_off (log : List (Command γ)) (gain : γ) (started : Option Nat) :
    offs (log ++ [.off gain started]) = offs log + 1 := by
  simp [offs, List.countP_append, Command.isOn]

/-- No step takes back a command. -/
theorem offs_step (hstep : step s e = some t) : offs s.log ≤ offs t.log := by
  cases step_sound hstep with
  | publishOn => simp [State.send]
  | firstOff => simp [State.send]
  | off => simp [State.send]
  | _ => exact Nat.le_refl _

theorem offs_run (go : Transition.Run step s h t) : offs s.log ≤ offs t.log :=
  Transition.Run.invariant (P := fun u : State γ => offs s.log ≤ offs u.log) (Nat.le_refl _)
    (fun hu hstep => Nat.le_trans hu (offs_step hstep)) go

/-- The last command is an ON. -/
def LastOn (log : List (Command γ)) : Prop := ∃ gain, log.getLast? = some (.on gain)

/-- The last command is an OFF. -/
def LastOff (log : List (Command γ)) : Prop :=
  ∃ gain started, log.getLast? = some (.off gain started)

theorem lastOn_concat (log : List (Command γ)) (gain : γ) : LastOn (log ++ [.on gain]) :=
  ⟨gain, List.getLast?_concat⟩

theorem not_lastOn_concat (log : List (Command γ)) (gain : γ) (started : Option Nat) :
    ¬ LastOn (log ++ [.off gain started]) := by
  rintro ⟨gain', hlast⟩
  rw [List.getLast?_concat] at hlast
  cases hlast

theorem lastOff_iff {log : List (Command γ)} : LastOff log ↔ log ≠ [] ∧ ¬ LastOn log := by
  constructor
  · rintro ⟨gain, started, hlast⟩
    refine ⟨?_, ?_⟩
    · rintro rfl
      cases hlast
    · rintro ⟨gain', hlast'⟩
      rw [hlast] at hlast'
      cases hlast'
  · rintro ⟨hne, hnot⟩
    cases hlast : log.getLast? with
    | none => exact absurd (List.getLast?_eq_none_iff.mp hlast) hne
    | some command =>
        cases command with
        | on gain => exact absurd ⟨gain, hlast⟩ hnot
        | off gain started => exact ⟨gain, started, hlast⟩

end GainControl

end GsSDR
