import GsSDR.Lib.Runs
import Mathlib.Algebra.Ring.Nat
import Mathlib.Data.List.Induction

/-!
# The backlog of a bounded buffer

Items come to a buffer one at a time and are served several at a time.  An item
that comes while the buffer is full is dropped.  `level` is the number of items in
the buffer.

The level is what the busiest stretch up to now has brought beyond its service
(`brought_le_level`, `exists_busiest`).  So nothing is dropped exactly if no
stretch, wherever it begins and ends, brings more than the capacity beyond its
service (`dropless_iff`).  `Intake.all_iff` is this for the runs of a machine with
such a buffer.
-/

namespace Backlog

open Transition

/-- What happens to a buffer. -/
inductive Op where
  | arrive
  /-- At most this many items are taken out. -/
  | serve (n : Nat)
deriving DecidableEq, Repr

def Op.brings : Op → Nat
  | .arrive => 1
  | .serve _ => 0

def Op.serves : Op → Nat
  | .arrive => 0
  | .serve n => n

/-- The number of items behind an event. -/
def next (capacity q : Nat) : Op → Nat
  | .arrive => if q < capacity then q + 1 else q
  | .serve n => q - n

/-- The number of items in a buffer that was empty at first. -/
def level (capacity : Nat) (ops : List Op) : Nat := ops.foldl (next capacity) 0

/-- The number of items that come. -/
def brought (ops : List Op) : Nat := (ops.map Op.brings).sum

/-- The number of items that could be taken out. -/
def service (ops : List Op) : Nat := (ops.map Op.serves).sum

/-- Every item finds room. -/
def Dropless (capacity : Nat) (ops : List Op) : Prop :=
  ∀ pre post, ops = pre ++ .arrive :: post → level capacity pre < capacity

variable {capacity : Nat} {ops : List Op}

@[simp] theorem level_nil : level capacity [] = 0 := rfl

@[simp] theorem level_concat (ops : List Op) (op : Op) :
    level capacity (ops ++ [op]) = next capacity (level capacity ops) op := by
  simp [level]

@[simp] theorem brought_nil : brought [] = 0 := rfl

@[simp] theorem service_nil : service [] = 0 := rfl

@[simp] theorem brought_append (ops ops' : List Op) :
    brought (ops ++ ops') = brought ops + brought ops' := by
  simp [brought]

@[simp] theorem service_append (ops ops' : List Op) :
    service (ops ++ ops') = service ops + service ops' := by
  simp [service]

@[simp] theorem brought_singleton (op : Op) : brought [op] = op.brings := by
  simp [brought]

@[simp] theorem service_singleton (op : Op) : service [op] = op.serves := by
  simp [service]

theorem level_le (capacity : Nat) (ops : List Op) : level capacity ops ≤ capacity := by
  induction ops using List.reverseRecOn with
  | nil => exact Nat.zero_le _
  | append_singleton ops op ih =>
      rw [level_concat]
      cases op with
      | arrive =>
          rw [next]
          split
          next hroom => exact hroom
          next => exact ih
      | serve n => exact Nat.le_trans (Nat.sub_le _ _) ih

/-- A part of a sequence that drops nothing drops nothing. -/
theorem Dropless.left {ops' : List Op} (h : Dropless capacity (ops ++ ops')) :
    Dropless capacity ops := by
  rintro pre post rfl
  exact h pre (post ++ ops') (by simp)

/-- What a stretch has brought is in the buffer or was served. -/
theorem brought_le_level {pre : List Op} (stretch : List Op)
    (h : Dropless capacity (pre ++ stretch)) :
    brought stretch ≤ level capacity (pre ++ stretch) + service stretch := by
  induction stretch using List.reverseRecOn with
  | nil => exact Nat.zero_le _
  | append_singleton stretch op ih =>
      rw [← List.append_assoc] at h ⊢
      have hle := ih h.left
      rw [level_concat, brought_append, service_append, brought_singleton, service_singleton]
      cases op with
      | arrive =>
          have hroom : level capacity (pre ++ stretch) < capacity :=
            h (pre ++ stretch) [] rfl
          simp only [next, if_pos hroom, Op.brings, Op.serves]
          omega
      | serve n =>
          simp only [next, Op.brings, Op.serves]
          omega

/-- Some stretch has brought all that is in the buffer beyond its service. -/
theorem exists_busiest (capacity : Nat) (ops : List Op) :
    ∃ pre stretch, ops = pre ++ stretch ∧
      level capacity ops + service stretch ≤ brought stretch := by
  induction ops using List.reverseRecOn with
  | nil => exact ⟨[], [], rfl, Nat.le_refl _⟩
  | append_singleton ops op ih =>
      obtain ⟨pre, stretch, hops, hle⟩ := ih
      rw [level_concat]
      cases op with
      | arrive =>
          refine ⟨pre, stretch ++ [.arrive], by rw [hops, List.append_assoc], ?_⟩
          rw [brought_append, service_append, brought_singleton, service_singleton]
          simp only [next, Op.brings, Op.serves]
          split <;> omega
      | serve n =>
          by_cases hempty : level capacity ops ≤ n
          · -- the buffer is empty, and so is the stretch
            refine ⟨ops ++ [.serve n], [], (List.append_nil _).symm, ?_⟩
            simp only [next, brought_nil, service_nil]
            omega
          · refine ⟨pre, stretch ++ [.serve n], by rw [hops, List.append_assoc], ?_⟩
            rw [brought_append, service_append, brought_singleton, service_singleton]
            simp only [next, Op.brings, Op.serves]
            omega

/-- Nothing is dropped exactly if no stretch brings more than the capacity beyond
its service. -/
theorem dropless_iff :
    Dropless capacity ops ↔
      ∀ pre stretch post, ops = pre ++ stretch ++ post →
        brought stretch ≤ capacity + service stretch := by
  constructor
  · rintro h pre stretch post rfl
    have hle := brought_le_level stretch h.left
    have hcapacity := level_le capacity (pre ++ stretch)
    omega
  · rintro h pre post rfl
    obtain ⟨before, stretch, hpre, hle⟩ := exists_busiest capacity pre
    have hall := h before (stretch ++ [.arrive]) post (by rw [hpre]; simp)
    rw [brought_append, service_append, brought_singleton, service_singleton] at hall
    simp only [Op.brings, Op.serves] at hall
    omega

/-! ## The buffer of a machine -/

variable {σ ε α : Type*} {step : σ → ε → Option σ} {s₀ : σ} {h : List (σ × ε)} {s : σ}
variable {offer : ε → Option α} {served : σ → ε → Option Nat} {items : σ → Nat}
variable {admitted : σ → List α} {I : σ → Prop}

/-- A machine with a buffer of `items`.  Some of its events offer an item, which is
admitted if there is room.  Some take items out. -/
structure Intake (step : σ → ε → Option σ) (capacity : Nat) (offer : ε → Option α)
    (served : σ → ε → Option Nat) (items : σ → Nat) (admitted : σ → List α)
    (I : σ → Prop) : Prop where
  comes : ∀ {s e t x}, I s → step s e = some t → offer e = some x →
    items t = next capacity (items s) .arrive ∧
      admitted t = if items s < capacity then admitted s ++ [x] else admitted s
  goes : ∀ {s e t n}, I s → step s e = some t → offer e = none → served s e = some n →
    items t = items s - n ∧ admitted t = admitted s
  rests : ∀ {s e t}, I s → step s e = some t → offer e = none → served s e = none →
    items t = items s ∧ admitted t = admitted s

section

variable (offer : ε → Option α) (served : σ → ε → Option Nat)

/-- What an event does to the buffer. -/
def opOf (p : σ × ε) : Option Op :=
  match offer p.2 with
  | some _ => some .arrive
  | none => (served p.1 p.2).map .serve

/-- The items offered in a part of a run. -/
def offered (h : List (σ × ε)) : List α := h.filterMap fun p => offer p.2

/-- The number of items that could be taken out in a part of a run.  An event that
offers an item takes none out. -/
def serviceIn (h : List (σ × ε)) : Nat :=
  (h.map fun p => if (offer p.2).isSome then 0 else (served p.1 p.2).getD 0).sum

/-- What a part of a run does to the buffer. -/
def opsOf (h : List (σ × ε)) : List Op := h.filterMap (opOf offer served)

end

theorem opsOf_append (h h' : List (σ × ε)) :
    opsOf offer served (h ++ h') = opsOf offer served h ++ opsOf offer served h' :=
  List.filterMap_append

theorem opsOf_cons (p : σ × ε) (h : List (σ × ε)) :
    opsOf offer served (p :: h) = (opOf offer served p).toList ++ opsOf offer served h := by
  cases hop : opOf offer served p <;> simp [opsOf, hop]

theorem offered_concat (h : List (σ × ε)) (s : σ) (e : ε) :
    offered offer (h ++ [(s, e)]) = offered offer h ++ (offer e).toList := by
  cases he : offer e <;> simp [offered, he]

theorem opOf_arrive {p : σ × ε} : opOf offer served p = some .arrive ↔ (offer p.2).isSome := by
  rw [opOf]
  cases offer p.2 with
  | some x => simp
  | none => cases served p.1 p.2 <;> simp

/-- What a part of a run brings and what it is served. -/
theorem opsOf_counts (h : List (σ × ε)) :
    brought (opsOf offer served h) = (offered offer h).length ∧
      service (opsOf offer served h) = serviceIn offer served h := by
  induction h with
  | nil => exact ⟨rfl, rfl⟩
  | cons p h ih =>
      obtain ⟨hbrought, hservice⟩ := ih
      rw [opsOf_cons, brought_append, service_append, hbrought, hservice, opOf]
      cases hoffer : offer p.2 with
      | some x => simp [offered, serviceIn, hoffer, Op.brings, Op.serves, Nat.add_comm]
      | none =>
          cases hserved : served p.1 p.2 <;>
            simp [offered, serviceIn, hoffer, hserved, Op.brings, Op.serves]

namespace Intake

/-- Only an event that offers an item changes what has been admitted. -/
theorem admitted_same (intake : Intake step capacity offer served items admitted I) {e : ε}
    {t : σ} (hs : I s) (hstep : step s e = some t) (hoffer : offer e = none) :
    admitted t = admitted s := by
  cases hserved : served s e with
  | some n => exact (intake.goes hs hstep hoffer hserved).2
  | none => exact (intake.rests hs hstep hoffer hserved).2

variable (intake : Intake step capacity offer served items admitted I) (init : I s₀)
  (keep : ∀ {s e t}, I s → step s e = some t → I t)

include intake init keep

/-- The items are those of the history. -/
theorem items_eq (hzero : items s₀ = 0) (run : Run step s₀ h s) :
    items s = level capacity (opsOf offer served h) := by
  induction run with
  | nil => exact hzero
  | @snoc h s t e prev hstep ih =>
      have hinv : I s := prev.invariant init keep
      rw [opsOf_append, opsOf_cons, opOf]
      cases hoffer : offer e with
      | some x => simp [opsOf, (intake.comes hinv hstep hoffer).1, ih]
      | none =>
          cases hserved : served s e with
          | some n => simp [opsOf, (intake.goes hinv hstep hoffer hserved).1, ih, next]
          | none => simp [opsOf, (intake.rests hinv hstep hoffer hserved).1, ih]

/-- Every item of a run finds room exactly if the sequence of what is done to the
buffer drops nothing. -/
theorem room_iff (hzero : items s₀ = 0) (run : Run step s₀ h s) :
    (∀ p ∈ h, (offer p.2).isSome → items p.1 < capacity) ↔
      Dropless capacity (opsOf offer served h) := by
  have hlevel : ∀ {pre p post}, h = pre ++ p :: post →
      items p.1 = level capacity (opsOf offer served pre) := by
    intro pre p post hsplit
    exact intake.items_eq init keep hzero (run.before hsplit).1
  constructor
  · intro hroom pre post hsplit
    obtain ⟨left, rest, rfl, rfl, hpost⟩ := List.filterMap_eq_append_iff.mp hsplit
    obtain ⟨skipped, p, right, rfl, hnone, hp, _⟩ := List.filterMap_eq_cons_iff.mp hpost
    have hskipped : opsOf offer served skipped = [] := List.filterMap_eq_nil_iff.mpr hnone
    have hitems := @hlevel (left ++ skipped) p right (by simp)
    rw [opsOf_append, hskipped, List.append_nil] at hitems
    exact hitems ▸ hroom p (by simp) (opOf_arrive.mp hp)
  · intro hdropless p hp hoffer
    obtain ⟨pre, post, rfl⟩ := List.append_of_mem hp
    rw [hlevel rfl]
    refine hdropless _ (opsOf offer served post) ?_
    rw [opsOf_append, opsOf_cons, opOf_arrive.mpr hoffer]
    rfl

/-- The items admitted are those that found room. -/
theorem admitted_eq (hnone : admitted s₀ = []) (run : Run step s₀ h s) :
    admitted s = h.filterMap fun p => if items p.1 < capacity then offer p.2 else none := by
  induction run with
  | nil => exact hnone
  | @snoc h s t e prev hstep ih =>
      have hinv : I s := prev.invariant init keep
      rw [List.filterMap_append, ← ih]
      cases hoffer : offer e with
      | some x =>
          rw [(intake.comes hinv hstep hoffer).2]
          by_cases hroom : items s < capacity
          · simp [hroom, hoffer]
          · simp [hroom]
      | none =>
          simp [intake.admitted_same hinv hstep hoffer, hoffer]

/-- All items offered have been admitted exactly if each of them found room. -/
theorem admitted_iff (hnone : admitted s₀ = []) (run : Run step s₀ h s) :
    admitted s = Backlog.offered offer h ↔
      ∀ p ∈ h, (offer p.2).isSome → items p.1 < capacity := by
  -- an item that is not admitted leaves the list too short from there on
  suffices hboth : (admitted s).length ≤ (Backlog.offered offer h).length ∧
      (admitted s = Backlog.offered offer h ↔
        ∀ p ∈ h, (offer p.2).isSome → items p.1 < capacity) from hboth.2
  induction run with
  | nil => simp [Backlog.offered, hnone]
  | @snoc h s t e prev hstep ih =>
      obtain ⟨hle, hiff⟩ := ih
      have hinv : I s := prev.invariant init keep
      simp only [offered_concat, List.mem_append, List.mem_singleton, or_imp, forall_and,
        forall_eq]
      cases hoffer : offer e with
      | none =>
          rw [intake.admitted_same hinv hstep hoffer]
          exact ⟨by simpa using hle, by simpa using hiff⟩
      | some x =>
          rw [(intake.comes hinv hstep hoffer).2]
          split
          next hroom => exact ⟨by simpa using hle, by simpa [hroom] using hiff⟩
          next hfull =>
            have hshort : (admitted s).length < (Backlog.offered offer h ++ [x]).length := by
              simpa using Nat.lt_succ_of_le hle
            refine ⟨Nat.le_of_lt hshort, ?_⟩
            constructor
            · intro heq
              exact absurd (congrArg List.length heq) (Nat.ne_of_lt hshort)
            · rintro ⟨_, hlast⟩
              exact absurd (hlast rfl) hfull

/-- All items offered have been admitted exactly if no part of the run offers more
than the capacity beyond what could be taken out in it. -/
theorem all_iff (hzero : items s₀ = 0) (hnone : admitted s₀ = []) (run : Run step s₀ h s) :
    admitted s = Backlog.offered offer h ↔
      ∀ pre stretch post, h = pre ++ stretch ++ post →
        (Backlog.offered offer stretch).length ≤ capacity + serviceIn offer served stretch := by
  rw [intake.admitted_iff init keep hnone run, intake.room_iff init keep hzero run,
    dropless_iff]
  constructor
  · rintro hall pre stretch post rfl
    have hone := hall (opsOf offer served pre) (opsOf offer served stretch)
      (opsOf offer served post) (by rw [opsOf_append, opsOf_append])
    rwa [(opsOf_counts stretch).1, (opsOf_counts stretch).2] at hone
  · intro hall pre stretch post hsplit
    obtain ⟨left, right, rfl, hleft, rfl⟩ := List.filterMap_eq_append_iff.mp hsplit
    obtain ⟨before, middle, rfl, rfl, rfl⟩ := List.filterMap_eq_append_iff.mp hleft
    have hone := hall before middle right rfl
    rwa [← (opsOf_counts middle).1, ← (opsOf_counts middle).2] at hone

end Intake

end Backlog
