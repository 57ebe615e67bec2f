import GsSDR.HttpSink.Invariant
import GsSDR.Lib.Backlog

/-!
# Which packets the HTTP sink has no room for

`packet_handler` does not look at what `fifo_write_storage` returns, so a packet that
comes while the FIFO is full is dropped without a word.  The worker takes up to ten
packets out at the start of a pass, and none while the last answer was not 200.

So whether packets are dropped depends on how they come and on when passes begin,
and on nothing else (`admitsAll_iff`).
-/

namespace GsSDR

namespace HttpSink

open Backlog

variable {h : List (State × Event)} {s t : State} {e : Event}

/-- The record that `packet_handler` is called for. -/
def Event.offer : Event → Option GrStorageWeb
  | .packetHandler storage => some storage
  | _ => none

/-- The number of records that the worker asks the FIFO for. -/
def asked (s : State) : Event → Option Nat
  | .pass => if s.dataSentSuccess then some writeBufferSize else none
  | _ => none

/-- The number of records in the FIFO. -/
def State.queued (s : State) : Nat := s.fifo.queue.length

/-- The passes in a part of a run that read the FIFO. -/
def fifoReads (h : List (State × Event)) : Nat :=
  h.countP fun p => p.2 == .pass && p.1.dataSentSuccess

/-- The FIFO has the size that the constructor gives it. -/
def Sized (s : State) : Prop := s.fifo.fifo.fifoSize = fifoSize

theorem sized_initial : Sized initial := rfl

theorem Sized.step (hs : Sized s) (hstep : HttpSink.step s e = some t) : Sized t := by
  cases step_sound hstep with
  | packetHandler storage => exact (s.fifo.write_fifoSize _).trans hs
  | pass _ =>
      rw [Sized, beginPass]
      split
      next => exact (s.fifo.read_fifoSize _).trans hs
      next => exact hs
  | _ => exact hs

/-- An event that ends an attempt does nothing to the FIFO. -/
theorem offer_of_endsAttempt (he : e.endsAttempt = true) : e.offer = none ∧ asked s e = none := by
  cases e with
  | packetHandler => cases he
  | pass => cases he
  | _ => exact ⟨rfl, rfl⟩

/-- What the steps do to the FIFO. -/
theorem intake : Intake step (fifoSize - 1) Event.offer asked State.queued
    (fun s => s.accepted.map Packet.storage) Sized where
  comes := by
    intro s e t x hs hstep hoffer
    cases step_sound hstep with
    | packetHandler storage =>
        cases hoffer
        obtain ⟨hlength, htaken⟩ := write_packet s.fifo ⟨s.accepted.length, x⟩
        rw [show s.fifo.fifo.fifoSize = fifoSize from hs] at hlength htaken
        refine ⟨hlength, ?_⟩
        by_cases hroom : s.queued < fifoSize - 1
        · rw [if_pos hroom]
          simp [packetHandler, htaken.mpr hroom]
        · rw [if_neg hroom]
          simp [packetHandler, mt htaken.mp hroom]
    | ended _ _ he _ =>
        rw [(offer_of_endsAttempt (s := s) he).1] at hoffer
        cases hoffer
    | _ => cases hoffer
  goes := by
    intro s e t n hs hstep hoffer hasked
    cases step_sound hstep with
    | pass _ =>
        cases hflag : s.dataSentSuccess with
        | true =>
            obtain ⟨_, _, hqueue⟩ := beginPass_batch hflag
            simp only [asked, hflag, if_true, Option.some.injEq] at hasked
            constructor
            · rw [State.queued, hqueue, List.length_drop, hasked]
              rfl
            · simp [beginPass, hflag]
        | false => simp [asked, hflag] at hasked
    | ended _ _ he _ =>
        rw [(offer_of_endsAttempt (s := s) he).2] at hasked
        cases hasked
    | _ => cases hasked
  rests := by
    intro s e t hs hstep hoffer hasked
    cases step_sound hstep with
    | packetHandler storage => cases hoffer
    | pass _ =>
        cases hflag : s.dataSentSuccess with
        | true => simp [asked, hflag] at hasked
        | false => simp [beginPass, hflag, State.queued]
    | _ => exact ⟨rfl, rfl⟩

/-- Each read of the FIFO could take ten records out. -/
theorem serviceIn_eq (h : List (State × Event)) :
    serviceIn Event.offer asked h = 10 * fifoReads h := by
  induction h with
  | nil => rfl
  | cons p h ih =>
      obtain ⟨s, e⟩ := p
      rw [serviceIn, List.map_cons, List.sum_cons, ← serviceIn, ih, fifoReads, fifoReads,
        List.countP_cons]
      cases e with
      | pass =>
          cases hflag : s.dataSentSuccess with
          | true => simp [Event.offer, asked, hflag, writeBufferSize, Nat.mul_add, Nat.add_comm]
          | false => simp [Event.offer, asked, hflag]
      | _ => simp [Event.offer, asked]

/-- In every run the FIFO accepts all the records offered to it, in their order,
exactly if no part of the run offers more than 31 beyond ten for each read of the
FIFO. -/
theorem admitsAll_iff (run : Run h s) :
    s.accepted.map Packet.storage = offered Event.offer h ↔
      ∀ pre stretch post, h = pre ++ stretch ++ post →
        (offered Event.offer stretch).length ≤ 31 + 10 * fifoReads stretch := by
  have hall := intake.all_iff sized_initial Sized.step rfl rfl run
  simp only [serviceIn_eq] at hall
  exact hall

/-- Two records, one before and one behind a read of the FIFO. -/
theorem admitsAll_iff_twoRecords :
    ∃ r, Transition.exec step initial
        [.enter, .packetHandler ⟨0, ['a']⟩, .pass, .packetHandler ⟨0, ['b']⟩] = some r ∧
      fifoReads r.1 = 1 ∧
      (r.2.accepted.map Packet.storage = offered Event.offer r.1 ↔
        ∀ pre stretch post, r.1 = pre ++ stretch ++ post →
          (offered Event.offer stretch).length ≤ 31 + 10 * fifoReads stretch) := by
  obtain ⟨r, hr, hreads⟩ :
      ∃ r, Transition.exec step initial
          [.enter, .packetHandler ⟨0, ['a']⟩, .pass, .packetHandler ⟨0, ['b']⟩] = some r ∧
        fifoReads r.1 = 1 := ⟨_, rfl, rfl⟩
  exact ⟨r, hr, hreads, admitsAll_iff (Transition.exec_run hr)⟩

end HttpSink

end GsSDR
