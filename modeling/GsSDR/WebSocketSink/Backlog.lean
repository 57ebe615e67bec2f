import GsSDR.HttpSink.Acceptance
import GsSDR.WebSocketSink.Worker
import GsSDR.Lib.Backlog

/-!
# Which packets the WebSocket sink has no room for

As in the HTTP sink, a packet that comes while the FIFO is full is dropped.  The
worker takes one packet out in a pass, and only while it is connected.

So the FIFO keeps up with one packet for each pass with a connection
(`keepsUp_iff`).
-/

namespace GsSDR

namespace WebSocketSink

open Backlog
open HttpSink (Packet fifoSize)

variable {h : List (State × Event)} {s t : State} {e : Event}

/-- The record that `packet_handler` is called for. -/
def Event.offer : Event → Option GrStorageWeb
  | .packetHandler storage => some storage
  | _ => none

/-- The number of records that the worker asks the FIFO for. -/
def asked (s : State) : Event → Option Nat
  | .pass => if s.websocketConnected then some 1 else none
  | _ => none

/-- The number of records in the FIFO. -/
def State.queued (s : State) : Nat := s.fifo.queue.length

/-- The passes in a part of a run that read the FIFO. -/
def fifoReads (h : List (State × Event)) : Nat :=
  h.countP fun p => p.2 == .pass && p.1.websocketConnected

/-- The FIFO has the size that the constructor gives it. -/
def Sized (s : State) : Prop := s.fifo.fifo.fifoSize = fifoSize

theorem sized_initial : Sized initial := rfl

theorem Sized.step (hs : Sized s) (hstep : WebSocketSink.step s e = some t) : Sized t := by
  cases step_sound hstep with
  | packetHandler => exact (s.fifo.write_fifoSize _).trans hs
  | pass _ =>
      rw [Sized, beginPass]
      split
      next => exact (s.fifo.read_fifoSize 1).trans hs
      next => exact hs
  | _ => exact hs

/-- What the steps do to the FIFO. -/
theorem intake : Intake step (fifoSize - 1) Event.offer asked State.queued
    (fun s => s.accepted.map Packet.storage) Sized where
  comes := by
    intro s e t x hs hstep hoffer
    cases step_sound hstep with
    | packetHandler =>
        cases hoffer
        obtain ⟨hlength, htaken⟩ := HttpSink.write_packet s.fifo ⟨s.accepted.length, x⟩
        rw [show s.fifo.fifo.fifoSize = fifoSize from hs] at hlength htaken
        refine ⟨hlength, ?_⟩
        by_cases hroom : s.queued < fifoSize - 1
        · rw [if_pos hroom]
          simp [packetHandler, htaken.mpr hroom]
        · rw [if_neg hroom]
          simp [packetHandler, mt htaken.mp hroom]
    | _ => cases hoffer
  goes := by
    intro s e t n hs hstep hoffer hasked
    cases step_sound hstep with
    | pass _ =>
        cases hconnected : s.websocketConnected with
        | true =>
            obtain ⟨_, _, hqueue⟩ := s.fifo.read_spec 1
            simp only [asked, hconnected, if_true, Option.some.injEq] at hasked
            constructor
            · simp [beginPass, hconnected, readFifo, State.queued, hqueue, ← hasked]
            · simp [beginPass, hconnected, readFifo]
        | false => simp [asked, hconnected] at hasked
    | _ => cases hasked
  rests := by
    intro s e t hs hstep hoffer hasked
    cases step_sound hstep with
    | packetHandler => cases hoffer
    | pass _ =>
        cases hconnected : s.websocketConnected with
        | true => simp [asked, hconnected] at hasked
        | false => simp [beginPass, hconnected, State.queued]
    | _ => exact ⟨rfl, rfl⟩

/-- Each read of the FIFO could take one record out. -/
theorem serviceIn_eq (h : List (State × Event)) :
    serviceIn Event.offer asked h = fifoReads h := by
  induction h with
  | nil => rfl
  | cons p h ih =>
      obtain ⟨s, e⟩ := p
      rw [serviceIn, List.map_cons, List.sum_cons, ← serviceIn, ih, fifoReads, fifoReads,
        List.countP_cons]
      cases e with
      | pass =>
          cases hconnected : s.websocketConnected with
          | true => simp [Event.offer, asked, hconnected, Nat.add_comm]
          | false => simp [Event.offer, asked, hconnected]
      | _ => simp [Event.offer, asked]

/-- In every run the FIFO accepts all the records offered to it, in their order,
exactly if no part of the run offers more than 31 beyond one for each pass with a
connection. -/
theorem keepsUp_iff (run : Run h s) :
    s.accepted.map Packet.storage = offered Event.offer h ↔
      ∀ pre stretch post, h = pre ++ stretch ++ post →
        (offered Event.offer stretch).length ≤ 31 + fifoReads stretch := by
  have hall := intake.all_iff sized_initial Sized.step rfl rfl run
  simp only [serviceIn_eq] at hall
  exact hall

/-- Two records, one before and one behind a read of the FIFO. -/
theorem keepsUp_iff_twoRecords :
    ∃ r, Transition.exec step initial
        [.enter, .connect true, .packetHandler ⟨0, ['a']⟩, .pass, .packetHandler ⟨0, ['b']⟩] =
        some r ∧
      fifoReads r.1 = 1 ∧
      (r.2.accepted.map Packet.storage = offered Event.offer r.1 ↔
        ∀ pre stretch post, r.1 = pre ++ stretch ++ post →
          (offered Event.offer stretch).length ≤ 31 + fifoReads stretch) := by
  obtain ⟨r, hr, hreads⟩ :
      ∃ r, Transition.exec step initial
          [.enter, .connect true, .packetHandler ⟨0, ['a']⟩, .pass,
            .packetHandler ⟨0, ['b']⟩] = some r ∧
        fifoReads r.1 = 1 := ⟨_, rfl, rfl⟩
  exact ⟨r, hr, hreads, keepsUp_iff (Transition.exec_run hr)⟩

end WebSocketSink

end GsSDR
