import GsSDR.Afsk.Demodulator
import GsSDR.Transmit.Flowgraph

/-!
# Receiving the transmit flowgraph

A receiver of the stream of the flowgraph cuts it into its bursts by their tags
and demodulates each complete one (`hear`).  Whatever the order of strobes, polls,
handled messages and calls of `work`, it hears the first of the messages that
were published, in this order, none twice and none left out (`hears_sent`).
-/

namespace GsSDR.Transmit

open Afsk Tones Bursts

/-- What a receiver makes of what has come of a stream with these tags. -/
noncomputable def hear (ε : ℝ) (m : Modem ℝ) (tags : List Tag) (xs : List ℝ) :
    List (List UInt8) :=
  (cut (tags.map fun tag => (tag.offset, tag.value)) xs).map (receive ε m)

variable {M : Type} {ε : ℝ} {b : Basic ℝ} {xs : List ℝ} {s : Basic.State ℝ ℝ M}

theorem map_tag (marks : List (Nat × Nat)) :
    (marks.map b.tag).map (fun tag => (tag.offset, tag.value)) = marks := by
  rw [List.map_map]
  exact List.map_id' marks

/-- What is heard are the messages that the modulator took in first, at least those
whose bursts are finished. -/
theorem hear_received (htag : b.streamTag.length ≠ 0) (res : b.modem.Resolved ε)
    (hs : Basic.Streaming realFloats b s) (hnear : Near ε xs s.stream) :
    ∃ k, s.finished ≤ k ∧ k ≤ s.received.length ∧
      hear ε b.modem s.tags xs = (s.received.take k).map fun msg => msg.data.map heard := by
  obtain ⟨done, rest, hbursts, htags, hprefix, hwhole, hdone, _⟩ := Basic.layout htag hs
  have hlength := hbursts.length_eq
  rw [List.length_take, List.length_map] at hlength
  obtain ⟨k, hk, hcut⟩ := cut_marksFrom (done ++ rest) hnear [] hprefix
  rw [List.length_nil] at hcut
  refine ⟨k, ?_, by omega, ?_⟩
  · have hmany := le_length_cut xs (done ++ rest) done.length 0 (by simp) (by
      rw [Nat.zero_add, List.take_left, hnear.length_eq]
      exact hwhole.length_le)
    rw [hcut.length_eq, List.length_take_of_le hk] at hmany
    rwa [← hdone]
  · have hheard := map_receive res (List.forall₂_take k hbursts) hcut
    rw [List.take_take, Nat.min_eq_left hk, ← List.map_take, List.map_map] at hheard
    rw [hear, htags, map_tag, hheard]
    rfl

variable {builder : BuildPacket.State} {connected : Bool} {g : Flowgraph ℝ ℝ}
variable {h h' : List (State ℝ ℝ × Event)} {s t : State ℝ ℝ}

/-- In every run, what is heard are the first of the published messages. -/
theorem Run.hear_front (run : Run g builder connected h s) (hfl : g.fl = realFloats)
    (htag : g.modulator.streamTag.length ≠ 0) (res : g.modulator.modem.Resolved ε)
    (hnear : Near ε xs s.modulator.stream) :
    ∃ k, s.modulator.finished ≤ k ∧ k ≤ s.sent.length ∧
      hear ε g.modulator.modem s.modulator.tags xs =
        (s.sent.take k).map fun msg => msg.data.map heard := by
  have hstreaming := run.wired.streaming
  rw [hfl] at hstreaming
  obtain ⟨k, hfinished, hk, hheard⟩ := hear_received htag res hstreaming hnear
  refine ⟨k, hfinished, ?_, ?_⟩
  · rw [run.wired.handled, List.length_append]
    exact Nat.le_add_right_of_le hk
  · rw [hheard, run.wired.handled, List.take_append_of_le_length hk]

/-! ## Results -/

/-- In every order of events, what is heard in the stream are the first of the
published messages, at least those whose bursts are finished.  Of the published
messages the packets are what the builder has published for the strobes, and the
others are what the source has published. -/
theorem hears_sent (run : Run g builder connected h s) (hfl : g.fl = realFloats)
    (htag : g.modulator.streamTag.length ≠ 0) (res : g.modulator.modem.Resolved ε)
    (hnear : Near ε xs s.modulator.stream) :
    (∃ k, s.modulator.finished ≤ k ∧ k ≤ s.sent.length ∧
      hear ε g.modulator.modem s.modulator.tags xs =
        (s.sent.take k).map fun msg => msg.data.map heard) ∧
    (∃ ms, BuildPacket.triggers g.crc32 g.content (strobes h) builder = some (ms, s.builder) ∧
      s.sent.filter (fun msg => msg.dict.isPacket) = ms.filterMap packetMsg) ∧
    s.sent.filter (fun msg => !msg.dict.isPacket) = s.source.published.map telecommandMsg :=
  ⟨run.hear_front hfl htag res hnear, run.wired.packets, run.wired.telecommands⟩

/-- A packet of the command line, in the flowgraph that streams. -/
noncomputable def sampleFlowgraph : Flowgraph ℝ ℝ where
  fl := realFloats
  modulator := ⟨streamModem, "packet_len"⟩
  crc32 := BuildPacket.crc32Ieee
  content := []
  tree := .ofTexts []

def sampleBuilder : BuildPacket.State := ⟨false, 64, .unpacked, .cmdLine, [0x55], 0, 0, false⟩

theorem sampleFlowgraph_resolved : sampleFlowgraph.modulator.modem.Resolved (1 / 10000) :=
  streamModem_resolved

/-- A strobe and a call of `work` start the burst of the packet. -/
theorem sampleFlowgraph_run :
    ∃ h s, Run sampleFlowgraph sampleBuilder true h s ∧ s.modulator.tags.length = 1 ∧
      s.modulator.received = [⟨.packet none, [0, 1, 0, 1, 0, 1, 0, 1]⟩] := by
  obtain ⟨r, hr, houtbox, hbuffer, htags, hreceived⟩ :
      ∃ r, Transition.exec (step sampleFlowgraph) (initial sampleBuilder true)
          [.strobe fun _ => 0, .work 7, .deliver] = some r ∧
        r.2.modulator.outbox = [[0, 1, 0, 1, 0, 1, 0, 1]] ∧
        r.2.modulator.outputBuffer = none ∧ r.2.modulator.tags = [] ∧
        r.2.modulator.received = [⟨.packet none, [0, 1, 0, 1, 0, 1, 0, 1]⟩] :=
    ⟨_, rfl, rfl, rfl, rfl, rfl⟩
  obtain ⟨modulator, hwork⟩ := Basic.step_isSome sampleFlowgraph.fl
    sampleFlowgraph_resolved.one_le_sps r.2.modulator (.work 40)
  have hstep : step sampleFlowgraph r.2 (.work 40) = some { r.2 with modulator } := by
    rw [step, hwork, Option.map_some]
  refine ⟨_, _, (Transition.exec_run hr).snoc hstep, ?_, ?_⟩
  · show modulator.tags.length = 1
    rcases Basic.work_cases hwork with ⟨opb, hsome, rfl⟩ | ⟨_, hnil, out, rfl⟩ |
      ⟨_, msg, outbox, opb, _, rfl⟩
    · rw [hbuffer] at hsome
      cases hsome
    · rw [houtbox] at hnil
      cases hnil
    · simp [Basic.copy, Basic.State.started, htags]
  · exact (Basic.work_received hwork).trans hreceived

/-- A receiver without errors. -/
theorem hears_sent_cmdLine :
    ∃ h s, Run sampleFlowgraph sampleBuilder true h s ∧ s.modulator.tags.length = 1 ∧
      (∃ k, s.modulator.finished ≤ k ∧ k ≤ s.sent.length ∧
        hear (1 / 10000) streamModem s.modulator.tags s.modulator.stream =
          (s.sent.take k).map fun msg => msg.data.map heard) ∧
      (∃ ms, BuildPacket.triggers BuildPacket.crc32Ieee [] (strobes h) sampleBuilder =
          some (ms, s.builder) ∧
        s.sent.filter (fun msg => msg.dict.isPacket) = ms.filterMap packetMsg) ∧
      s.sent.filter (fun msg => !msg.dict.isPacket) =
        s.source.published.map telecommandMsg := by
  obtain ⟨h, s, run, htags, _⟩ := sampleFlowgraph_run
  exact ⟨h, s, run, htags, hears_sent run rfl (by decide) sampleFlowgraph_resolved
    (near_refl (by norm_num) _)⟩

/-- A message that the modulator has taken in is heard after as many calls of `work`
for samples as its burst and those before it cost, less what has been spent on them,
whatever is published and handled meanwhile. -/
theorem heard_within (run : Run g builder connected h s) (hfl : g.fl = realFloats)
    (htag : g.modulator.streamTag.length ≠ 0) (res : g.modulator.modem.Resolved ε) {k : Nat}
    {msg : Msg Dict} (hk : s.modulator.received[k]? = some msg)
    (go : Transition.Run (step g) s h' t)
    (hcalls : g.modulator.modem.cost (s.modulator.received.take (k + 1)) ≤
      s.modulator.spent + Transition.calls Event.asks h')
    (hnear : Near ε xs t.modulator.stream) :
    (hear ε g.modulator.modem t.modulator.tags xs)[k]? = some (msg.data.map heard) := by
  have ht := (Run.wired (run.trans go)).streaming
  rw [hfl] at ht
  obtain ⟨hk', _⟩ := List.getElem?_eq_some_iff.mp hk
  have hfinished := finished_of_calls run htag res.one_le_sps hk' go hcalls
  obtain ⟨n, hn, _, hheard⟩ := hear_received htag res ht hnear
  obtain ⟨_, hgo, _⟩ := modulator_run go
  obtain ⟨more, hmore⟩ := Basic.received_prefix hgo
  rw [hheard, ← hmore, List.getElem?_map,
    List.getElem?_take_of_lt (Nat.lt_of_lt_of_le hfinished hn),
    List.getElem?_append_left hk', hk, Option.map_some]

/-- The burst of a packet of eight bits, with 40 samples for each. -/
theorem heard_within_cmdLine :
    ∃ h s h' t, Run sampleFlowgraph sampleBuilder true h s ∧
      Transition.Run (step sampleFlowgraph) s h' t ∧
      Transition.calls Event.asks h' = 321 ∧
      (hear (1 / 10000) streamModem t.modulator.tags t.modulator.stream)[0]? =
        some ([0, 1, 0, 1, 0, 1, 0, 1].map heard) := by
  obtain ⟨h, s, run, _, hreceived⟩ := sampleFlowgraph_run
  obtain ⟨h', t, go, hcalls, _⟩ := exists_calls sampleFlowgraph_resolved.one_le_sps 321 s
  have hfirst : s.modulator.received[0]? =
      some ⟨.packet none, [0, 1, 0, 1, 0, 1, 0, 1]⟩ := by
    rw [hreceived]
    rfl
  have hcost : sampleFlowgraph.modulator.modem.cost (s.modulator.received.take (0 + 1)) ≤
      s.modulator.spent + Transition.calls Event.asks h' := by
    rw [hreceived, hcalls]
    exact Nat.le_add_left 321 _
  exact ⟨h, s, h', t, run, go, hcalls, heard_within run rfl (by decide) sampleFlowgraph_resolved
    hfirst go hcost (near_refl (by norm_num) _)⟩

end GsSDR.Transmit
