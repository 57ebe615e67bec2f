import GsSDR.HttpSource.Invariant

/-!
# Acknowledged and transmitted

The acknowledgement is sent inside the `try` block before anything looks at the
payload, and the PDU is published behind it from a copy of the same condition.
So they agree exactly when the `try` block gets as far as the acknowledgement
for a payload that can be sent, and stops before it for one that cannot.
-/

namespace GsSDR

namespace HttpSource

open Cxx

variable {tree : PropertyTree} {connected : Bool} {h : List (State × Poll)} {s : State}
  {w : Worker} {poll : Poll}

/-- The telecommands acknowledged in an iteration are those published in it. -/
def Outcome.Agrees (out : Outcome) : Prop := out.acks = out.published.map Pdu.ack

instance (out : Outcome) : Decidable out.Agrees := inferInstanceAs (Decidable (_ = _))

/-- The response is read to its end, and the acknowledgement is written. -/
def AckWritten (tree : PropertyTree) (w : Worker) (poll : Poll) : Prop :=
  (∀ r ∈ (answer tree w poll).read tree, r.whole = true) ∧ poll.writeAck = true

theorem acknowledge_acks (v : RecordVars) (poll : Poll) :
    (acknowledge v poll).1 =
      if v.complete = true ∧ poll.writeAck = true then [⟨v.timestamp, v.spacecraftId⟩] else [] := by
  rw [acknowledge]
  cases v.complete with
  | false => rfl
  | true => cases poll.writeAck <;> rfl

instance : Decidable (AckWritten tree w poll) := inferInstanceAs (Decidable (_ ∧ _))

/-- From incomplete variables, the `try` block acknowledges what is complete
behind it, unless it ends before. -/
theorem tryBlock_acks (hinc : w.vars.complete = false) :
    (tryBlock tree w poll).2.1 =
      if (tryBlock tree w poll).1.complete = true ∧ AckWritten tree w poll then
        [⟨(tryBlock tree w poll).1.timestamp, (tryBlock tree w poll).1.spacecraftId⟩]
      else [] := by
  rw [tryBlock]
  cases ha : answer tree w poll with
  | threw => simp [hinc]
  | noPacket => simp [hinc]
  | packets records =>
      simp only [assignRecords_eq, AckWritten, ha, Answer.read]
      cases hall : (readRecords tree records).all ReadRecord.whole with
      | false =>
          have hnot : ¬ ∀ r ∈ readRecords tree records, r.whole = true := fun hw => by
            rw [List.all_eq_true.mpr hw] at hall
            cases hall
          rw [if_neg fun h => hnot h.2.1]
      | true =>
          have hwhole : ∀ r ∈ readRecords tree records, r.whole = true :=
            List.all_eq_true.mp hall
          show (acknowledge _ poll).1 = _
          rw [acknowledge_acks]
          exact if_congr (and_congr_right fun _ => (and_iff_right hwhole).symm) rfl rfl

/-- In every iteration, the acknowledgements are those of the published PDUs
exactly when no telecommand is in force behind the `try` block, or its payload
can be sent just in case its acknowledgement is written. -/
theorem acknowledged_iff_published (run : Run tree connected h s) (hw : s.worker = some w)
    (poll : Poll) :
    (iteration tree w poll).Agrees ↔
      ((valuesOf tree .reset (propertiesOf (s.sources tree w poll))).complete = true →
        (Sendable (valuesOf tree .reset (propertiesOf (s.sources tree w poll))).packetPayload ↔
          AckWritten tree w poll)) := by
  have hinv := run.consistent
  rw [← hinv.inForce hw poll, Outcome.Agrees, iteration_acks, iteration_published,
    tryBlock_acks (hinv.incomplete w hw)]
  rcases publish_cases (tryBlock tree w poll).1 with
    ⟨hc, hp⟩ | ⟨hc, hsend, hp | hp⟩ | ⟨hc, hsend, f, _, hp⟩
  · simp [hc, hp]
  · simp [hc, hp, hsend]
  · simp [hc, hp, hsend]
  · simp [hc, hp, hsend, Pdu.ack]

/-- A telecommand whose payload lacks the prefix. -/
def unprefixedRecord : Record :=
  [(typeKey, ['T', 'C']), (timestampKey, ['5']), (spacecraftIdKey, ['4', '2']),
    (payloadKey, ['0', '1', 'A', 'B'])]

def unprefixedTree : PropertyTree := .ofTexts [[unprefixedRecord]]

theorem acknowledged_iff_published_unprefixed :
    ∃ (s : State) (w : Worker), s.worker = some w ∧
      ((iteration unprefixedTree w (.answered [unprefixedRecord])).Agrees ↔
        ((valuesOf unprefixedTree .reset (propertiesOf
            (s.sources unprefixedTree w (.answered [unprefixedRecord])))).complete = true →
          (Sendable (valuesOf unprefixedTree .reset (propertiesOf
              (s.sources unprefixedTree w (.answered [unprefixedRecord])))).packetPayload ↔
            AckWritten unprefixedTree w (.answered [unprefixedRecord])))) :=
  ⟨initial true, ⟨true, .reset⟩, rfl,
    acknowledged_iff_published (.nil : Run unprefixedTree true [] (initial true)) rfl _⟩

/-- Its acknowledgement is written, and nothing is published. -/
theorem acknowledged_not_published :
    ∃ (h : List (State × Poll)) (s : State) (w : Worker),
      Run unprefixedTree true h s ∧ s.worker = some w ∧
        (iteration unprefixedTree w (.answered [unprefixedRecord])).acks = [⟨5, 42⟩] ∧
        (iteration unprefixedTree w (.answered [unprefixedRecord])).published = [] ∧
        ¬ (iteration unprefixedTree w (.answered [unprefixedRecord])).Agrees :=
  ⟨[], initial true, ⟨true, .reset⟩, .nil, rfl, rfl, rfl, by decide⟩

end HttpSource

end GsSDR
