import GsSDR.HttpSource.Acknowledge

/-!
# Several telecommands in one response

The loops go through all records of a response, but the acknowledgement and the
publish block come once behind them.  So a response of telecommands is handled
in full only if it has a single one.  Even that one is lost when `[]` occurs
anywhere in the text, when a property does not convert, or when its payload is
too short for a vector with a byte.
-/

namespace GsSDR

namespace HttpSource

open Cxx

variable {β : Type*}

/-! ## Telecommands -/

/-- The data of the last property of this name. -/
def Record.last (key : Str) (r : Record) : Option Str :=
  (r.filter fun p => p.1 == key).getLast?.map Prod.snd

/-- A record that is the telecommand with this timestamp and spacecraftId.  It
may have any further properties. -/
structure IsTelecommand (tree : PropertyTree) (r : Record) (tc : Ack) : Prop where
  type : r.last typeKey = some ['T', 'C']
  timestamp : (r.last timestampKey).bind tree.getInt64 = some tc.timestamp
  timestamp_ne : tc.timestamp ≠ 0
  spacecraftId : (r.last spacecraftIdKey).bind tree.getInt = some tc.spacecraftId
  spacecraftId_ne : tc.spacecraftId ≠ 0
  payload : ∃ payload, r.last payloadKey = some payload ∧ substr payload 0 2 = ['0', 'x']

theorem assigned_last {key : Str} {conv : Str → Option β} {old : β} {r : Record} {x : β}
    (h : (r.last key).bind conv = some x) : assigned key conv old r = x := by
  obtain ⟨d, hd, hx⟩ := Option.bind_eq_some_iff.mp h
  obtain ⟨p, hp, rfl⟩ := Option.map_eq_some_iff.mp hd
  have hkey : p.1 = key := by
    have hmem := List.mem_of_getLast? hp
    simpa using (List.mem_filter.mp hmem).2
  obtain ⟨pre, hpre⟩ := List.getLast?_eq_some_iff.mp hp
  rw [assigned_filter, hpre, assigned_append, assigned_cons, if_pos hkey, hx]
  rfl

variable {tree : PropertyTree} {connected : Bool} {h : List (State × Poll)} {s : State}
  {w : Worker} {body : Str} {r : Record} {records : List Record} {tc : Ack} {tcs : List Ack}

/-- A telecommand overwrites all that the acknowledgement and the block look
at. -/
theorem IsTelecommand.valuesOf (hr : IsTelecommand tree r tc) (v : RecordVars) :
    (valuesOf tree v r).complete = true ∧
      (HttpSource.valuesOf tree v r).timestamp = tc.timestamp ∧
      (HttpSource.valuesOf tree v r).spacecraftId = tc.spacecraftId ∧
      r.last payloadKey = some (HttpSource.valuesOf tree v r).packetPayload := by
  obtain ⟨payload, hpayload, _⟩ := hr.payload
  have htype : (HttpSource.valuesOf tree v r).packetType = ['T', 'C'] :=
    assigned_last (by rw [hr.type]; rfl)
  have htimestamp : (HttpSource.valuesOf tree v r).timestamp = tc.timestamp :=
    assigned_last hr.timestamp
  have hspacecraftId : (HttpSource.valuesOf tree v r).spacecraftId = tc.spacecraftId :=
    assigned_last hr.spacecraftId
  have hpacketPayload : (HttpSource.valuesOf tree v r).packetPayload = payload :=
    assigned_last (by rw [hpayload]; rfl)
  refine ⟨?_, htimestamp, hspacecraftId, by rw [hpacketPayload, hpayload]⟩
  simp [RecordVars.complete, htype, htimestamp, hspacecraftId, hr.timestamp_ne,
    hr.spacecraftId_ne]

/-! ## The response -/

/-- Each telecommand is acknowledged and published once, in their order. -/
def Outcome.HandlesAll (out : Outcome) (tcs : List Ack) : Prop :=
  out.acks = tcs ∧ out.published.map Pdu.ack = tcs

/-- What the single telecommand of a response has to meet. -/
structure Handleable (tree : PropertyTree) (body : Str) (r : Record) : Prop where
  noBrackets : contains ['[', ']'] body = false
  size : 2 < body.length
  converts : ∀ p ∈ r, converts tree p = true
  payload : ∀ payload, r.last payloadKey = some payload →
    0 < vectorSize payload.length ∧ vectorSize payload.length ≤ vectorMax

theorem answer_succeeding (hjson : tree.readJson body = some records) :
    answer tree w (.succeeding body) =
      if contains ['[', ']'] body = false ∧ 2 < body.length then .packets records
      else .noPacket := by
  simp only [answer, Poll.succeeding, hjson]
  by_cases hsize : body.length ≤ 2
  · simp [hsize, Nat.not_lt.mpr hsize]
  · cases hb : contains ['[', ']'] body with
    | false => simp [hsize, Nat.lt_of_not_le hsize]
    | true => simp

theorem readRecords_whole :
    (∀ q ∈ readRecords tree records, q.whole = true) ↔
      ∀ r ∈ records, ∀ p ∈ r, HttpSource.converts tree p = true := by
  induction records with
  | nil => simp [readRecords]
  | cons r rs ih =>
      rw [readRecords]
      split
      next hall =>
        rw [List.forall_mem_cons, List.forall_mem_cons, ih]
        exact and_congr_left fun _ => by simpa using hall
      next hnot =>
        rw [List.forall_mem_singleton, List.forall_mem_cons]
        constructor
        · intro hf
          cases hf
        · intro hconv
          exact absurd (List.all_eq_true.mpr hconv.1) hnot

theorem tryBlock_single {poll : Poll} (ha : answer tree w poll = .packets [r])
    (hconv : ∀ p ∈ r, HttpSource.converts tree p = true) :
    (tryBlock tree w poll).1 = HttpSource.valuesOf tree w.vars r ∧
      (AckWritten tree w poll ↔ poll.writeAck = true) := by
  have hread : (answer tree w poll).read tree = [⟨r, true⟩] := by
    rw [ha, Answer.read, readRecords, if_pos (List.all_eq_true.mpr hconv)]
    rfl
  constructor
  · rw [tryBlock_vars, hread]
    simp [propertiesOf]
  · rw [AckWritten, hread]
    simp

/-- An iteration acknowledges at most one telecommand, and only of a response
that it parses. -/
theorem acks_ne_nil (hinc : w.vars.complete = false)
    (hjson : tree.readJson body = some records)
    (hacks : (iteration tree w (.succeeding body)).acks ≠ []) :
    (iteration tree w (.succeeding body)).acks.length = 1 ∧
      answer tree w (.succeeding body) = .packets records ∧
      contains ['[', ']'] body = false ∧ 2 < body.length ∧
      ∀ r ∈ records, ∀ p ∈ r, HttpSource.converts tree p = true := by
  rw [iteration_acks, tryBlock_acks hinc] at hacks
  rw [iteration_acks, tryBlock_acks hinc]
  by_cases hcond : (tryBlock tree w (.succeeding body)).1.complete = true ∧
      AckWritten tree w (.succeeding body)
  · rw [if_pos hcond]
    have ha := answer_succeeding (w := w) hjson
    by_cases hparsed : contains ['[', ']'] body = false ∧ 2 < body.length
    · rw [if_pos hparsed] at ha
      refine ⟨rfl, ha, hparsed.1, hparsed.2, readRecords_whole.mp ?_⟩
      have hwhole := hcond.2.1
      rwa [ha] at hwhole
    · rw [if_neg hparsed] at ha
      have hvars : (tryBlock tree w (.succeeding body)).1 = w.vars := by
        rw [tryBlock, ha]
      rw [hvars, hinc] at hcond
      exact absurd hcond.1 Bool.false_ne_true
  · rw [if_neg hcond] at hacks
    exact absurd rfl hacks

/-- An iteration without failures handles all telecommands of a response exactly
when there is one, and this one can be handled. -/
theorem handlesAll_iff (run : Run tree connected h s) (hw : s.worker = some w)
    (hjson : tree.readJson body = some records)
    (htcs : List.Forall₂ (IsTelecommand tree) records tcs) (hne : tcs ≠ []) :
    (iteration tree w (.succeeding body)).HandlesAll tcs ↔
      ∃ r, records = [r] ∧ Handleable tree body r := by
  have hinc := run.consistent.incomplete w hw
  constructor
  · rintro ⟨hacks, hpublished⟩
    obtain ⟨hlength, ha, hbrackets, hsize, hconv⟩ :=
      acks_ne_nil hinc hjson (by rw [hacks]; exact hne)
    rw [hacks] at hlength
    obtain ⟨tc, rfl⟩ := List.length_eq_one_iff.mp hlength
    rcases htcs with _ | ⟨hr, hrest⟩
    cases hrest
    rename_i r
    have hconv' := hconv r (List.mem_singleton.mpr rfl)
    obtain ⟨hcomplete, _, _, hpayload⟩ := hr.valuesOf w.vars
    refine ⟨r, rfl, hbrackets, hsize, hconv', ?_⟩
    intro payload hlast
    rw [hpayload] at hlast
    cases hlast
    rw [iteration_published, (tryBlock_single ha hconv').1] at hpublished
    rcases publish_cases (HttpSource.valuesOf tree w.vars r) with
      ⟨hc, _⟩ | ⟨_, _, hp | hp⟩ | ⟨_, hsend, _⟩
    · rw [hcomplete] at hc
      cases hc
    · rw [hp] at hpublished
      cases hpublished
    · rw [hp] at hpublished
      cases hpublished
    · exact hsend.2
  · rintro ⟨r, rfl, hok⟩
    rcases htcs with _ | ⟨hr, hrest⟩
    cases hrest
    have ha := answer_succeeding (w := w) hjson
    rw [if_pos ⟨hok.noBrackets, hok.size⟩] at ha
    obtain ⟨hvars, hwritten⟩ := tryBlock_single ha hok.converts
    obtain ⟨hcomplete, htimestamp, hspacecraftId, hpayload⟩ := hr.valuesOf w.vars
    obtain ⟨payload, hlast, hstart⟩ := hr.payload
    have hsend : Sendable (HttpSource.valuesOf tree w.vars r).packetPayload := by
      rw [hlast] at hpayload
      cases hpayload
      exact ⟨hstart, hok.payload _ hlast⟩
    rw [Outcome.HandlesAll, iteration_acks, iteration_published, tryBlock_acks hinc, hvars,
      if_pos ⟨hcomplete, hwritten.mpr rfl⟩]
    rcases publish_cases (HttpSource.valuesOf tree w.vars r) with
      ⟨hc, _⟩ | ⟨_, hnot, _⟩ | ⟨_, _, f, _, hp⟩
    · rw [hcomplete] at hc
      cases hc
    · exact absurd hsend hnot
    · rw [hp]
      simp [Pdu.ack, htimestamp, hspacecraftId]

/-- A second telecommand. -/
def laterRecord : Record :=
  [(typeKey, ['T', 'C']), (timestampKey, ['6']), (spacecraftIdKey, ['4', '2']),
    (payloadKey, ['0', 'x', '0', '2', 'C', 'D'])]

def queueTree : PropertyTree := .ofTexts [[telecommandRecord], [telecommandRecord, laterRecord]]

theorem telecommandRecord_is : IsTelecommand queueTree telecommandRecord ⟨5, 42⟩ :=
  ⟨rfl, rfl, by simp, rfl, by simp, _, rfl, rfl⟩

theorem laterRecord_is : IsTelecommand queueTree laterRecord ⟨6, 42⟩ :=
  ⟨rfl, rfl, by simp, rfl, by simp, _, rfl, rfl⟩

theorem handlesAll_iff_single :
    ∃ (s : State) (w : Worker), s.worker = some w ∧
      ((iteration queueTree w (.succeeding (jsonText [telecommandRecord]))).HandlesAll [⟨5, 42⟩] ↔
        ∃ r, [telecommandRecord] = [r] ∧
          Handleable queueTree (jsonText [telecommandRecord]) r) :=
  ⟨initial true, ⟨true, .reset⟩, rfl,
    handlesAll_iff (.nil : Run queueTree true [] (initial true)) rfl rfl
      (.cons telecommandRecord_is .nil) (List.cons_ne_nil _ _)⟩

/-- Of two telecommands in one response the first is dropped. -/
theorem handlesAll_fails_two :
    List.Forall₂ (IsTelecommand queueTree) [telecommandRecord, laterRecord] [⟨5, 42⟩, ⟨6, 42⟩] ∧
      ∃ (h : List (State × Poll)) (s : State) (w : Worker),
        Run queueTree true h s ∧ s.worker = some w ∧
          queueTree.readJson (jsonText [telecommandRecord, laterRecord]) =
            some [telecommandRecord, laterRecord] ∧
          ¬ (iteration queueTree w
            (.succeeding (jsonText [telecommandRecord, laterRecord]))).HandlesAll
              [⟨5, 42⟩, ⟨6, 42⟩] := by
  have hjson : queueTree.readJson (jsonText [telecommandRecord, laterRecord]) =
      some [telecommandRecord, laterRecord] := rfl
  refine ⟨.cons telecommandRecord_is (.cons laterRecord_is .nil), [], initial true,
    ⟨true, .reset⟩, .nil, rfl, hjson, ?_⟩
  rintro ⟨hacks, _⟩
  have hsome : (iteration queueTree ⟨true, .reset⟩
      (.succeeding (jsonText [telecommandRecord, laterRecord]))).acks ≠ [] := by
    rw [hacks]
    exact List.cons_ne_nil _ _
  have hlength := (acks_ne_nil rfl hjson hsome).1
  rw [hacks] at hlength
  cases hlength

end HttpSource

end GsSDR
