import GsSDR.HttpSource.Invariant

/-!
# Whether a telecommand is made of one record

A PDU takes its fields from the variables, and these keep what earlier records
left in them until a complete telecommand is handled.  A record that is no
telecommand, or lacks a field, or ends in an exception leaves values behind
that the next telecommand is published with.

A run whose polls all publish from an unmixed sequence of records never does
so.
-/

namespace GsSDR

namespace HttpSource

open Cxx

variable {β : Type*}

/-- The values that a record gives by itself, from reset variables. -/
def ReadRecord.own (tree : PropertyTree) (r : ReadRecord) : RecordVars :=
  valuesOf tree .reset r.properties

/-- The PDU has its payload, timestamp, spacecraftId and radioId from this
record, which was read to its end.  What the record lacks is reset. -/
structure MadeFrom (tree : PropertyTree) (r : ReadRecord) (pdu : Pdu) : Prop where
  whole : r.whole = true
  payload : (decode (r.own tree).packetPayload).map Filling.pmtPayload = some pdu.u8vector
  timestamp : pdu.timestamp = (r.own tree).timestamp
  spacecraftId : pdu.spacecraftId = (r.own tree).spacecraftId
  radioId : pdu.radioId = (r.own tree).radioId

/-- Every published PDU is made of one received record. -/
def FromOneRecord (tree : PropertyTree) (s : State) : Prop :=
  ∀ pdu ∈ s.published, ∃ r ∈ s.received, MadeFrom tree r pdu

/-! ## Unmixed records -/

/-- The names of the properties that a PDU takes. -/
def pduKeys : List Str := [payloadKey, timestampKey, spacecraftIdKey, radioIdKey]

def ReadRecord.Has (r : ReadRecord) (key : Str) : Prop := ∃ p ∈ r.properties, p.1 = key

/-- Among the records is one, read to its end, such that no later one has a
property that a PDU takes, and no earlier one has such a property which this
one lacks. -/
def Unmixed (rs : List ReadRecord) : Prop :=
  ∃ pre r post, rs = pre ++ r :: post ∧ r.whole = true ∧
    ∀ key ∈ pduKeys, (∀ q ∈ post, ¬ q.Has key) ∧ (r.Has key ∨ ∀ q ∈ pre, ¬ q.Has key)

theorem assigned_none_has {key : Str} {conv : Str → Option β} {old : β} {rs : List ReadRecord}
    (h : ∀ q ∈ rs, ¬ q.Has key) : assigned key conv old (propertiesOf rs) = old := by
  refine assigned_absent fun p hp hkey => ?_
  obtain ⟨q, hq, hpq⟩ := List.mem_flatMap.mp hp
  exact h q hq ⟨p, hpq, hkey⟩

/-- A field that only one record has, or that no other has, is the value of
that record. -/
theorem assigned_unmixed {key : Str} {conv : Str → Option β} {old : β}
    {pre post : List ReadRecord} {r : ReadRecord}
    (hconv : ∀ p ∈ r.properties, p.1 = key → (conv p.2).isSome)
    (hpost : ∀ q ∈ post, ¬ q.Has key) (hpre : r.Has key ∨ ∀ q ∈ pre, ¬ q.Has key) :
    assigned key conv old (propertiesOf (pre ++ r :: post)) =
      assigned key conv old r.properties := by
  have hcons : propertiesOf (pre ++ r :: post) =
      propertiesOf pre ++ (r.properties ++ propertiesOf post) := by
    rw [propertiesOf_append]
    rfl
  rw [hcons, assigned_append, assigned_append, assigned_none_has hpost]
  rcases hpre with hhas | hpre
  · exact assigned_present hconv hhas _ _
  · rw [assigned_none_has hpre]

theorem getInt64_of_converts {tree : PropertyTree} {p : Property} (h : converts tree p = true)
    (hkey : p.1 = timestampKey) : (tree.getInt64 p.2).isSome := by
  rwa [converts, if_pos hkey] at h

theorem getInt_of_converts {tree : PropertyTree} {p : Property} (h : converts tree p = true)
    (hkey : p.1 = spacecraftIdKey ∨ p.1 = radioIdKey) : (tree.getInt p.2).isSome := by
  have hne : p.1 ≠ timestampKey := by
    rcases hkey with hkey | hkey
    · rw [hkey]
      exact keys_ne.2.1.2.1.symm
    · rw [hkey]
      exact keys_ne.2.1.2.2.symm
  rwa [converts, if_neg hne, if_pos hkey] at h

/-- The variables that a PDU takes, from unmixed records, are those of one
record. -/
theorem Unmixed.own {tree : PropertyTree} {rs : List ReadRecord} (h : Unmixed rs)
    (hconv : ∀ r ∈ rs, ∀ p ∈ r.properties, converts tree p = true) :
    ∃ r ∈ rs, r.whole = true ∧
      { valuesOf tree .reset (propertiesOf rs) with packetType := [] } =
        { r.own tree with packetType := [] } := by
  obtain ⟨pre, r, post, rfl, hwhole, hkeys⟩ := h
  have hmem : r ∈ pre ++ r :: post := List.mem_append_right _ (List.mem_cons_self ..)
  refine ⟨r, hmem, hwhole, ?_⟩
  have hr := hconv r hmem
  have hpayload := hkeys payloadKey (by simp [pduKeys])
  have htimestamp := hkeys timestampKey (by simp [pduKeys])
  have hspacecraftId := hkeys spacecraftIdKey (by simp [pduKeys])
  have hradioId := hkeys radioIdKey (by simp [pduKeys])
  simp only [ReadRecord.own, valuesOf]
  rw [assigned_unmixed (fun _ _ _ => rfl) hpayload.1 hpayload.2,
    assigned_unmixed (fun p hp hk => getInt64_of_converts (hr p hp) hk) htimestamp.1
      htimestamp.2,
    assigned_unmixed (fun p hp hk => getInt_of_converts (hr p hp) (.inl hk)) hspacecraftId.1
      hspacecraftId.2,
    assigned_unmixed (fun p hp hk => getInt_of_converts (hr p hp) (.inr hk)) hradioId.1
      hradioId.2]

/-! ## The runs -/

variable {tree : PropertyTree} {connected : Bool} {h : List (State × Poll)} {s t : State}
  {poll : Poll}

/-- If the last values received make up a telecommand that is sent, then the
records they come from are unmixed. -/
def PollUnmixed (tree : PropertyTree) (s : State) (poll : Poll) : Prop :=
  ∀ w, s.worker = some w →
    (valuesOf tree .reset (propertiesOf (s.sources tree w poll))).complete = true →
    Sendable (valuesOf tree .reset (propertiesOf (s.sources tree w poll))).packetPayload →
    Unmixed (s.sources tree w poll)

theorem FromOneRecord.step (hs : Consistent tree s) (hone : FromOneRecord tree s)
    (hpoll : PollUnmixed tree s poll) (hstep : step tree s poll = some t) :
    FromOneRecord tree t := by
  obtain ⟨w, hw, _, _, hpublished, hreceived, _⟩ := step_eq_some hstep
  have hforce := hs.inForce hw poll
  intro pdu hpdu
  rw [hpublished] at hpdu
  rcases List.mem_append.mp hpdu with hold | hnew
  · obtain ⟨r, hr, hmade⟩ := hone pdu hold
    rw [hreceived]
    exact ⟨r, List.mem_append_left _ hr, hmade⟩
  · rw [iteration_published] at hnew
    rcases publish_cases (tryBlock tree w poll).1 with
      ⟨_, hp⟩ | ⟨_, _, hp | hp⟩ | ⟨hc, hsend, f, hf, hp⟩
    · rw [hp] at hnew
      cases hnew
    · rw [hp] at hnew
      cases hnew
    · rw [hp] at hnew
      cases hnew
    · rw [hp] at hnew
      rw [List.mem_singleton.mp hnew]
      rw [hforce] at hc hsend hf
      have hconv : ∀ r ∈ s.sources tree w poll, ∀ p ∈ r.properties,
          converts tree p = true := by
        intro r hr
        rcases List.mem_append.mp hr with hr | hr
        · exact hs.window_converts r hr
        · exact Answer.read_converts hr
      obtain ⟨r, hr, hwhole, hown⟩ := (hpoll w hw hc hsend).own hconv
      have hreceivedBy : r ∈ t.received := by
        rw [hreceived]
        rcases List.mem_append.mp hr with hr | hr
        · exact List.mem_append_left _ (hs.window_received r hr)
        · exact List.mem_append_right _ hr
      rw [hforce]
      injection hown with _ hpayload htimestamp hspacecraftId hradioId
      refine ⟨r, hreceivedBy, hwhole, ?_, htimestamp, hspacecraftId, hradioId⟩
      rw [← hpayload, hf]
      rfl

/-- In a run whose polls all send from unmixed records, every PDU is made of one
record. -/
theorem telecommand_fromOneRecord (run : Run tree connected h s)
    (hpolls : ∀ p ∈ h, PollUnmixed tree p.1 p.2) : FromOneRecord tree s := by
  have hboth : Consistent tree s ∧ FromOneRecord tree s := by
    refine Transition.Run.invariant_of (P := fun s => Consistent tree s ∧ FromOneRecord tree s)
      (C := PollUnmixed tree) ⟨.initial, ?_⟩ ?_ run hpolls
    · intro pdu hpdu
      cases hpdu
    · intro s poll t hs hpoll hstep
      exact ⟨hs.1.step hstep, hs.2.step hs.1 hpoll hstep⟩
  exact hboth.2

/-- A record that is no telecommand and has a radioId. -/
def telemetryRecord : Record := [(typeKey, ['T', 'M']), (radioIdKey, ['7'])]

def sampleTree : PropertyTree := .ofTexts [[telemetryRecord], [telecommandRecord]]

theorem telecommand_fromOneRecord_single :
    ∃ r, Transition.exec (step sampleTree) (initial true)
        [.answered [telecommandRecord]] = some r ∧
      r.2.published = [⟨5, 42, 0, [0x01]⟩] ∧ FromOneRecord sampleTree r.2 := by
  have hrun : ∃ r, Transition.exec (step sampleTree) (initial true)
        [.answered [telecommandRecord]] = some r ∧
      r.2.published = [⟨5, 42, 0, [0x01]⟩] ∧
      r.1 = [(initial true, .answered [telecommandRecord])] := ⟨_, rfl, rfl, rfl⟩
  obtain ⟨r, hr, hpublished, hhistory⟩ := hrun
  refine ⟨r, hr, hpublished, telecommand_fromOneRecord (Transition.exec_run hr) ?_⟩
  intro p hp w hw _ _
  rw [hhistory] at hp
  rw [List.mem_singleton.mp hp] at hw ⊢
  cases hw
  refine ⟨[], ⟨telecommandRecord, true⟩, [], rfl, rfl, fun key _ => ⟨?_, .inr ?_⟩⟩
  · intro q hq
    cases hq
  · intro q hq
    cases hq

/-- The radioId of a telemetry record is sent with the next telecommand. -/
theorem telecommand_mixes_radioId :
    ∃ (h : List (State × Poll)) (s : State), Run sampleTree true h s ∧
      s.published = [⟨5, 42, 7, [0x01]⟩] ∧ ¬ FromOneRecord sampleTree s := by
  have hrun : ∃ r, Transition.exec (step sampleTree) (initial true)
        [.answered [telemetryRecord], .answered [telecommandRecord]] = some r ∧
      r.2.published = [⟨5, 42, 7, [0x01]⟩] ∧
      r.2.received = [⟨telemetryRecord, true⟩, ⟨telecommandRecord, true⟩] := ⟨_, rfl, rfl, rfl⟩
  obtain ⟨r, hr, hpublished, hreceived⟩ := hrun
  refine ⟨r.1, r.2, Transition.exec_run hr, hpublished, fun hone => ?_⟩
  obtain ⟨q, hq, hmade⟩ := hone ⟨5, 42, 7, [0x01]⟩ (by rw [hpublished]; exact .head _)
  rw [hreceived] at hq
  rcases List.mem_cons.mp hq with rfl | hq
  · exact absurd hmade.timestamp (by decide)
  · rw [List.mem_singleton.mp hq] at hmade
    exact absurd hmade.radioId (by decide)

end HttpSource

end GsSDR
