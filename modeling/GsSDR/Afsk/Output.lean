import GsSDR.Afsk.Stream
import Mathlib.Data.Rat.Floor
import Mathlib.Data.List.Infix

/-!
# What the AFSK blocks put out

The invariant of `afsk_basic` gives its stream, for both settings of the tag
name (`tagStream_of_streaming`, `filledStream_of_streaming`).  The bursts in it
are those that `afsk_basic_pdu` publishes for the same messages (`streams`).
-/

namespace GsSDR.Afsk

open Bursts

variable {R S M : Type} [NatCast R]

namespace Basic

section

variable (fl : Floats R S) (b : Basic R)

/-- The stream is a prefix of the bursts.  Of these, `k` have been started, all
but the last of them are complete, and each has one tag, where it starts and
with its length. -/
def TagStream (bursts : List (List S)) (s : State R S M) : Prop :=
  ∃ k ≤ bursts.length, s.outbox = (s.received.drop k).map Msg.data ∧
    s.stream <+: (bursts.take k).flatten ∧ (bursts.take (k - 1)).flatten <+: s.stream ∧
    s.tags = (marksFrom 0 (bursts.take k)).map b.tag

/-- The stream is `k` complete bursts with zeros between them, and then a part of
the next burst if that one is in progress. -/
def FilledStream (bursts : List (List S)) (s : State R S M) : Prop :=
  ∃ k ≤ bursts.length, ∃ marks out part,
    Laid (fl.float32 ((0 : Nat) : R)) True (bursts.take k) marks out ∧
    s.stream = out ++ part ∧
    (part = [] ∧ s.outbox = (s.received.drop k).map Msg.data ∨
      ∃ burst, bursts[k]? = some burst ∧ part <+: burst ∧
        s.outbox = (s.received.drop (k + 1)).map Msg.data)

/-- Where the stream ends: behind the bursts `done`, or in the next one. -/
def Position (bursts : List (List S)) (s : State R S M) : Prop :=
  ∃ done marks out,
    Laid (fl.float32 ((0 : Nat) : R)) (b.streamTag.length = 0) done marks out ∧
    ((∃ rest, bursts = done ++ rest ∧ s.stream = out ∧ s.tags = marks.map b.tag ∧
        s.outbox = (s.received.drop done.length).map Msg.data) ∨
      ∃ burst part rest, bursts = done ++ burst :: rest ∧ s.stream = out ++ part ∧
        part <+: burst ∧ s.tags = (marks ++ [(out.length, burst.length)]).map b.tag ∧
        s.outbox = (s.received.drop (done.length + 1)).map Msg.data)

end

variable {fl : Floats R S} {b : Basic R} {s : State R S M} {bursts : List (List S)}

/-- With a tag name the stream has no gaps. -/
theorem tagStream_of_position (htag : b.streamTag.length ≠ 0) (h : Position fl b bursts s) :
    TagStream b bursts s := by
  obtain ⟨done, marks, out, hlaid, hcases⟩ := h
  obtain ⟨hout, hmarks⟩ := hlaid.eq_flatten htag
  rcases hcases with ⟨rest, hbursts, hstream, htags, houtbox⟩ |
    ⟨burst, part, rest, hbursts, hstream, hpart, htags, houtbox⟩
  · have htake : bursts.take done.length = done := by
      rw [hbursts, List.take_left]
    refine ⟨done.length, ?_, houtbox, ?_, ?_, ?_⟩
    · rw [hbursts, List.length_append]
      exact Nat.le_add_right _ _
    · rw [htake, hstream, hout]
    · rw [hstream, hout]
      apply List.IsPrefix.flatten
      rw [hbursts, List.take_append_of_le_length (Nat.sub_le _ _)]
      exact List.take_prefix _ _
    · rw [htake, htags, hmarks]
  · have hsplit : bursts = (done ++ [burst]) ++ rest := by
      rw [hbursts, List.append_assoc]
      rfl
    have htake : bursts.take (done.length + 1) = done ++ [burst] := by
      rw [hsplit, List.take_left' (by rw [List.length_append, List.length_singleton])]
    refine ⟨done.length + 1, ?_, houtbox, ?_, ?_, ?_⟩
    · rw [hbursts, List.length_append, List.length_cons]
      omega
    · rw [htake, hstream, hout, List.flatten_append, List.flatten_singleton]
      exact (List.prefix_append_right_inj _).mpr hpart
    · rw [Nat.add_sub_cancel, hbursts, List.take_left, hstream, hout]
      exact List.prefix_append _ _
    · rw [htake, htags, marksFrom_concat, hmarks, hout, Nat.zero_add]

/-- With an empty tag name only gaps stand between the bursts. -/
theorem filledStream_of_position (hfill : b.streamTag.length = 0) (h : Position fl b bursts s) :
    FilledStream fl bursts s := by
  obtain ⟨done, marks, out, hlaid, hcases⟩ := h
  rw [eq_true hfill] at hlaid
  have htake : ∀ {rest}, bursts = done ++ rest → bursts.take done.length = done := by
    intro rest hbursts
    rw [hbursts, List.take_left]
  have hle : ∀ {rest}, bursts = done ++ rest → done.length ≤ bursts.length := by
    intro rest hbursts
    rw [hbursts, List.length_append]
    exact Nat.le_add_right _ _
  rcases hcases with ⟨rest, hbursts, hstream, _, houtbox⟩ |
    ⟨burst, part, rest, hbursts, hstream, hpart, _, houtbox⟩
  · refine ⟨done.length, hle hbursts, marks, out, [], ?_, ?_, .inl ⟨rfl, houtbox⟩⟩
    · rwa [htake hbursts]
    · rw [hstream, List.append_nil]
  · refine ⟨done.length, hle hbursts, marks, out, part, ?_, hstream,
      .inr ⟨burst, ?_, hpart, houtbox⟩⟩
    · rwa [htake hbursts]
    · rw [hbursts, List.getElem?_append_right (Nat.le_refl _), Nat.sub_self]
      rfl

variable [Add R] [Mul R] [Div R]

/-- There are samples for all messages. -/
theorem samples_total (fl : Floats R S) (hsps : 1 ≤ b.modem.sps) (msgs : List (List UInt8)) :
    ∃ bursts, List.Forall₂ (Samples fl b) msgs bursts := by
  induction msgs with
  | nil => exact ⟨[], .nil⟩
  | cons msg msgs ih =>
      obtain ⟨bursts, hbursts⟩ := ih
      obtain ⟨opb, hopb⟩ := Modem.modulate_isSome fl hsps msg
      exact ⟨opb.map fl.float32 :: bursts, .cons ⟨opb, hopb, rfl⟩ hbursts⟩

/-- The messages that wait are those behind the ones sent. -/
theorem outbox_of_received {sent : List (List UInt8)} {bursts : List (List S)}
    (hreceived : s.received.map Msg.data = sent ++ s.outbox)
    (hsent : List.Forall₂ (Samples fl b) sent bursts) :
    s.outbox = (s.received.drop bursts.length).map Msg.data := by
  rw [List.map_drop, hreceived, ← hsent.length_eq, List.drop_left]

/-- The invariant gives the position. -/
theorem position_of_streaming (hsps : 1 ≤ b.modem.sps) (h : Streaming fl b s) :
    ∃ bursts, List.Forall₂ (Samples fl b) (s.received.map Msg.data) bursts ∧
      Position fl b bursts s := by
  obtain ⟨waiting, hwaiting⟩ := samples_total fl hsps s.outbox
  rw [Streaming] at h
  split at h
  next =>
    obtain ⟨sent, hreceived, done, marks, hsent, hlaid, htags⟩ := h
    refine ⟨done ++ waiting, ?_, done, marks, s.stream, hlaid, .inl ⟨waiting, rfl, rfl, htags, ?_⟩⟩
    · rw [hreceived]
      exact List.rel_append hsent hwaiting
    · exact outbox_of_received hreceived hsent
  next opb _ =>
    obtain ⟨_, sent, msg, tags, stream, hreceived, hopb, hwhole, htags, hstream⟩ := h
    obtain ⟨done, marks, hsent, hlaid, htags'⟩ := hwhole
    refine ⟨done ++ opb.map fl.float32 :: waiting, ?_, done, marks, stream, hlaid,
      .inr ⟨opb.map fl.float32, (opb.take s.opbIdx).map fl.float32, waiting, rfl, hstream, ?_, ?_,
        ?_⟩⟩
    · rw [hreceived]
      exact List.rel_append hsent (.cons ⟨opb, hopb, rfl⟩ hwaiting)
    · rw [List.map_take]
      exact List.take_prefix _ _
    · rw [htags, htags', List.map_append, List.map_singleton, List.length_map]
    · have hmsg : s.received.map Msg.data = (sent ++ [msg]) ++ s.outbox := by
        rw [hreceived, List.append_assoc]
        rfl
      have hone : List.Forall₂ (Samples fl b) (sent ++ [msg]) (done ++ [opb.map fl.float32]) :=
        List.rel_append hsent (.cons ⟨opb, hopb, rfl⟩ .nil)
      have houtbox := outbox_of_received hmsg hone
      rwa [List.length_append, List.length_singleton] at houtbox

end Basic

namespace Pdu

variable [Add R] [Mul R] [Div R] {fl : Floats R S} {m : Modem R}

/-- The block that publishes bursts publishes those of its messages. -/
theorem exec_published {msgs : List (Msg M)} {bursts : List (List S)}
    (h : List.Forall₂ (fun msg burst => ∃ opb, ax25ToFsk fl m msg.data = some opb ∧
      burst = opb.map fl.float32) msgs bursts) :
    ∀ {s : Pdu R S M}, s.outbox = [] →
      ∃ r, Transition.exec (handleMsg fl m) s msgs = some r ∧
        r.2.published =
          s.published ++ (msgs.zip bursts).map fun p => (p.1.dict, p.2) := by
  induction h with
  | nil =>
      intro s _
      exact ⟨_, rfl, (List.append_nil _).symm⟩
  | @cons msg burst msgs bursts hmsg _ ih =>
      intro s hs
      obtain ⟨opb, hopb, rfl⟩ := hmsg
      let t : Pdu R S M :=
        { outbox := []
          outputBuffer := some opb
          published := s.published ++ [(msg.dict, opb.map fl.float32)] }
      have hstep : handleMsg fl m s msg = some t := by
        simp only [handleMsg, hs, List.nil_append, hopb, t]
      obtain ⟨r, hr, hpublished⟩ := ih (s := t) rfl
      refine ⟨((s, msg) :: r.1, r.2), ?_, ?_⟩
      · rw [Transition.exec, hstep]
        simp only [hr, Option.map_some]
      · rw [hpublished]
        simp [t]

end Pdu

variable [Add R] [Mul R] [Div R] [BEq R] [LE R] [LT R]

/-- After any calls, the stream of `afsk_basic` has the bursts of the messages in
the order in which they came in, and only they and the permitted zeros.
`afsk_basic_pdu` publishes the same bursts for the same messages. -/
theorem streams (fl : Floats R S) (law : fl.Lawful)
    (sampRate preambleLenMs markFreq spaceFreq baudRate : R) (streamTag : String) (b : Basic R)
    (hmake : Basic.make fl sampRate preambleLenMs markFreq spaceFreq baudRate streamTag = some b)
    (hbaud : ((0 : Nat) : R) < baudRate) (hsamp : baudRate ≤ sampRate)
    (events : List (Basic.Event M)) :
    ∃ r m pdu bursts,
      Transition.exec (Basic.step fl b) Basic.initial events = some r ∧
      Pdu.make fl sampRate preambleLenMs markFreq spaceFreq baudRate = some m ∧
      Transition.exec (Pdu.handleMsg fl m) Pdu.initial r.2.received = some pdu ∧
      List.Forall₂ (Basic.Samples fl b) (r.2.received.map Msg.data) bursts ∧
      pdu.2.published = (r.2.received.zip bursts).map (fun p => (p.1.dict, p.2)) ∧
      (streamTag.length ≠ 0 → Basic.TagStream b bursts r.2) ∧
      (streamTag.length = 0 → Basic.FilledStream fl bursts r.2) := by
  obtain ⟨m, hm, rfl⟩ := Option.map_eq_some_iff.mp hmake
  have hsps : 1 ≤ m.sps := Modem.one_le_sps law hm hbaud hsamp
  obtain ⟨r, hr⟩ := Transition.exec_total (Basic.step_isSome fl (b := ⟨m, streamTag⟩) hsps)
    events (Basic.initial : Basic.State R S M)
  have hstreaming : Basic.Streaming fl ⟨m, streamTag⟩ r.2 :=
    Transition.exec_invariant Basic.step_streaming events Basic.streaming_initial hr
  obtain ⟨bursts, hbursts, hposition⟩ := Basic.position_of_streaming hsps hstreaming
  obtain ⟨pdu, hpdu, hpublished⟩ :=
    Pdu.exec_published (List.forall₂_map_left_iff.mp hbursts) (s := Pdu.initial) rfl
  exact ⟨r, m, pdu, bursts, hr, hm, hpdu, hbursts, hpublished,
    fun htag => Basic.tagStream_of_position htag hposition,
    fun hfill => Basic.filledStream_of_position hfill hposition⟩

/-- Rationals for floats, as far as a run needs them whose only angle is a right
one.  Its float has the sine 1. -/
def rationalFloats : Floats ℚ ℚ where
  pi := 884279719003555 / 281474976710656
  sin x := if x = 884279719003555 / 281474976710656 / 2 then 1 else x
  int x := some (if x < 0 then ⌈x⌉ else ⌊x⌋)
  float32 x := x

theorem rationalFloats_lawful : rationalFloats.Lawful where
  one_mul x := by
    rw [Nat.cast_one, one_mul]
  one_le_int a b n hb hle hn := by
    rw [Nat.cast_zero] at hb
    have hquot : 1 ≤ a / b := (one_le_div hb).mpr hle
    have hfloor : ⌊a / b⌋ = n := by
      have hpos : ¬ a / b < 0 := not_lt.mpr (zero_le_one.trans hquot)
      simpa [rationalFloats, hpos] using hn
    rw [← hfloor]
    exact Int.le_floor.mpr (by exact_mod_cast hquot)

/-- Two messages in calls for few samples, at a mark of a quarter of the sample
rate. -/
theorem streams_twoMessages :
    ∃ r m pdu bursts,
      Transition.exec
          (Basic.step rationalFloats ⟨⟨4, 1, 0, 4, 0, 1⟩, "stream_tag"⟩) Basic.initial
          [.work 3, .handleMsg ⟨(), [1, 0]⟩, .work 1, .handleMsg ⟨(), []⟩, .work 0, .work 5,
            .work 5] = some r ∧
      Pdu.make rationalFloats 4 0 1 0 4 = some m ∧
      Transition.exec (Pdu.handleMsg rationalFloats m) Pdu.initial r.2.received = some pdu ∧
      List.Forall₂ (Basic.Samples rationalFloats ⟨⟨4, 1, 0, 4, 0, 1⟩, "stream_tag"⟩)
        (r.2.received.map Msg.data) bursts ∧
      pdu.2.published = (r.2.received.zip bursts).map (fun p => (p.1.dict, p.2)) ∧
      ("stream_tag".length ≠ 0 →
        Basic.TagStream ⟨⟨4, 1, 0, 4, 0, 1⟩, "stream_tag"⟩ bursts r.2) ∧
      ("stream_tag".length = 0 → Basic.FilledStream rationalFloats bursts r.2) := by
  have hmake : Basic.make rationalFloats 4 0 1 0 4 "stream_tag" =
      some ⟨⟨4, 1, 0, 4, 0, 1⟩, "stream_tag"⟩ := by
    simp [Basic.make, Modem.make, rationalFloats]
  exact streams rationalFloats rationalFloats_lawful 4 0 1 0 4 "stream_tag" _ hmake
    (by norm_num) (le_refl 4) _

end GsSDR.Afsk
