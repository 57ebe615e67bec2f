import GsSDR.Afsk.Modulator
import GsSDR.Lib.Bursts
import Mathlib.Data.List.Forall2

/-!
# The AFSK stream

`afsk_basic` queues messages and streams the samples of one after the other.  A
call of `work` asks for a number of samples.  It goes on with the burst in
`output_buffer`, or starts the next one and tags its first sample.  Behind a
burst it returns early or, with an empty tag name, fills up with zeros.

The invariant `Streaming` says where in the stream the bursts are.  It holds
after all calls of any lengths, at any times (`streams`).
-/

namespace GsSDR.Afsk

open Bursts

variable {R S M : Type}

/-- A stream tag. -/
structure Tag where
  offset : Nat
  key : String
  value : Nat
deriving DecidableEq, Repr

/-- A block `afsk_basic`, by what its constructor sets. -/
structure Basic (R : Type) where
  modem : Modem R
  streamTag : String

namespace Basic

/-- The constructor. -/
def make [Mul R] [Div R] [NatCast R] [BEq R] (fl : Floats R S)
    (sampRate preambleLenMs markFreq spaceFreq baudRate : R) (streamTag : String) :
    Option (Basic R) :=
  (Modem.make fl sampRate preambleLenMs markFreq spaceFreq baudRate).map
    fun modem => { modem, streamTag }

/-- The members that the calls change, the stream and its tags, and the messages
that have come in. -/
structure State (R S M : Type) where
  outbox : List (List UInt8)
  outputBuffer : Option (List R)
  opbIdx : Nat
  stream : List S
  tags : List Tag
  received : List (Msg M)

def initial : State R S M where
  outbox := []
  outputBuffer := none
  opbIdx := 0
  stream := []
  tags := []
  received := []

/-- A call of the block. -/
inductive Event (M : Type) where
  | handleMsg (msg : Msg M)
  /-- `work` with an output array of this length. -/
  | work (length : Nat)

section

variable [Add R] [Mul R] [Div R] [NatCast R] (fl : Floats R S) (b : Basic R)

/-- The tag that starts a burst. -/
def tag (mark : Nat × Nat) : Tag := ⟨mark.1, b.streamTag, mark.2⟩

/-- `out[idx:] = 0`, for `n` samples. -/
def zeros (n : Nat) : List S := List.replicate n (fl.float32 ((0 : Nat) : R))

/-- `ax25_to_fsk`. -/
def ax25ToFsk (msg : List UInt8) : Option (List R) := b.modem.modulate fl msg

/-- The second part of `work`, for the burst in the output buffer. -/
def copy (opb : List R) (length : Nat) (s : State R S M) : State R S M :=
  let cnt := min (opb.length - s.opbIdx) length
  let out := ((opb.drop s.opbIdx).take cnt).map fl.float32
  { s with
    opbIdx := s.opbIdx + cnt
    outputBuffer := if opb.length ≤ s.opbIdx + cnt then none else some opb
    stream :=
      s.stream ++ out ++ if b.streamTag.length = 0 then zeros fl (length - cnt) else [] }

/-- `work`.  What it returns is the number of samples that it adds to the stream,
and `nitems_written` is the number of samples before. -/
def work (length : Nat) (s : State R S M) : Option (State R S M) :=
  match s.outputBuffer with
  | some opb => some (copy fl b opb length s)
  | none =>
      match s.outbox with
      | [] =>
          if b.streamTag.length = 0 then
            some { s with stream := s.stream ++ zeros fl length }
          else some s
      | msg :: outbox =>
          match ax25ToFsk fl b msg with
          | none => none
          | some opb =>
              let t : State R S M :=
                { s with
                  outbox
                  outputBuffer := some opb
                  opbIdx := 0
                  tags := s.tags ++ [b.tag (s.stream.length, opb.length)] }
              some (copy fl b opb length t)

def step (s : State R S M) : Event M → Option (State R S M)
  | .handleMsg msg =>
      some { s with outbox := s.outbox ++ [msg.data], received := s.received ++ [msg] }
  | .work length => work fl b length s

/-! ## The invariant -/

/-- The samples that come out for a message. -/
def Samples (msg : List UInt8) (burst : List S) : Prop :=
  ∃ opb, b.ax25ToFsk fl msg = some opb ∧ burst = opb.map fl.float32

/-- The stream is whole bursts, those of the messages `sent`. -/
def Whole (sent : List (List UInt8)) (tags : List Tag) (stream : List S) : Prop :=
  ∃ bursts marks, List.Forall₂ (Samples fl b) sent bursts ∧
    Laid (fl.float32 ((0 : Nat) : R)) (b.streamTag.length = 0) bursts marks stream ∧
    tags = marks.map b.tag

/-- The stream ends in the burst `opb`, of which it has the first `opbIdx`
samples. -/
def InBurst (opb : List R) (s : State R S M) : Prop :=
  ∃ sent msg tags stream,
    s.received.map Msg.data = sent ++ msg :: s.outbox ∧
    b.ax25ToFsk fl msg = some opb ∧
    Whole fl b sent tags stream ∧
    s.tags = tags ++ [b.tag (stream.length, opb.length)] ∧
    s.stream = stream ++ (opb.take s.opbIdx).map fl.float32

/-- Where in the stream the bursts are. -/
def Streaming (s : State R S M) : Prop :=
  match s.outputBuffer with
  | none => ∃ sent, s.received.map Msg.data = sent ++ s.outbox ∧ Whole fl b sent s.tags s.stream
  | some opb => s.opbIdx < opb.length ∧ InBurst fl b opb s

end

variable [Add R] [Mul R] [Div R] [NatCast R] {fl : Floats R S} {b : Basic R}
variable {sent : List (List UInt8)} {tags : List Tag} {stream : List S} {opb : List R}
variable {s t : State R S M}

theorem whole_nil : Whole fl b [] [] [] :=
  ⟨[], [], .nil, .nil, rfl⟩

/-- A burst goes behind the stream. -/
theorem Whole.burst (h : Whole fl b sent tags stream) {msg : List UInt8}
    (hopb : b.ax25ToFsk fl msg = some opb) :
    Whole fl b (sent ++ [msg]) (tags ++ [b.tag (stream.length, opb.length)])
      (stream ++ opb.map fl.float32) := by
  obtain ⟨bursts, marks, hsent, hlaid, htags⟩ := h
  refine ⟨bursts ++ [opb.map fl.float32], marks ++ [(stream.length, opb.length)], ?_, ?_, ?_⟩
  · exact List.rel_append hsent (.cons ⟨opb, hopb, rfl⟩ .nil)
  · have hburst := hlaid.burst (opb.map fl.float32)
    rwa [List.length_map] at hburst
  · rw [htags, List.map_append, List.map_singleton]

/-- So do zeros, when the tag name is empty. -/
theorem Whole.zeros (h : Whole fl b sent tags stream) (hfill : b.streamTag.length = 0)
    (n : Nat) : Whole fl b sent tags (stream ++ zeros fl n) := by
  obtain ⟨bursts, marks, hsent, hlaid, htags⟩ := h
  exact ⟨bursts, marks, hsent, hlaid.gap_replicate hfill n, htags⟩

/-- The second part of `work` goes on in the burst or ends it. -/
theorem copy_streaming (hidx : s.opbIdx ≤ opb.length) (h : InBurst fl b opb s) (length : Nat) :
    Streaming fl b (copy fl b opb length s) := by
  obtain ⟨sent, msg, tags, stream, hreceived, hopb, hwhole, htags, hstream⟩ := h
  have hcnt : (opb.drop s.opbIdx).take (min (opb.length - s.opbIdx) length) =
      (opb.drop s.opbIdx).take length := by
    rw [← List.length_drop, Nat.min_comm, ← List.take_take, List.take_length]
  by_cases hend : opb.length ≤ s.opbIdx + min (opb.length - s.opbIdx) length
  · -- The burst ends here, and zeros may follow.
    have hwritten : s.stream ++ ((opb.drop s.opbIdx).take length).map fl.float32 =
        stream ++ opb.map fl.float32 := by
      have hrest : (opb.drop s.opbIdx).take length = opb.drop s.opbIdx := by
        apply List.take_of_length_le
        rw [List.length_drop]
        omega
      rw [hrest, hstream, List.append_assoc, ← List.map_append, List.take_append_drop]
    have hnone : (copy fl b opb length s).outputBuffer = none := if_pos hend
    rw [Streaming, hnone]
    refine ⟨sent ++ [msg], ?_, ?_⟩
    · rw [List.append_assoc]
      exact hreceived
    · show Whole fl b (sent ++ [msg]) s.tags (s.stream ++ _ ++ _)
      rw [hcnt, hwritten, htags]
      split
      next hfill => exact (hwhole.burst hopb).zeros hfill _
      next =>
        rw [List.append_nil]
        exact hwhole.burst hopb
  · -- The output array ends before the burst, so there is nothing to fill.
    have hcount : min (opb.length - s.opbIdx) length = length := by omega
    have hsome : (copy fl b opb length s).outputBuffer = some opb := if_neg hend
    rw [Streaming, hsome]
    refine ⟨by show s.opbIdx + _ < _; omega, sent, msg, tags, stream, hreceived, hopb, hwhole,
      htags, ?_⟩
    have hnofill : (if b.streamTag.length = 0 then
        Basic.zeros fl (length - length) else ([] : List S)) = [] := by
      split
      next => rw [Nat.sub_self]; rfl
      next => rfl
    show s.stream ++ _ ++ _ = stream ++ (opb.take (s.opbIdx + _)).map fl.float32
    rw [hcount, hnofill, List.append_nil, hstream, List.take_add, List.map_append,
      List.append_assoc]

theorem streaming_initial : Streaming fl b (initial : State R S M) :=
  ⟨[], rfl, whole_nil⟩

/-- A message that comes in waits behind the others. -/
theorem handleMsg_streaming (h : Streaming fl b s) (msg : Msg M) :
    Streaming fl b
      { s with outbox := s.outbox ++ [msg.data], received := s.received ++ [msg] } := by
  have hreceived : ∀ front, s.received.map Msg.data = front ++ s.outbox →
      (s.received ++ [msg]).map Msg.data = front ++ (s.outbox ++ [msg.data]) := by
    intro front hfront
    rw [List.map_append, hfront, List.append_assoc, List.map_singleton]
  rw [Streaming] at h
  split at h
  next hbuffer =>
    obtain ⟨sent, hsent, hwhole⟩ := h
    simp only [Streaming, hbuffer]
    exact ⟨sent, hreceived sent hsent, hwhole⟩
  next opb hbuffer =>
    obtain ⟨hidx, sent, msg', tags, stream, hsent, hopb, hwhole, htags, hstream⟩ := h
    simp only [Streaming, hbuffer]
    refine ⟨hidx, sent, msg', tags, stream, ?_, hopb, hwhole, htags, hstream⟩
    have hrest := hreceived (sent ++ [msg']) (by rw [hsent, List.append_assoc]; rfl)
    rwa [List.append_assoc] at hrest

/-- A call of `work` starts a burst if there is none. -/
theorem work_streaming {length : Nat} (h : Streaming fl b s)
    (hwork : work fl b length s = some t) : Streaming fl b t := by
  rw [work] at hwork
  split at hwork
  next opb hbuffer =>
    cases hwork
    simp only [Streaming, hbuffer] at h
    exact copy_streaming (Nat.le_of_lt h.1) h.2 length
  next hbuffer =>
    simp only [Streaming, hbuffer] at h
    obtain ⟨sent, hsent, hwhole⟩ := h
    split at hwork
    next houtbox =>
      split at hwork
      next hfill =>
        cases hwork
        simp only [Streaming, hbuffer]
        exact ⟨sent, hsent, hwhole.zeros hfill length⟩
      next =>
        cases hwork
        simp only [Streaming, hbuffer]
        exact ⟨sent, hsent, hwhole⟩
    next msg outbox houtbox =>
      split at hwork
      next => cases hwork
      next opb hopb =>
        cases hwork
        refine copy_streaming (Nat.zero_le _) ?_ length
        refine ⟨sent, msg, s.tags, s.stream, ?_, hopb, hwhole, rfl, ?_⟩
        · rw [← houtbox]
          exact hsent
        · simp

/-- Every call keeps the invariant. -/
theorem step_streaming {e : Event M} (h : Streaming fl b s) (hstep : step fl b s e = some t) :
    Streaming fl b t := by
  cases e with
  | handleMsg msg =>
      cases hstep
      exact handleMsg_streaming h msg
  | work length => exact work_streaming h hstep

/-- With samples for each bit, no call fails. -/
theorem step_isSome (fl : Floats R S) (hsps : 1 ≤ b.modem.sps) (s : State R S M) (e : Event M) :
    ∃ t, step fl b s e = some t := by
  cases e with
  | handleMsg msg => exact ⟨_, rfl⟩
  | work length =>
      rw [step, work]
      split
      next => exact ⟨_, rfl⟩
      next =>
        split
        next => split <;> exact ⟨_, rfl⟩
        next msg outbox _ =>
          obtain ⟨opb, hopb⟩ := Modem.modulate_isSome fl hsps msg
          rw [ax25ToFsk, hopb]
          exact ⟨_, rfl⟩

end Basic

end GsSDR.Afsk
