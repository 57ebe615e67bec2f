import GsSDR.HexPayload

/-!
# The payload of a telecommand

What `http_transfer_source_wait` does behind its catch handlers: if the record
variables hold a complete telecommand, it makes a vector of
`packet_payload.length() / 2 - 2` zero bytes, fills it from the payload two
characters at a time, publishes it if the payload starts with `0x`, and resets
the variables.

The size is unsigned, so it wraps below 4 characters, and `std::vector` throws
`std::length_error` for a size over its limit.  This block is outside the
`try`, so nothing catches that.  A vector of no bytes, of 4 or 5 characters, has
no storage: a write to it goes through a null pointer and ends the process.  In
any other vector a write at an index past its end changes no byte of it.  The
indices past the end are recorded.  The loop index is an `int` and is taken not
to overflow.
-/

namespace GsSDR

namespace HttpSource

open Cxx

/-- The variables that live outside the polling loop. -/
structure RecordVars where
  packetType : Str
  packetPayload : Str
  timestamp : Int
  spacecraftId : Int
  radioId : Int
deriving DecidableEq, Repr

/-- Their values at the start and after a reset. -/
def RecordVars.reset : RecordVars where
  packetType := []
  packetPayload := []
  timestamp := 0
  spacecraftId := 0
  radioId := 0

/-- The condition in front of the acknowledgement and of the decode block. -/
def RecordVars.complete (v : RecordVars) : Bool :=
  v.packetType == ['T', 'C'] && v.timestamp != 0 && v.spacecraftId != 0

/-- A published PDU: the entries of its dictionary and its vector. -/
structure Pdu where
  timestamp : Int
  spacecraftId : Int
  radioId : Int
  u8vector : List UInt8
deriving DecidableEq, Repr

/-- `(packet_payload.length()/2)-2` for a payload of this length, in 64 bits. -/
def vectorSize (length : Nat) : Nat :=
  (length / 2 + 0xFFFFFFFFFFFFFFFE) % 0x10000000000000000

/-- `max_size()` of a `vector<uint8_t>`. -/
def vectorMax : Nat := 0x7FFFFFFFFFFFFFFF

/-- The variables of the decode loop, with the indices written past the
vector. -/
structure Filling where
  c : Nat
  ok : Bool
  pmtPayload : List UInt8
  outOfRange : List Nat
deriving DecidableEq, Repr

/-- `pmt_payload[c++] = x`. -/
def Filling.put (f : Filling) (x : UInt8) : Filling :=
  { f with
    c := f.c + 1
    pmtPayload := f.pmtPayload.set f.c x
    outOfRange :=
      if f.c < f.pmtPayload.length then f.outOfRange else f.outOfRange ++ [f.c] }

/-- The iterations of the loop with `i != 0`, on the payload from `i` on.  The
last one may see a single character. -/
def decodePairs (f : Filling) : Str → Filling
  | [] => f
  | [x] => f.put (stringToUint8 [x])
  | x :: y :: rest => decodePairs (f.put (stringToUint8 [x, y])) rest

/-- The loop. -/
def decodeLoop (f : Filling) (packetPayload : Str) : Filling :=
  match packetPayload with
  | [] => f
  | _ :: _ =>
      if substr packetPayload 0 2 ≠ ['0', 'x'] then { f with ok := false }
      else decodePairs f (packetPayload.drop 2)

/-- The vector and all writes of the loop, or `none` for `std::length_error`. -/
def fill (packetPayload : Str) : Option Filling :=
  if vectorSize packetPayload.length ≤ vectorMax then
    some (decodeLoop ⟨0, true, List.replicate (vectorSize packetPayload.length) 0, []⟩
      packetPayload)
  else none

/-- No write went through the null pointer of an empty vector. -/
def Filling.survives (f : Filling) : Bool := !f.pmtPayload.isEmpty || f.outOfRange.isEmpty

/-- The vector and the loop, or `none` when the process ends in them. -/
def decode (packetPayload : Str) : Option Filling := (fill packetPayload).filter Filling.survives

/-- The block: the PDUs published and the variables after it, or `none` when the
process ends in it. -/
def publish (v : RecordVars) : Option (List Pdu × RecordVars) :=
  if v.complete then
    (decode v.packetPayload).map fun f =>
      (if f.ok then [⟨v.timestamp, v.spacecraftId, v.radioId, f.pmtPayload⟩] else [], .reset)
  else some ([], v)

/-! ## The loop -/

/-- Fill a vector with bytes, one after the other. -/
def Filling.putAll (f : Filling) (xs : List UInt8) : Filling := xs.foldl Filling.put f

@[simp] theorem put_length (f : Filling) (x : UInt8) :
    (f.put x).pmtPayload.length = f.pmtPayload.length := by
  simp [Filling.put]

/-- No iteration changes the flag or the size of the vector. -/
theorem decodePairs_keeps (f : Filling) (s : Str) :
    (decodePairs f s).ok = f.ok ∧ (decodePairs f s).pmtPayload.length = f.pmtPayload.length := by
  induction f, s using decodePairs.induct with
  | case1 f => exact ⟨rfl, rfl⟩
  | case2 f x => exact ⟨rfl, put_length _ _⟩
  | case3 f x y rest ih =>
      rw [decodePairs, ih.1, ih.2]
      exact ⟨rfl, put_length _ _⟩

/-- The loop keeps the size of the vector, and its flag says whether a payload
starts with `0x`. -/
theorem decodeLoop_keeps (f : Filling) (s : Str) :
    (decodeLoop f s).pmtPayload.length = f.pmtPayload.length ∧
      (decodeLoop f s).ok = (f.ok && (s.isEmpty || substr s 0 2 == ['0', 'x'])) := by
  simp only [decodeLoop]
  split
  next => simp
  next x s =>
    split
    next hne => simp [hne]
    next heq =>
      obtain ⟨hok, hlen⟩ := decodePairs_keeps f ((x :: s).drop 2)
      rw [hok, hlen]
      simp [Classical.not_not.mp heq]

/-- On rendered bytes the iterations put these bytes. -/
theorem decodePairs_renderBytes (f : Filling) (bs : List UInt8) :
    decodePairs f (renderBytes bs) = f.putAll bs := by
  induction bs generalizing f with
  | nil => rfl
  | cons b bs ih =>
      have hcons : renderBytes (b :: bs) =
          hexDigit (b.toNat / 16) :: hexDigit (b.toNat % 16) :: renderBytes bs := by
        rw [renderBytes, List.flatMap_cons, renderByte_eq]
        rfl
      rw [hcons, decodePairs, stringToUint8_renderByte, ih]
      rfl

/-- A full vector takes no more bytes. -/
theorem putAll_full {f : Filling} (bs : List UInt8) (hc : f.pmtPayload.length ≤ f.c) :
    (f.putAll bs).pmtPayload = f.pmtPayload := by
  induction bs generalizing f with
  | nil => rfl
  | cons b bs ih =>
      have hset : (f.put b).pmtPayload = f.pmtPayload := List.set_eq_of_length_le hc
      have hfull : (f.put b).pmtPayload.length ≤ (f.put b).c := by
        rw [hset]
        exact Nat.le_succ_of_le hc
      change ((f.put b).putAll bs).pmtPayload = _
      rw [ih hfull, hset]

/-- The bytes put from a place on fill the vector from there, as far as it
goes. -/
theorem putAll_pmtPayload {f : Filling} (bs : List UInt8) (hc : f.c ≤ f.pmtPayload.length) :
    (f.putAll bs).pmtPayload =
      f.pmtPayload.take f.c ++ bs.take (f.pmtPayload.length - f.c) ++
        f.pmtPayload.drop (f.c + bs.length) := by
  induction bs generalizing f with
  | nil => simp [Filling.putAll]
  | cons b bs ih =>
      rcases Nat.lt_or_eq_of_le hc with hlt | hfull
      · have hnext : (f.put b).c ≤ (f.put b).pmtPayload.length := by
          rw [put_length]
          exact hlt
        have hsub : f.pmtPayload.length - f.c = (f.pmtPayload.length - (f.c + 1)) + 1 := by omega
        change ((f.put b).putAll bs).pmtPayload = _
        rw [ih hnext, put_length]
        simp only [Filling.put, List.length_cons]
        rw [hsub, List.take_succ_cons, List.take_add_one, List.getElem?_set_self hlt,
          List.take_set_of_le (Nat.le_refl _), List.drop_set_of_lt (by omega)]
        simp [Nat.add_assoc, Nat.add_comm 1]
      · rw [putAll_full _ (Nat.le_of_eq hfull.symm), hfull, Nat.sub_self, List.take_length,
          List.drop_eq_nil_of_le (Nat.le_add_right _ _)]
        simp

/-- The writes past the vector are those of the bytes that it has no room
for. -/
theorem putAll_outOfRange (f : Filling) (bs : List UInt8) :
    (f.putAll bs).outOfRange = f.outOfRange ++
      List.range' (max f.c f.pmtPayload.length)
        (f.c + bs.length - max f.c f.pmtPayload.length) := by
  induction bs generalizing f with
  | nil =>
      have hnone : f.c + ([] : List UInt8).length - max f.c f.pmtPayload.length = 0 := by
        simp only [List.length_nil]
        omega
      rw [hnone]
      simp [Filling.putAll]
  | cons b bs ih =>
      change ((f.put b).putAll bs).outOfRange = _
      rw [ih, put_length]
      simp only [Filling.put, List.length_cons]
      split
      next hlt =>
        rw [Nat.max_eq_right (Nat.le_of_lt hlt), Nat.max_eq_right hlt, Nat.add_assoc,
          Nat.add_comm 1]
      next hge =>
        rw [Nat.max_eq_left (by omega), Nat.max_eq_left (by omega), List.append_assoc]
        have hleft : f.c + 1 + bs.length - (f.c + 1) = bs.length := by omega
        have hright : f.c + (bs.length + 1) - f.c = bs.length + 1 := by omega
        rw [hleft, hright, List.range'_succ]
        rfl

/-- The bytes that the loop reads from a payload behind its prefix. -/
def pairBytes : Str → List UInt8
  | [] => []
  | [x] => [stringToUint8 [x]]
  | x :: y :: rest => stringToUint8 [x, y] :: pairBytes rest

theorem decodePairs_eq (f : Filling) (s : Str) : decodePairs f s = f.putAll (pairBytes s) := by
  induction f, s using decodePairs.induct with
  | case1 f => rfl
  | case2 f x => rfl
  | case3 f x y rest ih =>
      rw [decodePairs, ih, pairBytes]
      rfl

theorem length_pairBytes (s : Str) : (pairBytes s).length = (s.length + 1) / 2 := by
  induction s using pairBytes.induct with
  | case1 => rfl
  | case2 x => simp [pairBytes]
  | case3 x y rest ih =>
      simp only [pairBytes, List.length_cons, ih]
      omega

/-- The loop behind the prefix stays in a vector that has room for all pairs. -/
theorem decodePairs_outOfRange (size : Nat) (s : Str) :
    (decodePairs ⟨0, true, List.replicate size 0, []⟩ s).outOfRange = [] ↔
      (s.length + 1) / 2 ≤ size := by
  rw [decodePairs_eq, putAll_outOfRange, length_pairBytes]
  simp only [List.length_replicate, List.nil_append, Nat.zero_add, Nat.zero_max,
    List.range'_eq_nil_iff]
  omega

/-- Without the prefix nothing is written. -/
theorem decodeLoop_unprefixed {s : Str} (f : Filling) (h : substr s 0 2 ≠ ['0', 'x']) :
    (decodeLoop f s).outOfRange = f.outOfRange := by
  cases s with
  | nil => rfl
  | cons x s => rw [decodeLoop, if_pos h]

/-- With it, a vector with less room than the pairs need is written past its end. -/
theorem decodeLoop_prefixed {s : Str} {size : Nat} (h : substr s 0 2 = ['0', 'x'])
    (hsize : size < (s.length - 1) / 2) :
    (decodeLoop ⟨0, true, List.replicate size 0, []⟩ s).outOfRange ≠ [] := by
  intro hnone
  cases s with
  | nil => cases h
  | cons x s =>
      rw [decodeLoop, if_neg (not_not.mpr h), decodePairs_outOfRange, List.length_drop] at hnone
      rw [List.length_cons] at hnone hsize
      omega

/-! ## The block -/

/-- The payload passes the prefix check, and its vector can be made and has a byte. -/
def Sendable (packetPayload : Str) : Prop :=
  substr packetPayload 0 2 = ['0', 'x'] ∧ 0 < vectorSize packetPayload.length ∧
    vectorSize packetPayload.length ≤ vectorMax

instance (packetPayload : Str) : Decidable (Sendable packetPayload) :=
  inferInstanceAs (Decidable (_ ∧ _))

theorem fill_of_size {s : Str} (h : vectorSize s.length ≤ vectorMax) :
    ∃ f, fill s = some f ∧ f.pmtPayload.length = vectorSize s.length ∧
      (f.ok = true ↔ substr s 0 2 = ['0', 'x']) := by
  refine ⟨_, if_pos h, ?_, ?_⟩
  · rw [(decodeLoop_keeps _ _).1, List.length_replicate]
  · rw [(decodeLoop_keeps _ _).2]
    cases s with
    | nil => exact absurd h (by decide)
    | cons x s => simp

/-- What gets behind the loop is what the loop has written. -/
theorem fill_of_decode {s : Str} {f : Filling} (h : decode s = some f) : fill s = some f :=
  (Option.filter_eq_some_iff.mp h).1

theorem decode_sendable {s : Str} (h : Sendable s) :
    ∃ f, decode s = some f ∧ f.ok = true := by
  obtain ⟨hprefixed, hpos, hmax⟩ := h
  obtain ⟨f, hf, hlength, hok⟩ := fill_of_size hmax
  refine ⟨f, Option.filter_eq_some_iff.mpr ⟨hf, ?_⟩, hok.mpr hprefixed⟩
  have hroom : f.pmtPayload ≠ [] := by
    rw [← List.length_pos_iff, hlength]
    exact hpos
  simp [Filling.survives, hroom]

/-- A payload without the prefix writes nothing. -/
theorem decode_unprefixed {s : Str} (hother : substr s 0 2 ≠ ['0', 'x'])
    (hmax : vectorSize s.length ≤ vectorMax) :
    ∃ f, decode s = some f ∧ f.ok = false ∧ f.outOfRange = [] := by
  obtain ⟨f, hf, _, hok⟩ := fill_of_size hmax
  have hnone : f.outOfRange = [] := by
    have hloop : some _ = some f := (if_pos hmax).symm.trans hf
    rw [← Option.some.inj hloop, decodeLoop_unprefixed _ hother]
  refine ⟨f, Option.filter_eq_some_iff.mpr ⟨hf, ?_⟩, ?_, hnone⟩
  · simp [Filling.survives, hnone]
  · rw [← Bool.not_eq_true]
    exact fun htrue => hother (hok.mp htrue)

/-- One with the prefix writes, and ends the process if the vector is empty. -/
theorem decode_empty {s : Str} (hprefixed : substr s 0 2 = ['0', 'x'])
    (hempty : vectorSize s.length = 0) : decode s = none := by
  have hmax : vectorSize s.length ≤ vectorMax := by
    rw [hempty]
    exact Nat.zero_le _
  obtain ⟨f, hf, hlength, _⟩ := fill_of_size hmax
  have hvector : f.pmtPayload = [] := List.length_eq_zero_iff.mp (hlength.trans hempty)
  have hpast : f.outOfRange ≠ [] := by
    have hloop : some _ = some f := (if_pos hmax).symm.trans hf
    rw [← Option.some.inj hloop]
    refine decodeLoop_prefixed hprefixed ?_
    rw [vectorSize] at hempty ⊢
    omega
  rw [decode, hf, Option.filter_some_neg]
  simp [Filling.survives, hvector, hpast]

/-- All that the block can do. -/
theorem publish_cases (v : RecordVars) :
    (v.complete = false ∧ publish v = some ([], v)) ∨
    (v.complete = true ∧ ¬ Sendable v.packetPayload ∧
      (publish v = none ∨ publish v = some ([], .reset))) ∨
    (v.complete = true ∧ Sendable v.packetPayload ∧ ∃ f, decode v.packetPayload = some f ∧
      publish v =
        some ([⟨v.timestamp, v.spacecraftId, v.radioId, f.pmtPayload⟩], .reset)) := by
  rw [publish]
  cases hc : v.complete with
  | false => exact .inl ⟨rfl, rfl⟩
  | true =>
      refine .inr ?_
      rw [if_pos rfl]
      by_cases hsend : Sendable v.packetPayload
      · obtain ⟨f, hf, hok⟩ := decode_sendable hsend
        refine .inr ⟨rfl, hsend, f, hf, ?_⟩
        rw [hf, Option.map_some, if_pos hok]
      · refine .inl ⟨rfl, hsend, ?_⟩
        by_cases hmax : vectorSize v.packetPayload.length ≤ vectorMax
        · by_cases hprefixed : substr v.packetPayload 0 2 = ['0', 'x']
          · have hempty : vectorSize v.packetPayload.length = 0 := by
              by_contra hne
              exact hsend ⟨hprefixed, Nat.pos_of_ne_zero hne, hmax⟩
            exact .inl (by rw [decode_empty hprefixed hempty, Option.map_none])
          · obtain ⟨f, hf, hok, _⟩ := decode_unprefixed hprefixed hmax
            refine .inr ?_
            rw [hf, Option.map_some, hok, if_neg Bool.false_ne_true]
        · refine .inl ?_
          rw [decode, fill, if_neg hmax, Option.filter_none, Option.map_none]

/-- The block resets complete variables, sent or not. -/
theorem publish_vars {v v' : RecordVars} {pdus : List Pdu} (h : publish v = some (pdus, v')) :
    v' = if v.complete then .reset else v := by
  rw [publish] at h
  cases hc : v.complete with
  | false =>
      rw [hc] at h
      cases h
      rfl
  | true =>
      rw [hc, if_pos rfl] at h
      obtain ⟨f, _, hf⟩ := Option.map_eq_some_iff.mp h
      cases hf
      rfl

theorem publish_incomplete {v v' : RecordVars} {pdus : List Pdu}
    (h : publish v = some (pdus, v')) : v'.complete = false := by
  rw [publish_vars h]
  cases hc : v.complete with
  | false => exact hc
  | true => rfl

end HttpSource

end GsSDR
