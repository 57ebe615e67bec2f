import GsSDR.HttpSource.Poll
import Mathlib.Data.List.TakeWhile

/-!
# What the record variables hold

The double loop assigns each variable from the properties of one name, so a
variable holds the last value read for it, or what it held before.  `valuesOf`
says this without the loops, and `tryBlock_vars` ties it to them.
-/

namespace GsSDR

namespace HttpSource

open Cxx

variable {β : Type*}

/-- The last value among the properties named `key`, or `old`. -/
def assigned (key : Str) (conv : Str → Option β) (old : β) (ps : List Property) : β :=
  ps.foldl (fun x p => if p.1 = key then (conv p.2).getD x else x) old

theorem assigned_cons (key : Str) (conv : Str → Option β) (old : β) (p : Property)
    (ps : List Property) :
    assigned key conv old (p :: ps) =
      assigned key conv (if p.1 = key then (conv p.2).getD old else old) ps := rfl

theorem assigned_append (key : Str) (conv : Str → Option β) (old : β) (ps qs : List Property) :
    assigned key conv old (ps ++ qs) = assigned key conv (assigned key conv old ps) qs :=
  List.foldl_append ..

/-- Properties of other names change nothing. -/
theorem assigned_filter (key : Str) (conv : Str → Option β) (old : β) (ps : List Property) :
    assigned key conv old ps = assigned key conv old (ps.filter fun p => p.1 == key) := by
  induction ps generalizing old with
  | nil => rfl
  | cons p ps ih =>
      rw [assigned_cons, ih]
      by_cases hkey : p.1 = key
      · rw [List.filter_cons_of_pos (by simp [hkey]), assigned_cons]
      · rw [List.filter_cons_of_neg (by simp [hkey]), if_neg hkey]

/-- A variable whose name does not occur keeps its value. -/
theorem assigned_absent {key : Str} {conv : Str → Option β} {old : β} {ps : List Property}
    (h : ∀ p ∈ ps, p.1 ≠ key) : assigned key conv old ps = old := by
  have hnone : (ps.filter fun p => p.1 == key) = [] := by
    rw [List.filter_eq_nil_iff]
    intro p hp
    simpa using h p hp
  rw [assigned_filter, hnone]
  rfl

/-- A variable whose name occurs does not depend on what it held before. -/
theorem assigned_present {key : Str} {conv : Str → Option β} {ps : List Property}
    (hconv : ∀ p ∈ ps, p.1 = key → (conv p.2).isSome) (h : ∃ p ∈ ps, p.1 = key) (old old' : β) :
    assigned key conv old ps = assigned key conv old' ps := by
  induction ps generalizing old old' with
  | nil => simp at h
  | cons p ps ih =>
      rw [assigned_cons, assigned_cons]
      by_cases hkey : p.1 = key
      · obtain ⟨x, hx⟩ := Option.isSome_iff_exists.mp (hconv p (List.mem_cons_self ..) hkey)
        rw [if_pos hkey, if_pos hkey, hx]
        rfl
      · rw [if_neg hkey, if_neg hkey]
        refine ih (fun q hq => hconv q (List.mem_cons_of_mem _ hq)) ?_ old old'
        obtain ⟨q, hq, hqkey⟩ := h
        rcases List.mem_cons.mp hq with rfl | hq
        · exact absurd hqkey hkey
        · exact ⟨q, hq, hqkey⟩

variable (tree : PropertyTree)

/-- The variables after these properties, all of which convert. -/
def valuesOf (v : RecordVars) (ps : List Property) : RecordVars where
  packetType := assigned typeKey some v.packetType ps
  packetPayload := assigned payloadKey some v.packetPayload ps
  timestamp := assigned timestampKey tree.getInt64 v.timestamp ps
  spacecraftId := assigned spacecraftIdKey tree.getInt v.spacecraftId ps
  radioId := assigned radioIdKey tree.getInt v.radioId ps

theorem valuesOf_nil (v : RecordVars) : valuesOf tree v [] = v := rfl

theorem valuesOf_append (v : RecordVars) (ps qs : List Property) :
    valuesOf tree v (ps ++ qs) = valuesOf tree (valuesOf tree v ps) qs := by
  simp only [valuesOf, assigned_append]

/-- The names differ. -/
theorem keys_ne :
    (typeKey ≠ timestampKey ∧ typeKey ≠ payloadKey ∧ typeKey ≠ spacecraftIdKey ∧
      typeKey ≠ radioIdKey) ∧
    (timestampKey ≠ payloadKey ∧ timestampKey ≠ spacecraftIdKey ∧ timestampKey ≠ radioIdKey) ∧
    (payloadKey ≠ spacecraftIdKey ∧ payloadKey ≠ radioIdKey) ∧
    spacecraftIdKey ≠ radioIdKey := by decide

/-- One property that converts. -/
theorem assignProperty_some {v : RecordVars} {p : Property} (h : converts tree p = true) :
    assignProperty tree v p = some (valuesOf tree v [p]) := by
  have hkeys := keys_ne
  obtain ⟨k, d⟩ := p
  simp only [converts] at h
  simp only [assignProperty, valuesOf, assigned, List.foldl_cons, List.foldl_nil]
  split
  next hk => subst hk; simp [hkeys]
  next hk1 =>
    split
    next hk =>
      subst hk
      rw [if_pos rfl] at h
      obtain ⟨t, ht⟩ := Option.isSome_iff_exists.mp h
      simp [ht, hkeys]
    next hk2 =>
      rw [if_neg hk2] at h
      split
      next hk => subst hk; simp [hkeys]
      next hk3 =>
        split
        next hk =>
          subst hk
          rw [if_pos (.inl rfl)] at h
          obtain ⟨n, hn⟩ := Option.isSome_iff_exists.mp h
          simp [hn, hkeys]
        next hk4 =>
          split
          next hk =>
            subst hk
            rw [if_pos (.inr rfl)] at h
            obtain ⟨n, hn⟩ := Option.isSome_iff_exists.mp h
            simp [hn]
          next => rfl

/-- A property that does not convert. -/
theorem assignProperty_none {v : RecordVars} {p : Property} (h : converts tree p = false) :
    assignProperty tree v p = none := by
  have hkeys := keys_ne
  obtain ⟨k, d⟩ := p
  simp only [converts] at h
  simp only [assignProperty]
  split at h
  next hk =>
    subst hk
    simpa [Ne.symm hkeys.1.1] using h
  next hk2 =>
    split at h
    next hk =>
      rcases hk with rfl | rfl
      · simpa [hk2, Ne.symm hkeys.1.2.2.1, Ne.symm hkeys.2.2.1.1] using h
      · simpa [hk2, Ne.symm hkeys.1.2.2.2, Ne.symm hkeys.2.2.1.2, Ne.symm hkeys.2.2.2] using h
    next => cases h

/-- The inner loop assigns the properties up to the first that does not
convert. -/
theorem assignProperties_eq (v : RecordVars) (ps : List Property) :
    assignProperties tree v ps =
      (valuesOf tree v (ps.takeWhile (converts tree)), ps.all (converts tree)) := by
  induction ps generalizing v with
  | nil => rfl
  | cons p ps ih =>
      cases hp : converts tree p with
      | true =>
          rw [assignProperties, assignProperty_some tree hp]
          show assignProperties tree (valuesOf tree v [p]) ps = _
          rw [ih, List.takeWhile_cons_of_pos hp, ← valuesOf_append, List.singleton_append,
            List.all_cons, hp, Bool.true_and]
      | false =>
          rw [assignProperties, assignProperty_none tree hp,
            List.takeWhile_cons_of_neg (by simp [hp]), valuesOf_nil]
          simp [hp]

/-- The properties of records as far as they were read. -/
def propertiesOf (rs : List ReadRecord) : List Property := rs.flatMap ReadRecord.properties

theorem assignRecords_eq (v : RecordVars) (rs : List Record) :
    assignRecords tree v rs =
      (valuesOf tree v (propertiesOf (readRecords tree rs)),
        (readRecords tree rs).all ReadRecord.whole) := by
  induction rs generalizing v with
  | nil => rfl
  | cons r rs ih =>
      rw [assignRecords, assignProperties_eq, readRecords]
      cases hr : r.all (converts tree) with
      | true =>
          have htake : r.takeWhile (converts tree) = r :=
            List.takeWhile_eq_self_iff.mpr (List.all_eq_true.mp hr)
          simp only [htake, if_true, ih, propertiesOf, List.flatMap_cons, valuesOf_append,
            List.all_cons, Bool.true_and]
      | false => simp [propertiesOf]

/-- The variables behind the `try` block hold the last values read, and else
what they held before. -/
theorem tryBlock_vars (w : Worker) (poll : Poll) :
    (tryBlock tree w poll).1 =
      valuesOf tree w.vars (propertiesOf ((answer tree w poll).read tree)) := by
  rw [tryBlock]
  cases answer tree w poll with
  | threw => rfl
  | noPacket => rfl
  | packets records =>
      simp only [Answer.read, assignRecords_eq]
      cases (readRecords tree records).all ReadRecord.whole <;> rfl

end HttpSource

end GsSDR
