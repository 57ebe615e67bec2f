import GsSDR.HttpSource.Fields

/-!
# What every iteration starts from

At the top of the loop the variables hold the last values read since they were
last reset, and never a complete telecommand, because the publish block resets
a complete one in the iteration that completes it.
-/

namespace GsSDR

namespace HttpSource

open Cxx

variable {tree : PropertyTree} {connected : Bool} {h : List (State × Poll)} {s t : State}
  {poll : Poll} {w : Worker}

/-! ## One iteration -/

theorem iteration_acks (w : Worker) (poll : Poll) :
    (iteration tree w poll).acks = (tryBlock tree w poll).2.1 := by
  simp only [iteration]
  cases publish (tryBlock tree w poll).1 <;> rfl

theorem iteration_published (w : Worker) (poll : Poll) :
    (iteration tree w poll).published =
      ((publish (tryBlock tree w poll).1).map Prod.fst).getD [] := by
  simp only [iteration]
  cases publish (tryBlock tree w poll).1 <;> rfl

theorem iteration_next {w' : Worker} (hnext : (iteration tree w poll).next = some w') :
    ∃ pdus, publish (tryBlock tree w poll).1 = some (pdus, w'.vars) := by
  simp only [iteration] at hnext
  cases hp : publish (tryBlock tree w poll).1 with
  | none =>
      rw [hp] at hnext
      cases hnext
  | some r =>
      rw [hp] at hnext
      cases hnext
      exact ⟨r.1, rfl⟩

/-- Behind the loops every property that was read has been converted. -/
theorem readRecords_converts {rs : List Record} {r : ReadRecord} (hr : r ∈ readRecords tree rs) :
    ∀ p ∈ r.properties, converts tree p = true := by
  induction rs with
  | nil => cases hr
  | cons x rs ih =>
      rw [readRecords] at hr
      split at hr
      next hall =>
        rcases List.mem_cons.mp hr with rfl | hr
        · exact List.all_eq_true.mp hall
        · exact ih hr
      next =>
        intro p hp
        rw [List.mem_singleton.mp hr] at hp
        exact List.mem_takeWhile_imp hp

theorem Answer.read_converts {a : Answer} {r : ReadRecord} (hr : r ∈ a.read tree) :
    ∀ p ∈ r.properties, converts tree p = true := by
  cases a with
  | threw => cases hr
  | noPacket => cases hr
  | packets records => exact readRecords_converts hr

/-! ## The invariant -/

/-- What holds at the top of the loop. -/
structure Consistent (tree : PropertyTree) (s : State) : Prop where
  /-- The variables hold the last values read since the reset. -/
  vars : ∀ w, s.worker = some w → w.vars = valuesOf tree .reset (propertiesOf s.window)
  incomplete : ∀ w, s.worker = some w → w.vars.complete = false
  window_received : ∀ r ∈ s.window, r ∈ s.received
  window_converts : ∀ r ∈ s.window, ∀ p ∈ r.properties, converts tree p = true

/-- The records that the values in force behind the `try` block are made of. -/
def State.sources (tree : PropertyTree) (s : State) (w : Worker) (poll : Poll) :
    List ReadRecord :=
  s.window ++ (answer tree w poll).read tree

theorem propertiesOf_append (rs qs : List ReadRecord) :
    propertiesOf (rs ++ qs) = propertiesOf rs ++ propertiesOf qs :=
  List.flatMap_append

/-- The values in force, from what was received. -/
theorem Consistent.inForce (hs : Consistent tree s) (hw : s.worker = some w) (poll : Poll) :
    (tryBlock tree w poll).1 =
      valuesOf tree .reset (propertiesOf (s.sources tree w poll)) := by
  rw [tryBlock_vars, hs.vars w hw, ← valuesOf_append, State.sources, propertiesOf_append]

theorem step_eq_some (hstep : step tree s poll = some t) :
    ∃ w, s.worker = some w ∧
      t.worker = (iteration tree w poll).next ∧
      t.acks = s.acks ++ (iteration tree w poll).acks ∧
      t.published = s.published ++ (iteration tree w poll).published ∧
      t.received = s.received ++ (answer tree w poll).read tree ∧
      t.window =
        if (tryBlock tree w poll).1.complete then [] else s.sources tree w poll := by
  obtain ⟨w, hw, rfl⟩ := Option.map_eq_some_iff.mp hstep
  exact ⟨w, hw, rfl, rfl, rfl, rfl, rfl⟩

theorem Consistent.initial : Consistent tree (initial connected) where
  vars := by
    intro w hw
    cases hw
    rfl
  incomplete := by
    intro w hw
    cases hw
    rfl
  window_received := by simp [HttpSource.initial]
  window_converts := by simp [HttpSource.initial]

theorem Consistent.step (hs : Consistent tree s) (hstep : step tree s poll = some t) :
    Consistent tree t := by
  obtain ⟨w, hw, hworker, _, _, hreceived, hwindow⟩ := step_eq_some hstep
  have hforce := hs.inForce hw poll
  constructor
  · intro w' hw'
    obtain ⟨pdus, hpub⟩ := iteration_next (hworker.symm.trans hw')
    rw [publish_vars hpub, hwindow, hforce]
    split
    next => rfl
    next => rfl
  · intro w' hw'
    obtain ⟨pdus, hpub⟩ := iteration_next (hworker.symm.trans hw')
    exact publish_incomplete hpub
  · intro r hr
    rw [hwindow] at hr
    split at hr
    next => cases hr
    next =>
      rw [hreceived]
      rcases List.mem_append.mp hr with hr | hr
      · exact List.mem_append_left _ (hs.window_received r hr)
      · exact List.mem_append_right _ hr
  · intro r hr
    rw [hwindow] at hr
    split at hr
    next => cases hr
    next =>
      rcases List.mem_append.mp hr with hr | hr
      · exact hs.window_converts r hr
      · exact Answer.read_converts hr

theorem Run.consistent (run : Run tree connected h s) : Consistent tree s :=
  Transition.Run.invariant .initial Consistent.step run

end HttpSource

end GsSDR
