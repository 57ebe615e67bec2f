import Mathlib.Data.List.Basic

/-!
# Outputs of a machine that reads a list

A machine goes from state to state (`next`) and may say something at each input
(`output`).  The state it is in behind a list of inputs is the fold of `next`.

`outputs_simulation` is the rule to show that two machines say the same.
`foldl_latest` is for machines that remember the last value they were given.
-/

namespace Mealy

variable {σ τ ι κ α β : Type*}

/-- What is said on the way through a list. -/
def outputs (next : σ → ι → σ) (output : σ → ι → Option α) : σ → List ι → List α
  | _, [] => []
  | s, x :: xs => (output s x).toList ++ outputs next output (next s x) xs

variable {next : σ → ι → σ} {output : σ → ι → Option α}

/-- One more input. -/
theorem outputs_concat (s : σ) (xs : List ι) (x : ι) :
    outputs next output s (xs ++ [x]) =
      outputs next output s xs ++ (output (xs.foldl next s) x).toList := by
  induction xs generalizing s with
  | nil => simp [outputs]
  | cons y xs ih => simp [outputs, ih]

/-- A machine whose answers do not depend on its state. -/
theorem outputs_some (f : ι → α) (s : σ) (xs : List ι) :
    outputs next (fun _ x => some (f x)) s xs = xs.map f := by
  induction xs generalizing s with
  | nil => rfl
  | cons x xs ih => simp [outputs, ih]

/-- Two machines whose states stay in a relation under corresponding inputs, and
which say the same there, have the same outputs. -/
theorem outputs_simulation {next' : τ → κ → τ} {output' : τ → κ → Option β} {R : σ → τ → Prop}
    {f : κ → ι} {g : α → β} {xs : List κ}
    (sim : ∀ s t, R s t → ∀ x ∈ xs,
      R (next s (f x)) (next' t x) ∧ (output s (f x)).map g = output' t x)
    {s : σ} {t : τ} (hR : R s t) :
    (outputs next output s (xs.map f)).map g = outputs next' output' t xs ∧
      R ((xs.map f).foldl next s) (xs.foldl next' t) := by
  induction xs generalizing s t with
  | nil => exact ⟨rfl, hR⟩
  | cons x xs ih =>
      obtain ⟨hnext, hout⟩ := sim s t hR x List.mem_cons_self
      obtain ⟨houtputs, hend⟩ :=
        ih (fun s t hR x hx => sim s t hR x (List.mem_cons_of_mem _ hx)) hnext
      refine ⟨?_, hend⟩
      rw [List.map_cons, outputs, outputs, List.map_append, houtputs, ← hout, Option.toList_map]

/-- A machine that takes over each value it is given has the last one. -/
theorem foldl_latest (f : ι → Option σ) (s : σ) (xs : List ι) :
    xs.foldl (fun s x => (f x).getD s) s = (xs.filterMap f).getLastD s := by
  induction xs generalizing s with
  | nil => rfl
  | cons x xs ih =>
      rw [List.foldl_cons, ih]
      cases hx : f x with
      | none => rw [List.filterMap_cons_none hx]; rfl
      | some y => rw [List.filterMap_cons_some hx, List.getLastD_cons]; rfl

end Mealy
