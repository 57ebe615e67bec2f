import Mathlib.Data.List.Basic
import Mathlib.Data.List.Forall2

/-!
# Bursts in a stream

A stream carries bursts of items in order.  Where gaps are allowed, fill items
may stand before, between and behind the bursts, never inside one.  Each burst
is marked by its place in the stream and its length.

Without gaps the stream is the bursts, and the marks are the sums of the
lengths before (`Laid.eq_flatten`).  So a reader who knows the marks cuts what it
has of the stream into the first bursts (`cut_marksFrom`).
-/

namespace Bursts

variable {α : Type*}

/-- `Laid fill gaps bursts marks stream`: the stream is the bursts with their
marks, with fill items between them if there are gaps. -/
inductive Laid (fill : α) (gaps : Prop) :
    List (List α) → List (Nat × Nat) → List α → Prop where
  | nil : Laid fill gaps [] [] []
  | gap {bs : List (List α)} {marks : List (Nat × Nat)} {out : List α} :
      gaps → Laid fill gaps bs marks out → Laid fill gaps bs marks (out ++ [fill])
  | burst {bs : List (List α)} {marks : List (Nat × Nat)} {out : List α} (b : List α) :
      Laid fill gaps bs marks out →
      Laid fill gaps (bs ++ [b]) (marks ++ [(out.length, b.length)]) (out ++ b)

/-- The marks of bursts without gaps, from a place on. -/
def marksFrom : Nat → List (List α) → List (Nat × Nat)
  | _, [] => []
  | start, b :: bs => (start, b.length) :: marksFrom (start + b.length) bs

variable {fill : α} {gaps : Prop} {bs : List (List α)} {marks : List (Nat × Nat)} {out : List α}

theorem Laid.gap_replicate (hgaps : gaps) (h : Laid fill gaps bs marks out) (n : Nat) :
    Laid fill gaps bs marks (out ++ List.replicate n fill) := by
  induction n with
  | zero => simpa using h
  | succ n ih =>
      rw [List.replicate_succ', ← List.append_assoc]
      exact .gap hgaps ih

theorem marksFrom_concat (start : Nat) (bs : List (List α)) (b : List α) :
    marksFrom start (bs ++ [b]) =
      marksFrom start bs ++ [(start + bs.flatten.length, b.length)] := by
  induction bs generalizing start with
  | nil => rfl
  | cons c bs ih =>
      rw [List.cons_append, marksFrom, ih, marksFrom, List.flatten_cons, List.length_append,
        Nat.add_assoc]
      rfl

theorem Laid.eq_flatten (hgaps : ¬ gaps) (h : Laid fill gaps bs marks out) :
    out = bs.flatten ∧ marks = marksFrom 0 bs := by
  induction h with
  | nil => exact ⟨rfl, rfl⟩
  | gap hg _ _ => exact absurd hg hgaps
  | burst b _ ih =>
      obtain ⟨hout, hmarks⟩ := ih
      constructor
      · rw [hout, List.flatten_append, List.flatten_singleton]
      · rw [marksFrom_concat, hmarks, hout, Nat.zero_add]

/-! ## Reading a stream -/

variable {β : Type*}

/-- The bursts that are complete in what has come of a stream. -/
def cut (marks : List (Nat × Nat)) (xs : List α) : List (List α) :=
  (marks.filter fun mark => mark.1 + mark.2 ≤ xs.length).map fun mark =>
    (xs.drop mark.1).take mark.2

theorem le_of_mem_marksFrom {start : Nat} {mark : Nat × Nat} (h : mark ∈ marksFrom start bs) :
    start ≤ mark.1 := by
  induction bs generalizing start with
  | nil => cases h
  | cons b bs ih =>
      rcases List.mem_cons.mp h with rfl | h
      · exact Nat.le_refl _
      · exact Nat.le_trans (Nat.le_add_right _ _) (ih h)

/-- Behind an incomplete burst all are incomplete. -/
theorem cut_eq_nil {bs : List (List β)} {start : Nat} {xs : List α} (h : xs.length < start) :
    cut (marksFrom start bs) xs = [] := by
  rw [cut, List.map_eq_nil_iff, List.filter_eq_nil_iff]
  intro mark hmark
  have hle := le_of_mem_marksFrom hmark
  rw [decide_eq_true_eq]
  omega

/-- Of a stream that has come with errors, the complete bursts are the first ones, with
these errors. -/
theorem cut_marksFrom {R : α → β → Prop} {xs : List α} {out : List β} (bs : List (List β))
    (h : List.Forall₂ R xs out) :
    ∀ pre, out <+: pre ++ bs.flatten →
      ∃ k ≤ bs.length, List.Forall₂ (List.Forall₂ R) (cut (marksFrom pre.length bs) xs)
        (bs.take k) := by
  induction bs with
  | nil =>
      intro pre _
      exact ⟨0, Nat.le_refl 0, .nil⟩
  | cons b bs ih =>
      intro pre hout
      rw [List.flatten_cons, ← List.append_assoc] at hout
      obtain ⟨k, hk, hcut⟩ := ih (pre ++ b) hout
      rw [List.length_append] at hcut
      by_cases hcomplete : pre.length + b.length ≤ xs.length
      · -- the burst itself, in what has come
        have hlength : (pre ++ b).length ≤ out.length := by
          rw [List.length_append, ← h.length_eq]
          exact hcomplete
        obtain ⟨rest, hrest⟩ :=
          List.prefix_of_prefix_length_le (List.prefix_append _ _) hout hlength
        have hburst : List.Forall₂ R ((xs.drop pre.length).take b.length) b := by
          rw [← hrest, List.append_assoc] at h
          have hdrop := List.forall₂_drop_append _ _ _ h
          exact List.forall₂_take_append _ _ _ hdrop
        refine ⟨k + 1, Nat.succ_le_succ hk, ?_⟩
        rw [cut, marksFrom, List.filter_cons_of_pos (by simpa using hcomplete), List.map_cons]
        exact .cons hburst hcut
      · have hnil : cut (marksFrom (pre.length + b.length) bs) xs = [] :=
          cut_eq_nil (Nat.lt_of_not_le hcomplete)
        refine ⟨0, Nat.zero_le _, ?_⟩
        rw [cut, marksFrom, List.filter_cons_of_neg (by simpa using hcomplete), ← cut, hnil]
        exact .nil

/-- The bursts that have come as a whole are complete. -/
theorem le_length_cut (xs : List α) (bs : List (List β)) :
    ∀ n start, n ≤ bs.length → start + (bs.take n).flatten.length ≤ xs.length →
      n ≤ (cut (marksFrom start bs) xs).length := by
  induction bs with
  | nil =>
      intro n start hn _
      exact Nat.le_trans hn (Nat.zero_le _)
  | cons b bs ih =>
      intro n start hn hlength
      cases n with
      | zero => exact Nat.zero_le _
      | succ n =>
          rw [List.take_succ_cons, List.flatten_cons, List.length_append] at hlength
          have hrest := ih n (start + b.length) (Nat.le_of_succ_le_succ hn) (by omega)
          rw [cut, marksFrom, List.filter_cons_of_pos (by simp; omega), List.map_cons,
            List.length_cons, ← cut]
          exact Nat.succ_le_succ hrest

end Bursts
