import Mathlib.Data.List.Basic

/-!
# Replacing all matches in a text

A text is scanned from the left.  Where a pattern matches, the match is
replaced and the scan goes on behind it, otherwise one character is kept.  So
all leftmost matches that do not overlap are replaced, and what has been put in
is not scanned again.

The rules follow the scan: a match (`replaceAll_match`), a character at which
nothing matches (`replaceAll_cons`) and a stretch of such characters
(`replaceAll_append`).
-/

namespace Rewrite

variable {α : Type*}

/-- A pattern, asked at the front of a text, gives what to put in for a match and
the length of the match. -/
abbrev Pattern (α : Type*) := List α → Option (List α × Nat)

/-- The scan, with this many characters of a match still to skip. -/
def scan (p : Pattern α) : Nat → List α → List α
  | _, [] => []
  | n + 1, _ :: cs => scan p n cs
  | 0, c :: cs =>
      match p (c :: cs) with
      | none => c :: scan p 0 cs
      | some r => r.1 ++ scan p (r.2 - 1) cs

/-- Replace all matches. -/
def replaceAll (p : Pattern α) (text : List α) : List α := scan p 0 text

variable {p : Pattern α}

theorem scan_skip (a rest : List α) : scan p a.length (a ++ rest) = replaceAll p rest := by
  induction a with
  | nil => rfl
  | cons c a ih => exact ih

@[simp]
theorem replaceAll_nil : replaceAll p [] = [] := rfl

theorem replaceAll_match {c : α} {m rest r : List α}
    (h : p (c :: m ++ rest) = some (r, m.length + 1)) :
    replaceAll p (c :: m ++ rest) = r ++ replaceAll p rest := by
  rw [← scan_skip m rest]
  rw [List.cons_append] at h ⊢
  rw [replaceAll, scan, h]
  rfl

theorem replaceAll_cons {c : α} {rest : List α} (h : p (c :: rest) = none) :
    replaceAll p (c :: rest) = c :: replaceAll p rest := by
  rw [replaceAll, scan, h]
  rfl

/-- Characters at which no match starts, whatever follows. -/
theorem replaceAll_append {a : List α} (h : ∀ c ∈ a, ∀ cs, p (c :: cs) = none) (rest : List α) :
    replaceAll p (a ++ rest) = a ++ replaceAll p rest := by
  induction a with
  | nil => rfl
  | cons c a ih =>
      rw [List.cons_append, replaceAll_cons (h c List.mem_cons_self _),
        ih fun x hx => h x (List.mem_cons_of_mem _ hx)]
      rfl

/-- The pattern of one fixed word, to be removed. -/
def removed [BEq α] (word : List α) : Pattern α := fun text =>
  if word.isPrefixOf text then some ([], word.length) else none

end Rewrite
