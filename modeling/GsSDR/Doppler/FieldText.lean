import GsSDR.Doppler.Session
import GsSDR.Lib.LexicalCast
import Mathlib.Data.List.DropRight
import Mathlib.Data.List.TakeWhile

/-!
# The fields of a command line

A command line is a letter, then the texts of its fields, and a newline.  This
file says which text of a line `handle_read` converts (`rxField_line`,
`txField_line`), and what is left of a number when a GSJD field loses its
leading zeros (`cast_stripZeros`).
-/

namespace GsSDR

namespace Doppler

open Cxx

/-- What is left of a GSJD field. -/
def stripZeros (text : Str) : Str := trim (text.dropWhile fun c => c = '0')

/-- The text of the RX field of a line, which is given without its newline. -/
def rxText (sourceType : SourceType) (body : Str) : Option Str :=
  match sourceType with
  | .gpredict => if startsWith ['F'] body then some (body.drop 1) else none
  | .gsjd =>
      if startsWith ['f'] body then some ((body.drop 1).takeWhile fun c => c ≠ 'F') else none

/-- The text of its TX field. -/
def txText (sourceType : SourceType) (body : Str) : Option Str :=
  match sourceType with
  | .gpredict => none
  | .gsjd =>
      if startsWith ['f'] body then
        if contains ['F'] body then some ((body.dropWhile fun c => c ≠ 'F').drop 1) else none
      else if startsWith ['F'] body then some (body.drop 1)
      else none

variable {lexicalCast : Str → Option Int} {text : Str}

/-! ## Blanks and zeros -/

theorem trim_eq (s : Str) : trim s = (s.dropWhile isspace).rdropWhile isspace := rfl

/-- A newline at the end is trimmed. -/
theorem trim_newline (s : Str) : trim (s ++ ['\n']) = trim s := by
  rw [trim_eq, trim_eq, List.dropWhile_append]
  split
  next hblank =>
    rw [List.isEmpty_iff.mp hblank]
    rfl
  next => exact List.rdropWhile_concat_pos _ _ _ rfl

/-- Where the front is no blank, only the end is trimmed. -/
theorem trim_cons {c : Char} {s : Str} (hc : isspace c = false) :
    trim (c :: s) = (c :: s).rdropWhile isspace := by
  rw [trim_eq, List.dropWhile_cons_of_neg (by rw [hc]; exact Bool.false_ne_true)]

/-- The front that is no blank stays. -/
theorem rdropWhile_cons {c : Char} (s : Str) (hc : isspace c = false) :
    (c :: s).rdropWhile isspace = c :: s.rdropWhile isspace := by
  rw [List.rdropWhile, List.reverse_cons, List.dropWhile_append]
  split
  next hblank =>
    rw [List.rdropWhile, List.isEmpty_iff.mp hblank,
      List.dropWhile_cons_of_neg (by rw [hc]; exact Bool.false_ne_true)]
    rfl
  next => rw [List.reverse_append, List.rdropWhile]; rfl

theorem isspace_of_isDigit {c : Char} (hc : c.isDigit = true) : isspace c = false := by
  simp only [Char.isDigit, ge_iff_le, Bool.and_eq_true, decide_eq_true_eq] at hc
  simp only [isspace, Bool.or_eq_false_iff, beq_eq_false_iff_ne, Bool.and_eq_false_iff,
    decide_eq_false_iff_not]
  refine ⟨?_, .inr ?_⟩
  · rintro rfl
    exact absurd hc.1 (by decide)
  · intro hle
    exact absurd (UInt32.le_trans hc.1 hle) (by decide)

/-- Digits are not trimmed. -/
theorem trim_digits {s : Str} (hs : ∀ c ∈ s, c.isDigit = true) : trim s = s := by
  cases s with
  | nil => rfl
  | cons c s =>
      rw [trim_cons (isspace_of_isDigit (hs c List.mem_cons_self)), List.rdropWhile_eq_self_iff]
      intro hne
      rw [isspace_of_isDigit (hs _ (List.getLast_mem hne))]
      exact Bool.false_ne_true

theorem stripZeros_zero (s : Str) : stripZeros ('0' :: s) = stripZeros s := rfl

theorem stripZeros_of_ne {c : Char} {s : Str} (hc : c ≠ '0') :
    stripZeros (c :: s) = trim (c :: s) := by
  rw [stripZeros, List.dropWhile_cons_of_neg (by simpa using hc)]

theorem stripZeros_newline (s : Str) : stripZeros (s ++ ['\n']) = stripZeros s := by
  induction s with
  | nil => rfl
  | cons c s ih =>
      by_cases hc : c = '0'
      · subst hc
        exact ih
      · rw [List.cons_append, stripZeros_of_ne hc, stripZeros_of_ne hc, ← List.cons_append,
          trim_newline]

theorem stripZeros_blank {s : Str} (hs : ∀ c ∈ s, isspace c = true) : stripZeros s = [] := by
  have htrim : trim s = [] := by
    rw [trim_eq, List.dropWhile_eq_nil_iff.mpr hs]
    rfl
  cases s with
  | nil => rfl
  | cons c s =>
      rw [stripZeros_of_ne, htrim]
      rintro rfl
      cases hs '0' List.mem_cons_self

/-- Without its leading zeros a number is what it was, or it was 0 and nothing
is left. -/
theorem cast_stripZeros (hcast : IsIntCast lexicalCast) {n : Int}
    (h : lexicalCast (trim text) = some n) :
    (stripZeros text = [] ∧ n = 0) ∨ lexicalCast (stripZeros text) = some n := by
  induction text with
  | nil =>
      rw [show trim [] = [] from rfl, hcast.nil] at h
      cases h
  | cons c s ih =>
      by_cases hc : c = '0'
      · subst hc
        rw [trim_cons rfl, rdropWhile_cons s rfl] at h
        rw [stripZeros_zero]
        cases hs : s.rdropWhile isspace with
        | nil =>
            rw [hs] at h
            exact .inl ⟨stripZeros_blank (List.rdropWhile_eq_nil_iff.mp hs), hcast.zero h⟩
        | cons d y =>
            rw [hs] at h
            obtain ⟨hd, hn⟩ := hcast.zero_cons h
            -- the text behind the zero begins with this digit, so it is trimmed as before
            obtain ⟨z, rfl⟩ : ∃ z, s = d :: z := by
              obtain ⟨rest, hrest⟩ := List.rdropWhile_prefix isspace (l := s)
              rw [hs] at hrest
              exact ⟨y ++ rest, hrest.symm⟩
            apply ih
            rw [trim_cons (isspace_of_isDigit hd), hs]
            exact hn
      · rw [stripZeros_of_ne hc]
        exact .inr h

/-- Zeros and a written number. -/
theorem stripZeros_toStr (k : Nat) {n : Int} (hn : 0 ≤ n) :
    stripZeros (List.replicate k '0' ++ toStr n) = if n = 0 then [] else toStr n := by
  induction k with
  | succ k ih =>
      rw [List.replicate_succ, List.cons_append, stripZeros_zero]
      exact ih
  | zero =>
      rw [List.replicate_zero, List.nil_append]
      split
      next hzero =>
        subst hzero
        rfl
      next hne =>
        rw [toStr_of_nonneg hn]
        obtain ⟨c, cs, hcs, hc⟩ := toDigits_cons n.toNat (by omega)
        rw [hcs, stripZeros_of_ne hc, ← hcs]
        exact trim_digits toDigits_isDigit

/-! ## Lines -/

theorem contains_singleton (x : Char) (s : Str) : contains [x] s = true ↔ x ∈ s := by
  induction s with
  | nil => simp [contains]
  | cons c s ih =>
      rw [contains, Bool.or_eq_true, ih, List.mem_cons, List.isPrefixOf_cons_cons,
        List.isPrefixOf_nil_left, Bool.and_true, beq_iff_eq]

/-- All characters of a text are other than one that is not in it. -/
theorem forall_ne {x : Char} {s : Str} (h : x ∉ s) : ∀ c ∈ s, decide (c ≠ x) = true := by
  intro c hc
  have hne : c ≠ x := by
    rintro rfl
    exact h hc
  simpa using hne

/-- The part in front of a letter and the part from it on. -/
theorem substr_idxOf {s : Str} (x : Char) :
    substr s 0 (s.idxOf x) = s.takeWhile (fun c => c ≠ x) ∧
      s.drop (s.idxOf x) = s.dropWhile (fun c => c ≠ x) := by
  have hindex : s.idxOf x = s.findIdx fun c => !decide (c ≠ x) := by
    rw [List.idxOf]
    congr 1
    funext c
    by_cases hc : c = x <;> simp [hc]
  rw [substr, List.drop_zero, hindex, ← List.takeWhile_eq_take_findIdx_not,
    ← List.dropWhile_eq_drop_findIdx_not]
  exact ⟨rfl, rfl⟩

/-- A text that follows a letter has no part in what is in front of it. -/
theorem takeWhile_ne_append {x : Char} {s : Str} (h : x ∈ s) (t : Str) :
    (s ++ t).takeWhile (fun c => c ≠ x) = s.takeWhile fun c => c ≠ x := by
  induction s with
  | nil => cases h
  | cons c s ih =>
      by_cases hc : c = x
      · simp [hc]
      · have hs := ih (List.mem_of_ne_of_mem (Ne.symm hc) h)
        rw [List.cons_append, List.takeWhile_cons, List.takeWhile_cons, hs]

/-- It follows what is from the letter on. -/
theorem dropWhile_ne_append {x : Char} {s : Str} (h : x ∈ s) (t : Str) :
    ∃ rest, s.dropWhile (fun c => c ≠ x) = x :: rest ∧
      (s ++ t).dropWhile (fun c => c ≠ x) = x :: (rest ++ t) := by
  induction s with
  | nil => cases h
  | cons c s ih =>
      by_cases hc : c = x
      · exact ⟨s, by simp [hc], by simp [hc]⟩
      · obtain ⟨rest, hs, hst⟩ := ih (List.mem_of_ne_of_mem (Ne.symm hc) h)
        have hkeep : decide (c ≠ x) = true := by simpa using hc
        refine ⟨rest, ?_, ?_⟩
        · rw [List.dropWhile_cons, if_pos hkeep, hs]
        · rw [List.cons_append, List.dropWhile_cons, if_pos hkeep, hst]

theorem startsWith_newline {x : Char} (hx : x ≠ '\n') (body : Str) :
    startsWith [x] (body ++ ['\n']) = startsWith [x] body := by
  cases body with
  | nil =>
      show ((x == '\n') && true) = false
      simpa using hx
  | cons c text => rfl

theorem contains_newline {x : Char} (hx : x ≠ '\n') (body : Str) :
    contains [x] (body ++ ['\n']) = contains [x] body := by
  rw [Bool.eq_iff_iff, contains_singleton, contains_singleton]
  simp [hx]

/-- A text that starts with a letter. -/
theorem cons_of_startsWith {x : Char} {s : Str} (h : startsWith [x] s = true) :
    ∃ text, s = x :: text := by
  cases s with
  | nil => cases h
  | cons c text =>
      rw [startsWith, List.isPrefixOf_cons_cons, List.isPrefixOf_nil_left, Bool.and_true,
        beq_iff_eq] at h
      exact ⟨text, by rw [h]⟩

theorem gpredictField_line {body : Str} (hbody : '\n' ∉ body) (hne : body ≠ []) :
    gpredictField (body ++ ['\n']) = trim (body.drop 1) := by
  cases body with
  | nil => exact absurd rfl hne
  | cons c text =>
      have hfilter : (text ++ ['\n']).filter (fun c => c ≠ '\n') = text := by
        have htext : '\n' ∉ text := fun h => hbody (List.mem_cons_of_mem _ h)
        rw [List.filter_append, List.filter_eq_self.mpr (forall_ne htext)]
        simp
      show trim ((text ++ ['\n']).filter fun c => c ≠ '\n') = trim text
      rw [hfilter]

/-- The RX text that is converted. -/
theorem rxField_line (sourceType : SourceType) {body : Str} (hbody : '\n' ∉ body) :
    rxField sourceType (body ++ ['\n']) =
      (rxText sourceType body).map
        (match sourceType with
        | .gpredict => trim
        | .gsjd => stripZeros) := by
  cases sourceType with
  | gpredict =>
      simp only [rxField, rxText, startsWith_newline (x := 'F') (by simp)]
      split
      next hstarts =>
        obtain ⟨text, rfl⟩ := cons_of_startsWith hstarts
        rw [gpredictField_line hbody (List.cons_ne_nil _ _), Option.map_some]
      next => rfl
  | gsjd =>
      simp only [rxField, rxText, startsWith_newline (x := 'f') (by simp),
        contains_newline (x := 'F') (by simp)]
      split
      next hstarts =>
        obtain ⟨text, rfl⟩ := cons_of_startsWith hstarts
        rw [Option.map_some]
        congr 1
        split
        next hF =>
          have hmem : 'F' ∈ text := by simpa using (contains_singleton _ _).mp hF
          rw [(substr_idxOf 'F').1]
          show stripZeros ((text ++ ['\n']).takeWhile _) = stripZeros (text.takeWhile _)
          rw [takeWhile_ne_append hmem]
        next hF =>
          have hmem : 'F' ∉ text := by simpa using mt (contains_singleton _ _).mpr hF
          show stripZeros (text ++ ['\n']) = stripZeros (text.takeWhile _)
          rw [stripZeros_newline, List.takeWhile_eq_self_iff.mpr (forall_ne hmem)]
      next => rfl

/-- The TX text that is converted, which is empty for a TX command alone. -/
theorem txField_line (sourceType : SourceType) (body : Str) :
    txField sourceType (body ++ ['\n']) =
      (txText sourceType body).map
        fun text => if body.head? = some 'F' then [] else stripZeros text := by
  cases sourceType with
  | gpredict => rfl
  | gsjd =>
      simp only [txField, txText, startsWith_newline (x := 'f') (by simp),
        startsWith_newline (x := 'F') (by simp), contains_newline (x := 'F') (by simp)]
      split
      next hstarts =>
        obtain ⟨text, rfl⟩ := cons_of_startsWith hstarts
        split
        next hF =>
          have hmem : 'F' ∈ text := by simpa using (contains_singleton _ _).mp hF
          obtain ⟨rest, htext, hline⟩ := dropWhile_ne_append hmem ['\n']
          have hlength := (List.dropWhile_sublist (fun c => decide (c ≠ 'F')) (l := text)).length_le
          have hdrop : ('f' :: text ++ ['\n']).dropWhile (fun c => c ≠ 'F') =
              'F' :: (rest ++ ['\n']) := hline
          have hbody : ('f' :: text).dropWhile (fun c => c ≠ 'F') = 'F' :: rest := htext
          rw [htext, List.length_cons] at hlength
          rw [substr, (substr_idxOf 'F').2, hdrop, hbody, List.take_of_length_le, Option.map_some]
          · show some (stripZeros (rest ++ ['\n'])) = some (stripZeros rest)
            rw [stripZeros_newline]
          · simp only [List.length_append, List.length_cons, List.length_nil]
            omega
        next => rfl
      next =>
        split
        next hstarts =>
          obtain ⟨text, rfl⟩ := cons_of_startsWith hstarts
          rfl
        next => rfl

end Doppler

end GsSDR
