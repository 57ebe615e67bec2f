import GsSDR.JsonText.Rewriting
import Mathlib.Data.List.TakeWhile

/-!
# The words that lose their quotes

The two expressions of `create_json_string` match a word between two quotes,
and nothing else that comes up in the text of an object (`reg_unquotes`,
`reg2_unquotes`).
-/

namespace GsSDR

open Cxx Rewrite Json

/-! ## The two expressions -/

/-- The words of `reg`. -/
def isHexWord (v : Str) : Bool :=
  let tail := v.drop (hexPrefix v).length
  !tail.isEmpty && tail.all isXDigit

theorem hexPrefix_append {c : Char} (h0 : c ≠ '0') (hx : c ≠ 'x') (hX : c ≠ 'X') (v rest : Str) :
    hexPrefix (v ++ c :: rest) = hexPrefix v := by
  cases v with
  | nil => simp [hexPrefix, h0]
  | cons a v =>
      cases v with
      | nil => simp [hexPrefix, hx, hX]
      | cons b v =>
          simp only [List.cons_append]
          unfold hexPrefix
          split <;> simp_all

theorem hexPrefix_append_drop (v : Str) : hexPrefix v ++ v.drop (hexPrefix v).length = v := by
  unfold hexPrefix
  split <;> rfl

/-- Behind the digits of a text that are not all of it, there is a character of
the text. -/
theorem dropWhile_head {u : Str} (hu : u.all isXDigit = false) (rest : Str) :
    ∃ c cs, (u ++ rest).dropWhile isXDigit = c :: cs ∧ c ∈ u := by
  induction u with
  | nil => cases hu
  | cons c u ih =>
      cases hc : isXDigit c with
      | false =>
          exact ⟨c, u ++ rest, List.dropWhile_cons_of_neg (by simp [hc]), List.mem_cons_self⟩
      | true =>
          rw [List.all_cons, hc, Bool.true_and] at hu
          obtain ⟨x, cs, hdrop, hx⟩ := ih hu
          refine ⟨x, cs, ?_, List.mem_cons_of_mem _ hx⟩
          rw [List.cons_append, List.dropWhile_cons_of_pos hc, hdrop]

/-- What `reg` does at a quote depends on the text up to the next character that
is no digit. -/
theorem reg_append {c : Char} (hc : isXDigit c = false) (hx : c ≠ 'x') (hX : c ≠ 'X') {v : Str}
    (hv : '"' ∉ v) (rest : Str) :
    reg ('"' :: v ++ c :: rest) =
      if isHexWord v = true ∧ c = '"' then some (v, v.length + 2) else none := by
  have h0 : c ≠ '0' := by
    rintro rfl
    revert hc
    decide
  have hlen : (hexPrefix v).length ≤ v.length := by
    have h := congrArg List.length (hexPrefix_append_drop v)
    rw [List.length_append] at h
    omega
  have htail : (v ++ c :: rest).drop (hexPrefix v).length =
      v.drop (hexPrefix v).length ++ c :: rest := List.drop_append_of_le_length hlen
  rw [List.cons_append, reg]
  simp only [hexPrefix_append h0 hx hX, htail, isHexWord]
  by_cases hall : (v.drop (hexPrefix v).length).all isXDigit = true
  · have hchars := List.all_eq_true.mp hall
    have hcount : (hexPrefix v).length + (v.drop (hexPrefix v).length).length = v.length := by
      rw [← List.length_append, hexPrefix_append_drop]
    rw [List.takeWhile_append_of_pos hchars, List.dropWhile_append_of_pos hchars,
      List.takeWhile_cons_of_neg (by simp [hc]), List.dropWhile_cons_of_neg (by simp [hc]),
      List.append_nil, hexPrefix_append_drop, hcount]
    simp [hall]
  · obtain ⟨x, cs, hdrop, hmem⟩ := dropWhile_head (Bool.not_eq_true _ ▸ hall) (c :: rest)
    have hxq : x ≠ '"' := by
      rintro rfl
      exact hv (List.mem_of_mem_drop hmem)
    rw [hdrop]
    simp [hxq, hall]

theorem reg_unquotes : Unquotes reg isHexWord where
  nil := rfl
  head cs hc := by
    rw [reg]
    intro _ heq
    injection heq with h _
    exact hc h
  word_iff rest hv := by
    rw [reg_append rfl (by simp) (by simp) hv]
    simp
  backslash rest hv := by
    rw [reg_append rfl (by simp) (by simp) hv]
    simp
  behind rest hd := by
    have hplain : ∀ d : Char, isXDigit d = false → d ≠ 'x' → d ≠ 'X' →
        reg ('"' :: d :: rest) = none := by
      intro d hc hx hX
      exact reg_append (v := []) hc hx hX List.not_mem_nil rest
    rcases hd with rfl | rfl | rfl
    · exact hplain _ rfl (by simp) (by simp)
    · exact hplain _ rfl (by simp) (by simp)
    · exact hplain _ rfl (by simp) (by simp)

/-- A word in quotes stands in front of a text if the text up to the next quote or
backslash is the word, and a quote comes next. -/
theorem isPrefixOf_word {w v : Str} {d : Char} (hw : d ∉ w) (hv : '"' ∉ v) (rest : Str) :
    (w ++ ['"']).isPrefixOf (v ++ d :: rest) = (decide (w = v) && '"' == d) := by
  induction v generalizing w with
  | nil =>
      cases w with
      | nil => simp [List.isPrefixOf_cons_cons]
      | cons a w =>
          have ha : a ≠ d := Ne.symm (List.ne_of_not_mem_cons hw)
          simp [List.isPrefixOf_cons_cons, ha]
  | cons b v ih =>
      have hb : '"' ≠ b := List.ne_of_not_mem_cons hv
      cases w with
      | nil => simp [List.isPrefixOf_cons_cons, hb]
      | cons a w =>
          have hrest := ih (List.not_mem_of_not_mem_cons hw) (List.not_mem_of_not_mem_cons hv)
          simp only [List.cons_append, List.isPrefixOf_cons_cons, hrest]
          by_cases hab : a = b <;> simp [hab]

/-- The words of `reg_2` as a test. -/
def isBoolWord (v : Str) : Bool := boolWords.contains v

theorem boolWords_plain : ∀ w ∈ boolWords, '"' ∉ w ∧ '\\' ∉ w := by
  simp [boolWords]

theorem reg2_unquotes : Unquotes reg2 isBoolWord where
  nil := rfl
  head {c} cs hc := by
    have hc' : '"' ≠ c := Ne.symm hc
    simp [reg2, boolWords, quoted, hc']
  word_iff {v} rest hv := by
    have hstarts : ∀ w ∈ boolWords,
        (quoted w).isPrefixOf ('"' :: v ++ '"' :: rest) = decide (w = v) := by
      intro w hw
      have h := isPrefixOf_word (boolWords_plain w hw).1 hv rest
      simpa [quoted] using h
    have htrue := hstarts ['t', 'r', 'u', 'e'] (by simp [boolWords])
    have hfalse := hstarts ['f', 'a', 'l', 's', 'e'] (by simp [boolWords])
    simp only [reg2, boolWords, List.find?_cons, htrue, hfalse, List.find?_nil]
    by_cases ht : ['t', 'r', 'u', 'e'] = v
    · subst ht
      simp [isBoolWord, boolWords]
    · by_cases hf : ['f', 'a', 'l', 's', 'e'] = v
      · subst hf
        simp [isBoolWord, boolWords]
      · simp [isBoolWord, boolWords, ht, hf, Ne.symm ht, Ne.symm hf]
  backslash {v} rest hv := by
    have hstarts : ∀ w ∈ boolWords,
        (quoted w).isPrefixOf ('"' :: v ++ '\\' :: rest) = false := by
      intro w hw
      have h := isPrefixOf_word (boolWords_plain w hw).2 hv rest
      simpa [quoted] using h
    rw [reg2, Option.map_eq_none_iff, List.find?_eq_none]
    intro w hw
    rw [hstarts w hw]
    exact Bool.false_ne_true
  behind rest hd := by
    rcases hd with rfl | rfl | rfl <;> simp [reg2, boolWords, quoted]

theorem isXDigit_of_isDigit {c : Char} (hc : c.isDigit = true) : isXDigit c = true := by
  simp only [Char.isDigit, Bool.and_eq_true, decide_eq_true_eq] at hc
  have hrange : '0' ≤ c ∧ c ≤ '9' := hc
  simp [isXDigit, hexVal, hrange]

/-- Without a prefix, a word is digits. -/
theorem isHexWord_of_digits {v : Str} (hne : v ≠ []) (hv : ∀ c ∈ v, c.isDigit = true) :
    isHexWord v = true := by
  have hstarts : hexPrefix v = [] := by
    unfold hexPrefix
    split
    next => simp at hv
    next => simp at hv
    next => rfl
  have hall : v.all isXDigit = true :=
    List.all_eq_true.mpr fun c hc => isXDigit_of_isDigit (hv c hc)
  simp [isHexWord, hstarts, hall, hne]

end GsSDR
