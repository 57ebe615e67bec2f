import GsSDR.JsonText.Words

/-!
# What becomes of the leaves

The last step of `create_json_string` removes the escaped quotes, which only a
leaf with quotes of its own has.  All steps together make a JSON object of a
tree (`createJsonString_eq`).  A leaf that is a hexadecimal word or a literal
gets bare, a leaf in quotes of its own is a string, and so is any other.
-/

namespace GsSDR

open Cxx Rewrite Json

/-! ## The last step -/

/-- The value that is left of a piece without its escaped quotes. -/
def Piece.value : Piece → Value
  | .bare word => .bare word
  | .str content => .str content
  | .inQuotes content => .str content

/-- The backslashes that are removed, with the quotes behind them. -/
def escapedQuote : Pattern Char := removed ['\\', '"']

theorem escapedQuote_none {c : Char} (hc : c ≠ '\\') (cs : Str) : escapedQuote (c :: cs) = none := by
  have hc' : '\\' ≠ c := Ne.symm hc
  simp [escapedQuote, removed, List.isPrefixOf_cons_cons, hc']

theorem erase_quote (rest : Str) :
    replaceAll escapedQuote ('\\' :: '"' :: rest) = replaceAll escapedQuote rest := by
  have h : escapedQuote ('\\' :: ['"'] ++ rest) = some ([], ['"'].length + 1) := by
    simp [escapedQuote, removed]
  exact replaceAll_match h

theorem erase_append {v : Str} (hv : '\\' ∉ v) (rest : Str) :
    replaceAll escapedQuote (v ++ rest) = v ++ replaceAll escapedQuote rest := by
  apply replaceAll_append
  intro c hc cs
  apply escapedQuote_none
  rintro rfl
  exact hv hc

theorem quoted_unescaped {v : Str} (hv : '\\' ∉ v) : '\\' ∉ quoted v := by
  simp [quoted, hv]

theorem erase_written {v : Piece} (hv : v.Avoids '\\') (rest : Str) :
    replaceAll escapedQuote (v.written ++ rest) =
      v.value.written ++ replaceAll escapedQuote rest := by
  cases v with
  | bare word => exact erase_append hv rest
  | str content => exact erase_append (quoted_unescaped hv) rest
  | inQuotes content =>
      have htext : (Piece.inQuotes content).written ++ rest =
          '"' :: '\\' :: '"' :: (content ++ '\\' :: '"' :: '"' :: rest) := by
        simp [Piece.written, quoted]
      have hquote : ∀ cs, escapedQuote ('"' :: cs) = none := by
        intro cs
        exact escapedQuote_none (by simp) cs
      rw [htext, replaceAll_cons (hquote _), erase_quote, erase_append hv, erase_quote,
        replaceAll_cons (hquote _)]
      simp [Piece.value, Value.written, quoted]

theorem erase_members {ms : List (Str × Piece)} (hms : ∀ m ∈ ms, '\\' ∉ m.1 ∧ m.2.Avoids '\\')
    (rest : Str) :
    replaceAll escapedQuote (members pieceMember ms ++ rest) =
      members member (ms.map fun m => (m.1, m.2.value)) ++ replaceAll escapedQuote rest := by
  have hmember : ∀ m : Str × Piece, '\\' ∉ m.1 → m.2.Avoids '\\' → ∀ rest,
      replaceAll escapedQuote (pieceMember m ++ rest) =
        member (m.1, m.2.value) ++ replaceAll escapedQuote rest := by
    intro m hkey hvalue rest
    rw [pieceMember, List.append_assoc, List.cons_append, erase_append (quoted_unescaped hkey),
      replaceAll_cons (escapedQuote_none (by simp) _), erase_written hvalue, member,
      List.append_assoc, List.cons_append]
  induction ms with
  | nil => rfl
  | cons m ms ih =>
      obtain ⟨hkey, hvalue⟩ := hms m List.mem_cons_self
      cases ms with
      | nil => exact hmember m hkey hvalue rest
      | cons m' ms =>
          have hrest := ih fun x hx => hms x (List.mem_cons_of_mem _ hx)
          rw [members, List.append_assoc, List.cons_append, hmember m hkey hvalue,
            replaceAll_cons (escapedQuote_none (by simp) _), hrest]
          simp [members]

/-! ## All steps -/

/-- The data of a leaf. -/
def Piece.data : Piece → Str
  | .bare word => word
  | .str content => content
  | .inQuotes content => quoted content

/-- A leaf that needs no escapes but those of its own quotes. -/
def Piece.IsLeaf : Piece → Prop
  | .bare _ => False
  | .str content => content.all isPlain = true
  | .inQuotes content => content.all isPlain = true

/-- What becomes of a leaf. -/
def Piece.result (p : Piece) : Value := ((p.unquote isHexWord).unquote isBoolWord).value

/-- A key that keeps its quotes. -/
def KeyOk (key : Str) : Prop :=
  key.all isPlain = true ∧ isHexWord key = false ∧ isBoolWord key = false

theorem not_mem_of_plain {v : Str} (hv : v.all isPlain = true) : '"' ∉ v ∧ '\\' ∉ v := by
  have h := List.all_eq_true.mp hv
  constructor
  · intro hmem
    exact (isPlain_ne (h _ hmem)).1 rfl
  · intro hmem
    exact (isPlain_ne (h _ hmem)).2.1 rfl

theorem escapeQuotes_plain {v : Str} (hv : '"' ∉ v) : escapeQuotes v = v := by
  induction v with
  | nil => rfl
  | cons c v ih =>
      have hc : c ≠ '"' := Ne.symm (List.ne_of_not_mem_cons hv)
      rw [escapeQuotes] at ih ⊢
      rw [List.flatMap_cons, if_neg hc, ih (List.not_mem_of_not_mem_cons hv)]
      rfl

/-- The writer's text for a leaf. -/
theorem quoted_escape_data {v : Piece} (hv : v.IsLeaf) :
    quoted (escapeQuotes v.data) = v.written := by
  cases v with
  | bare word => cases hv
  | str content => rw [Piece.data, escapeQuotes_plain (not_mem_of_plain hv).1, Piece.written]
  | inQuotes content =>
      have hescape : escapeQuotes (quoted content) =
          ['\\', '"'] ++ escapeQuotes content ++ ['\\', '"'] := by
        simp [escapeQuotes, quoted]
      rw [Piece.data, hescape, escapeQuotes_plain (not_mem_of_plain hv).1, Piece.written]

theorem Piece.IsLeaf.avoids_quote {v : Piece} (hv : v.IsLeaf) : v.Avoids '"' := by
  cases v with
  | bare word => cases hv
  | str content => exact (not_mem_of_plain hv).1
  | inQuotes content => exact (not_mem_of_plain hv).1

theorem Piece.IsLeaf.avoids_backslash {v : Piece} (hv : v.IsLeaf) : v.Avoids '\\' := by
  cases v with
  | bare word => cases hv
  | str content => exact (not_mem_of_plain hv).2
  | inQuotes content => exact (not_mem_of_plain hv).2

theorem not_mem_of_blank {blanks : Str} (h : blanks.all isBlank = true) {c : Char}
    (hc : isBlank c = false) : c ∉ blanks := by
  intro hmem
  rw [List.all_eq_true.mp h c hmem] at hc
  cases hc

/-- The writer knows what to do with the leaves. -/
theorem data_writable {ms : List (Str × Piece)} (hms : ∀ m ∈ ms, KeyOk m.1 ∧ m.2.IsLeaf) :
    ∀ m ∈ ms.map (fun m => (m.1, m.2.data)),
      m.1.all isPlain = true ∧ m.2.all (fun c => c == '"' || isPlain c) = true := by
  intro m hm
  obtain ⟨x, hx, rfl⟩ := List.mem_map.mp hm
  obtain ⟨hkey, hleaf⟩ := hms x hx
  refine ⟨hkey.1, ?_⟩
  have hplain : ∀ v : Str, v.all isPlain = true →
      v.all (fun c => c == '"' || isPlain c) = true := by
    intro v hv
    rw [List.all_eq_true] at hv ⊢
    intro c hc
    rw [hv c hc, Bool.or_true]
  cases hx2 : x.2 with
  | bare word => rw [hx2] at hleaf; cases hleaf
  | str content =>
      rw [hx2] at hleaf
      exact hplain content hleaf
  | inQuotes content =>
      rw [hx2] at hleaf
      have h := hplain content hleaf
      simp only [Piece.data, quoted, List.all_append, List.all_cons, h]
      decide

theorem compactJson_data {ms : List (Str × Piece)} (hms : ∀ m ∈ ms, m.2.IsLeaf) :
    compactJson (ms.map fun m => (m.1, m.2.data)) = '{' :: members pieceMember ms ++ ['}'] := by
  have hmembers : members (fun m : Str × Str => quoted m.1 ++ ':' :: quoted (escapeQuotes m.2))
      (ms.map fun m => (m.1, m.2.data)) = members pieceMember ms := by
    induction ms with
    | nil => rfl
    | cons m ms ih =>
        have hm : quoted m.1 ++ ':' :: quoted (escapeQuotes m.2.data) = pieceMember m := by
          rw [quoted_escape_data (hms m List.mem_cons_self), pieceMember]
        have hrest := ih fun x hx => hms x (List.mem_cons_of_mem _ hx)
        cases ms with
        | nil => exact hm
        | cons m' ms =>
            simp only [List.map_cons, members] at hrest ⊢
            rw [hm, hrest]
  rw [compactJson, hmembers]

/-- What the first two steps make of a piece. -/
def Piece.unquoted (p : Piece) : Piece := (p.unquote isHexWord).unquote isBoolWord

/-- The text of a tree after the first two steps, up to blanks behind it. -/
theorem unquoted_eq {boost : Boost} (hboost : boost.Documented)
    {ms : List (Str × Piece)} (hne : ms ≠ []) (hms : ∀ m ∈ ms, KeyOk m.1 ∧ m.2.IsLeaf) :
    ∃ blanks, blanks.all isBlank = true ∧
      replaceAll reg2 (replaceAll reg (boost.writeJson (ms.map fun m => (m.1, m.2.data)))) =
        '{' :: (members pieceMember (ms.map fun m => (m.1, m.2.unquoted)) ++ '}' :: blanks) := by
  have hleaf : ∀ m ∈ ms, m.2.IsLeaf := fun m hm => (hms m hm).2
  obtain ⟨blanks, hblanks, hwrite⟩ := hboost.write_compact (ms.map fun m => (m.1, m.2.data))
    (by simpa using hne) (data_writable hms)
  have hquote : '"' ∉ blanks := not_mem_of_blank hblanks rfl
  have htext : compactJson (ms.map fun m => (m.1, m.2.data)) ++ blanks =
      '{' :: (members pieceMember ms ++ '}' :: blanks) := by
    rw [compactJson_data hleaf]
    simp
  -- The keys stay as they are, and no step puts quotes into a piece.
  have hfirst : ∀ m ∈ ms, '"' ∉ m.1 ∧ isHexWord m.1 = false ∧ m.2.Avoids '"' := by
    intro m hm
    exact ⟨(not_mem_of_plain (hms m hm).1.1).1, (hms m hm).1.2.1, (hleaf m hm).avoids_quote⟩
  have hsecond : ∀ m ∈ ms.map (fun m => (m.1, m.2.unquote isHexWord)),
      '"' ∉ m.1 ∧ isBoolWord m.1 = false ∧ m.2.Avoids '"' := by
    intro m hm
    obtain ⟨x, hx, rfl⟩ := List.mem_map.mp hm
    exact ⟨(hfirst x hx).1, (hms x hx).1.2.2, (hfirst x hx).2.2.unquote isHexWord⟩
  refine ⟨blanks, hblanks, ?_⟩
  rw [hwrite, htext, reg_unquotes.object hfirst hne hquote,
    reg2_unquotes.object hsecond (by simpa using hne) hquote, List.map_map]
  rfl

/-- The text of a tree, up to blanks behind it. -/
theorem createJsonString_eq {boost : Boost} (hboost : boost.Documented)
    {ms : List (Str × Piece)} (hne : ms ≠ []) (hms : ∀ m ∈ ms, KeyOk m.1 ∧ m.2.IsLeaf) :
    ∃ blanks, blanks.all isBlank = true ∧
      createJsonString boost (ms.map fun m => (m.1, m.2.data)) =
        object (ms.map fun m => (m.1, m.2.result)) ++ blanks := by
  obtain ⟨blanks, hblanks, hunquoted⟩ := unquoted_eq hboost hne hms
  have hslash : '\\' ∉ blanks := not_mem_of_blank hblanks rfl
  have hthird : ∀ m ∈ ms.map (fun m => (m.1, m.2.unquoted)), '\\' ∉ m.1 ∧ m.2.Avoids '\\' := by
    intro m hm
    obtain ⟨x, hx, rfl⟩ := List.mem_map.mp hm
    exact ⟨(not_mem_of_plain (hms x hx).1.1).2,
      ((hms x hx).2.avoids_backslash.unquote isHexWord).unquote isBoolWord⟩
  have hend := erase_append hslash []
  rw [List.append_nil, replaceAll_nil, List.append_nil] at hend
  refine ⟨blanks, hblanks, ?_⟩
  rw [createJsonString, hunquoted, hboost.erase_all _ _ (List.cons_ne_nil _ _)]
  show replaceAll escapedQuote _ = _
  rw [replaceAll_cons (escapedQuote_none (by simp) _), erase_members hthird,
    replaceAll_cons (escapedQuote_none (by simp) _), hend]
  rw [List.map_map, object, List.cons_append, List.cons_append, List.append_assoc]
  rfl

/-- A number loses its quotes unless it is negative. -/
theorem unquoted_toStr (n : Int) :
    (Piece.str (toStr n)).unquoted = if n < 0 then .str (toStr n) else .bare (toStr n) := by
  rw [Piece.unquoted, Piece.unquote, toStr]
  split
  next hneg =>
    have hword : isHexWord ('-' :: Nat.toDigits 10 n.natAbs) = false := by
      have hminus : isXDigit '-' = false := rfl
      simp [isHexWord, hexPrefix, hminus]
    have hbool : isBoolWord ('-' :: Nat.toDigits 10 n.natAbs) = false := by
      simp [isBoolWord, boolWords]
    rw [hword, if_neg Bool.false_ne_true, Piece.unquote, hbool, if_neg Bool.false_ne_true]
  next =>
    rw [isHexWord_of_digits Nat.toDigits_ne_nil toDigits_isDigit, if_pos rfl]
    rfl

theorem result_toStr (n : Int) : (Piece.str (toStr n)).result = numeral n := by
  have hunquoted := unquoted_toStr n
  rw [Piece.unquoted] at hunquoted
  rw [numeral, Piece.result, hunquoted]
  split
  next => rfl
  next => rfl

end GsSDR
