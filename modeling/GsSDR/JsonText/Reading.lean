import GsSDR.JsonText.Leaves

/-!
# Reading the texts

The emitters write their numbers as strings and take the quotes off again.  The
expression for it knows digits and no sign, so a negative number stays a string.

A text is read as a JSON object, with all steps (`readTyped_createJsonString`) and
without the last one (`readTyped_unquoted`), when each of its leaves is of a kind for
which this is known (`LeafOk`).  A number in it is bare exactly if it is not negative
(`bareNumber_iff`).
-/

namespace GsSDR

open Cxx Rewrite Json

/-! ## Pieces -/

/-- What a reader finds at a piece.  Escaped quotes belong to the string. -/
def Piece.found : Piece → Value
  | .bare word => .bare word
  | .str content => .str content
  | .inQuotes content => .str (quoted content)

/-- A piece that can be read. -/
def Piece.Ok : Piece → Prop
  | .bare word => (Value.bare word).Ok
  | .str content => content.all isPlain = true
  | .inQuotes content => content.all isPlain = true

theorem Piece.Ok.reads {p : Piece} (hp : p.Ok) : Reads p.written p.found := by
  cases p with
  | bare word => exact reads_bare hp
  | str content => exact reads_quoted (readString_plain hp)
  | inQuotes content =>
      refine reads_quoted fun rest => ?_
      have hquote : ∀ cs, readString ('\\' :: '"' :: cs) =
          (readString cs).map fun r => ('"' :: r.1, r.2) := by
        intro cs
        rw [readString]
        rfl
      have hparts : ['\\', '"'] ++ content ++ ['\\', '"'] ++ '"' :: rest =
          '\\' :: '"' :: (content ++ '\\' :: '"' :: '"' :: rest) := by
        simp
      rw [hparts, hquote, readString_append hp, hquote, readString]
      simp [quoted]

/-- Without its escaped quotes it can be read too. -/
theorem Piece.Ok.value {p : Piece} (hp : p.Ok) : p.value.Ok := by
  cases p with
  | bare word => exact hp
  | str content => exact hp
  | inQuotes content => exact hp

/-! ## Leaves -/

/-- A leaf that can be read after the first two steps, under a key that keeps its
quotes. -/
def LeafOk (m : Str × Piece) : Prop := KeyOk m.1 ∧ m.2.IsLeaf ∧ m.2.unquoted.Ok

/-- What the first two steps make of a number. -/
theorem unquoted_number (n : Int) :
    (Piece.str (toStr n)).unquoted.Ok ∧ (Piece.str (toStr n)).unquoted.found = numeral n := by
  have hok := numeral_ok n
  rw [numeral] at hok ⊢
  rw [unquoted_toStr]
  split at hok
  next hneg =>
    rw [if_pos hneg, if_pos hneg]
    exact ⟨hok, rfl⟩
  next hpos =>
    rw [if_neg hpos, if_neg hpos]
    exact ⟨hok, rfl⟩

variable {key : Str}

theorem leafOk_number (hkey : KeyOk key) (n : Int) : LeafOk (key, .str (toStr n)) :=
  ⟨hkey, toStr_plain n, (unquoted_number n).1⟩

theorem leafOk_true (hkey : KeyOk key) : LeafOk (key, .str ['t', 'r', 'u', 'e']) :=
  ⟨hkey, rfl, rfl, rfl⟩

theorem leafOk_inQuotes (hkey : KeyOk key) {content : Str} (hplain : content.all isPlain = true) :
    LeafOk (key, .inQuotes content) := ⟨hkey, hplain, hplain⟩

/-! ## Texts -/

section

variable {boost : Boost} {ms : List (Str × Piece)}

/-- The text after the first two steps. -/
theorem readTyped_unquoted (hboost : boost.Documented) (hne : ms ≠ [])
    (hms : ∀ m ∈ ms, LeafOk m) :
    readTyped (replaceAll reg2 (replaceAll reg
        (boost.writeJson (ms.map fun m => (m.1, m.2.data))))) =
      some (ms.map fun m => (m.1, m.2.unquoted.found)) := by
  obtain ⟨blanks, hblanks, htext⟩ := unquoted_eq hboost hne fun m hm =>
    ⟨(hms m hm).1, (hms m hm).2.1⟩
  have hreads : ∀ m ∈ ms.map (fun m => (m.1, m.2.unquoted)),
      m.1.all isPlain = true ∧ Reads m.2.written m.2.found := by
    intro m hm
    obtain ⟨x, hx, rfl⟩ := List.mem_map.mp hm
    exact ⟨(hms x hx).1.1, (hms x hx).2.2.reads⟩
  have hread := readTyped_members (by simpa using hne) hreads hblanks
  rw [htext]
  refine Eq.trans hread ?_
  rw [List.map_map]
  rfl

/-- The text after all steps. -/
theorem readTyped_createJsonString (hboost : boost.Documented) (hne : ms ≠ [])
    (hms : ∀ m ∈ ms, LeafOk m) :
    readTyped (createJsonString boost (ms.map fun m => (m.1, m.2.data))) =
      some (ms.map fun m => (m.1, m.2.result)) := by
  obtain ⟨blanks, hblanks, htext⟩ := createJsonString_eq hboost hne fun m hm =>
    ⟨(hms m hm).1, (hms m hm).2.1⟩
  have hmembers : ∀ m ∈ ms.map (fun m => (m.1, m.2.result)), MemberOk m := by
    intro m hm
    obtain ⟨x, hx, rfl⟩ := List.mem_map.mp hm
    exact ⟨(hms x hx).1.1, (hms x hx).2.2.value⟩
  rw [htext, readTyped_object (by simpa using hne) hmembers hblanks]

end

/-! ## Numbers -/

/-- The text is a JSON object in which this member is a number, with this value. -/
def BareNumber (text key : Str) (n : Int) : Prop :=
  ∃ fields word, readTyped text = some fields ∧ fields.lookup key = some (.bare word) ∧
    integer word = some n

/-- A numeral is a bare number unless it is negative. -/
theorem bareNumber_iff {text : Str} {fields : List (Str × Value)} {n : Int}
    (hread : readTyped text = some fields) (hfield : fields.lookup key = some (numeral n)) :
    BareNumber text key n ↔ 0 ≤ n := by
  rw [numeral] at hfield
  constructor
  · rintro ⟨found, word, hfound, hbare, _⟩
    cases hread.symm.trans hfound
    rw [hfield] at hbare
    split at hbare
    next => cases hbare
    next hpos => exact Int.not_lt.mp hpos
  · intro hpos
    rw [if_neg (Int.not_lt.mpr hpos)] at hfield
    exact ⟨fields, toStr n, hread, hfield, integer_toStr n⟩

end GsSDR
