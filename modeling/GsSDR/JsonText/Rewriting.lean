import GsSDR.Lib.Json
import GsSDR.Lib.Rewrite

/-!
# The JSON text of the blocks

`create_json_string` writes a tree as JSON, where each leaf is a string, and
rewrites the text.  It takes the quotes off strings that are hexadecimal words
and off `true` and `false`, and then it removes every backslash with the quote
behind it.  A leaf that is to stay a string, whatever is in it, has quotes of
its own.  The writer escapes them, so that the first two steps do not see the
leaf as a word, and the last step removes them.

The JSON writer and `erase_all` are library functions.  Behind the source, this
file has what one of the first two steps does to the text of an object.
-/

namespace GsSDR

open Cxx Rewrite Json

/-! ## The source -/

/-- The library functions. -/
structure Boost where
  /-- `write_json` without pretty printing, for a tree with one level. -/
  writeJson : List (Str × Str) → Str
  /-- `boost::erase_all`. -/
  eraseAll : Str → Str → Str

/-- The characters of the class `[0-9a-fA-F]`. -/
def isXDigit (c : Char) : Bool := (hexVal c).isSome

/-- What the group `(?:0[xX])?` matches in front of digits. -/
def hexPrefix : Str → Str
  | '0' :: 'x' :: _ => ['0', 'x']
  | '0' :: 'X' :: _ => ['0', 'X']
  | _ => []

/-- The expression `reg`, replaced by its group. -/
def reg : Pattern Char
  | '"' :: cs =>
      let front := hexPrefix cs
      let tail := cs.drop front.length
      let digits := tail.takeWhile isXDigit
      if digits ≠ [] ∧ (tail.dropWhile isXDigit).head? = some '"' then
        some (front ++ digits, front.length + digits.length + 2)
      else none
  | _ => none

/-- The words of `reg_2`. -/
def boolWords : List Str := [['t', 'r', 'u', 'e'], ['f', 'a', 'l', 's', 'e']]

/-- The expression `reg_2`, replaced by its group. -/
def reg2 : Pattern Char := fun text =>
  (boolWords.find? fun word => (quoted word).isPrefixOf text).map
    fun word => (word, word.length + 2)

/-- `create_json_string`. -/
def createJsonString (boost : Boost) (oroot : List (Str × Str)) : Str :=
  let json := boost.writeJson oroot
  let jsonCorection1 := replaceAll reg json
  let jsonCorection2 := replaceAll reg2 jsonCorection1
  boost.eraseAll jsonCorection2 ['\\', '"']

/-! ## The library functions -/

/-- A quote is escaped. -/
def escapeQuotes (data : Str) : Str := data.flatMap fun c => if c = '"' then ['\\', '"'] else [c]

/-- A tree as compact JSON, with all leaves as strings. -/
def compactJson (oroot : List (Str × Str)) : Str :=
  '{' :: members (fun m => quoted m.1 ++ ':' :: quoted (escapeQuotes m.2)) oroot ++ ['}']

/-- What the documentation of the library functions says.  The writer may end the
line behind the object. -/
structure Boost.Documented (boost : Boost) : Prop where
  write_compact : ∀ oroot : List (Str × Str), oroot ≠ [] →
    (∀ m ∈ oroot, m.1.all isPlain = true ∧ m.2.all (fun c => c == '"' || isPlain c) = true) →
    ∃ blanks, blanks.all isBlank = true ∧ boost.writeJson oroot = compactJson oroot ++ blanks
  erase_all : ∀ text word : Str, word ≠ [] →
    boost.eraseAll text word = replaceAll (removed word) text

/-- Functions that do what the documentation says, for runs of the model. -/
def documentedBoost : Boost where
  writeJson := compactJson
  eraseAll text word := replaceAll (removed word) text

theorem documentedBoost_documented : documentedBoost.Documented where
  write_compact _ _ _ := ⟨[], rfl, (List.append_nil _).symm⟩
  erase_all _ _ _ := rfl

/-! ## One rewriting step -/

/-- A value in the text while it is rewritten. -/
inductive Piece where
  | bare (word : Str)
  | str (content : Str)
  /-- A string with escaped quotes inside its own. -/
  | inQuotes (content : Str)
deriving DecidableEq, Repr

def Piece.written : Piece → Str
  | .bare word => word
  | .str content => quoted content
  | .inQuotes content => quoted (['\\', '"'] ++ content ++ ['\\', '"'])

def pieceMember (m : Str × Piece) : Str := quoted m.1 ++ ':' :: m.2.written

/-- Take the quotes off a word. -/
def Piece.unquote (word : Str → Bool) : Piece → Piece
  | .str content => if word content then .bare content else .str content
  | p => p

/-- The pattern matches the words in quotes and nothing else that comes up in the
text of an object. -/
structure Unquotes (p : Pattern Char) (word : Str → Bool) : Prop where
  nil : word [] = false
  head : ∀ {c : Char} (cs : Str), c ≠ '"' → p (c :: cs) = none
  word_iff : ∀ {v : Str} (rest : Str), '"' ∉ v →
    p ('"' :: v ++ '"' :: rest) = if word v then some (v, v.length + 2) else none
  backslash : ∀ {v : Str} (rest : Str), '"' ∉ v → p ('"' :: v ++ '\\' :: rest) = none
  behind : ∀ {d : Char} (rest : Str), d = ':' ∨ d = ',' ∨ d = '}' → p ('"' :: d :: rest) = none

/-- A piece does not hold a character, but for those that are written around it. -/
def Piece.Avoids (c : Char) : Piece → Prop
  | .bare word => c ∉ word
  | .str content => c ∉ content
  | .inQuotes content => c ∉ content

theorem Piece.Avoids.unquote {c : Char} {v : Piece} (h : v.Avoids c) (word : Str → Bool) :
    (v.unquote word).Avoids c := by
  cases v with
  | bare w => exact h
  | str content =>
      rw [Piece.unquote]
      split
      next => exact h
      next => exact h
  | inQuotes content => exact h

section

variable {p : Pattern Char} {word : Str → Bool}

/-- Characters other than quotes are kept. -/
theorem Unquotes.append (hp : Unquotes p word) {v : Str} (hv : '"' ∉ v) (rest : Str) :
    replaceAll p (v ++ rest) = v ++ replaceAll p rest := by
  apply replaceAll_append
  intro c hc cs
  apply hp.head
  rintro rfl
  exact hv hc

/-- A string that is no word is kept. -/
theorem Unquotes.keep (hp : Unquotes p word) {v : Str} (hv : '"' ∉ v) (hword : word v = false)
    {d : Char} (hd : d = ':' ∨ d = ',' ∨ d = '}') (rest : Str) :
    replaceAll p (quoted v ++ d :: rest) = quoted v ++ replaceAll p (d :: rest) := by
  have htext : quoted v ++ d :: rest = '"' :: (v ++ '"' :: d :: rest) := by
    simp [quoted]
  have hnone : p ('"' :: (v ++ '"' :: d :: rest)) = none := by
    rw [← List.cons_append, hp.word_iff _ hv, hword]
    rfl
  rw [htext, replaceAll_cons hnone, hp.append hv, replaceAll_cons (hp.behind rest hd)]
  simp [quoted]

/-- A word loses its quotes. -/
theorem Unquotes.hit (hp : Unquotes p word) {v : Str} (hv : '"' ∉ v) (hword : word v = true)
    (rest : Str) : replaceAll p (quoted v ++ rest) = v ++ replaceAll p rest := by
  have htext : quoted v ++ rest = '"' :: (v ++ ['"']) ++ rest := rfl
  have hsome : p ('"' :: (v ++ ['"']) ++ rest) = some (v, (v ++ ['"']).length + 1) := by
    have h := hp.word_iff rest hv
    rw [hword, if_pos rfl] at h
    simpa using h
  rw [htext, replaceAll_match hsome]

/-- A string with quotes of its own is kept. -/
theorem Unquotes.keep_inQuotes (hp : Unquotes p word) {v : Str} (hv : '"' ∉ v) {d : Char}
    (hd : d = ':' ∨ d = ',' ∨ d = '}') (rest : Str) :
    replaceAll p ((Piece.inQuotes v).written ++ d :: rest) =
      (Piece.inQuotes v).written ++ replaceAll p (d :: rest) := by
  have htext : (Piece.inQuotes v).written ++ d :: rest =
      '"' :: '\\' :: '"' :: (v ++ '\\' :: '"' :: '"' :: d :: rest) := by
    simp [Piece.written, quoted]
  have hslash : ∀ cs, p ('\\' :: cs) = none := by
    intro cs
    exact hp.head cs (by simp)
  have hfirst : ∀ cs, p ('"' :: '\\' :: cs) = none := by
    intro cs
    exact hp.backslash (v := []) cs List.not_mem_nil
  have hsecond : p ('"' :: (v ++ '\\' :: '"' :: '"' :: d :: rest)) = none := by
    rw [← List.cons_append]
    exact hp.backslash _ hv
  have hempty : p ('"' :: '"' :: d :: rest) = none := by
    have h := hp.word_iff (v := []) (d :: rest) List.not_mem_nil
    rwa [hp.nil, if_neg Bool.false_ne_true] at h
  rw [htext, replaceAll_cons (hfirst _), replaceAll_cons (hslash _), replaceAll_cons hsecond,
    hp.append hv, replaceAll_cons (hslash _), replaceAll_cons hempty,
    replaceAll_cons (hp.behind rest hd)]
  simp [Piece.written, quoted]

/-- A member whose key is no word. -/
theorem Unquotes.member (hp : Unquotes p word) {m : Str × Piece} (hkey : '"' ∉ m.1)
    (hword : word m.1 = false) (hclean : m.2.Avoids '"') {d : Char} (hd : d = ',' ∨ d = '}')
    (rest : Str) :
    replaceAll p (pieceMember m ++ d :: rest) =
      pieceMember (m.1, m.2.unquote word) ++ d :: replaceAll p rest := by
  have hdelim : d = ':' ∨ d = ',' ∨ d = '}' := .inr hd
  have hkeep : replaceAll p (d :: rest) = d :: replaceAll p rest := by
    apply replaceAll_cons
    apply hp.head
    rcases hd with rfl | rfl <;> decide
  have hvalue : replaceAll p (m.2.written ++ d :: rest) =
      (m.2.unquote word).written ++ d :: replaceAll p rest := by
    rw [← hkeep]
    cases hm : m.2 with
    | bare w =>
        rw [hm] at hclean
        exact hp.append hclean _
    | str v =>
        rw [hm] at hclean
        rw [Piece.unquote]
        cases hv : word v with
        | false => exact hp.keep hclean hv hdelim rest
        | true => exact hp.hit hclean hv _
    | inQuotes v =>
        rw [hm] at hclean
        exact hp.keep_inQuotes hclean hdelim rest
  rw [pieceMember, List.append_assoc, List.cons_append,
    hp.keep hkey hword (.inl rfl), replaceAll_cons (hp.head _ (by simp)), hvalue, pieceMember,
    List.append_assoc, List.cons_append]

/-- One step on the members. -/
theorem Unquotes.members (hp : Unquotes p word) (rest : Str) {ms : List (Str × Piece)}
    (hms : ∀ m ∈ ms, '"' ∉ m.1 ∧ word m.1 = false ∧ m.2.Avoids '"') (hne : ms ≠ []) :
    replaceAll p (members pieceMember ms ++ '}' :: rest) =
      members pieceMember (ms.map fun m => (m.1, m.2.unquote word)) ++
        '}' :: replaceAll p rest := by
  induction ms with
  | nil => exact absurd rfl hne
  | cons m ms ih =>
      obtain ⟨hkey, hword, hclean⟩ := hms m List.mem_cons_self
      cases ms with
      | nil => exact hp.member hkey hword hclean (.inr rfl) rest
      | cons m' ms =>
          have hrest := ih (fun x hx => hms x (List.mem_cons_of_mem _ hx)) (List.cons_ne_nil _ _)
          rw [Json.members, List.append_assoc, List.cons_append,
            hp.member hkey hword hclean (.inl rfl), hrest]
          simp [Json.members]

/-- One step on an object. -/
theorem Unquotes.object (hp : Unquotes p word) {ms : List (Str × Piece)}
    (hms : ∀ m ∈ ms, '"' ∉ m.1 ∧ word m.1 = false ∧ m.2.Avoids '"') (hne : ms ≠ [])
    {blanks : Str} (hblanks : '"' ∉ blanks) :
    replaceAll p ('{' :: (Json.members pieceMember ms ++ '}' :: blanks)) =
      '{' :: (Json.members pieceMember (ms.map fun m => (m.1, m.2.unquote word)) ++
        '}' :: blanks) := by
  have hend := hp.append hblanks []
  rw [List.append_nil, replaceAll_nil, List.append_nil] at hend
  rw [replaceAll_cons (hp.head _ (by simp)), hp.members blanks hms hne, hend]

end

end GsSDR
