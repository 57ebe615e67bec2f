import GsSDR.Lib.CxxText
import Mathlib.Data.List.TakeWhile

/-!
# Flat JSON objects

A flat object has members whose values are strings, numbers or literals.  The
writer puts the members in order, without blanks.  The reader takes each value
as text: the content of a string, or the characters of a number or a literal.
It is strict.  It knows the short escapes and integers without leading zeros,
so what it accepts is a JSON object, and it reads back what the writer wrote
(`readTyped_object`).
-/

namespace Json

open Cxx

/-! ## Writing -/

/-- A value as it is written. -/
inductive Value where
  /-- A number or a literal. -/
  | bare (word : Str)
  /-- A string, of characters that need no escape. -/
  | str (content : Str)
deriving DecidableEq, Repr

/-- What a reader takes from a value. -/
def Value.text : Value → Str
  | .bare word => word
  | .str content => content

/-- A text in quotes. -/
def quoted (content : Str) : Str := '"' :: content ++ ['"']

def Value.written : Value → Str
  | .bare word => word
  | .str content => quoted content

/-- Members in order, with a separator between them. -/
def members {α : Type} (f : α → Str) : List α → Str
  | [] => []
  | [x] => f x
  | x :: y :: xs => f x ++ ',' :: members f (y :: xs)

/-- A member of an object. -/
def member (m : Str × Value) : Str := quoted m.1 ++ ':' :: m.2.written

/-- An object. -/
def object (ms : List (Str × Value)) : Str := '{' :: members member ms ++ ['}']

/-! ## Reading -/

def isBlank (c : Char) : Bool := c == ' ' || c == '\t' || c == '\n' || c == '\r'

def skipBlanks (s : Str) : Str := s.dropWhile isBlank

/-- What a short escape stands for. -/
def unescape : Char → Option Char
  | '"' => some '"'
  | '\\' => some '\\'
  | '/' => some '/'
  | 'b' => some '\x08'
  | 'f' => some '\x0c'
  | 'n' => some '\n'
  | 'r' => some '\r'
  | 't' => some '\t'
  | _ => none

/-- The content of a string, from behind its first quote, and what follows. -/
def readString : Str → Option (Str × Str)
  | [] => none
  | '"' :: cs => some ([], cs)
  | '\\' :: c :: cs =>
      match unescape c with
      | none => none
      | some x => (readString cs).map fun r => (x :: r.1, r.2)
  | c :: cs => if c < ' ' then none else (readString cs).map fun r => (c :: r.1, r.2)

/-- Digits without a leading zero. -/
def isNatural : Str → Bool
  | [] => false
  | ['0'] => true
  | '0' :: _ => false
  | cs => cs.all Char.isDigit

def isInteger : Str → Bool
  | '-' :: cs => isNatural cs
  | cs => isNatural cs

def isLiteral (s : Str) : Bool :=
  s == ['t', 'r', 'u', 'e'] || s == ['f', 'a', 'l', 's', 'e'] || s == ['n', 'u', 'l', 'l']

/-- The characters of a number or a literal. -/
def isWordChar (c : Char) : Bool := c == '-' || c.isAlphanum

/-- A value, as text. -/
def readValue : Str → Option (Str × Str)
  | '"' :: cs => readString cs
  | cs =>
      let word := cs.takeWhile isWordChar
      if isInteger word || isLiteral word then some (word, cs.dropWhile isWordChar) else none

/-- At most this many members, from the first quote on, and what follows the
object. -/
def readMembers : Nat → Str → Option (List (Str × Str) × Str)
  | n + 1, '"' :: cs => do
      let key ← readString cs
      match skipBlanks key.2 with
      | ':' :: cs =>
          let value ← readValue (skipBlanks cs)
          match skipBlanks value.2 with
          | ',' :: cs =>
              let rest ← readMembers n (skipBlanks cs)
              some ((key.1, value.1) :: rest.1, rest.2)
          | '}' :: cs => some ([(key.1, value.1)], cs)
          | _ => none
      | _ => none
  | _, _ => none

/-- A text that is one object, with blanks around it. -/
def readObject (s : Str) : Option (List (Str × Str)) :=
  match skipBlanks s with
  | '{' :: cs =>
      match readMembers s.length (skipBlanks cs) with
      | some (ms, rest) => if skipBlanks rest = [] then some ms else none
      | none => none
  | _ => none

/-! ## Reading the kinds of the values -/

/-- A value with its kind. -/
def readTypedValue : Str → Option (Value × Str)
  | '"' :: cs => (readString cs).map fun r => (.str r.1, r.2)
  | cs =>
      let word := cs.takeWhile isWordChar
      if isInteger word || isLiteral word then some (.bare word, cs.dropWhile isWordChar)
      else none

/-- The members with the kinds of their values. -/
def readTypedMembers : Nat → Str → Option (List (Str × Value) × Str)
  | n + 1, '"' :: cs => do
      let key ← readString cs
      match skipBlanks key.2 with
      | ':' :: cs =>
          let value ← readTypedValue (skipBlanks cs)
          match skipBlanks value.2 with
          | ',' :: cs =>
              let rest ← readTypedMembers n (skipBlanks cs)
              some ((key.1, value.1) :: rest.1, rest.2)
          | '}' :: cs => some ([(key.1, value.1)], cs)
          | _ => none
      | _ => none
  | _, _ => none

/-- The object with the kinds of its values. -/
def readTyped (s : Str) : Option (List (Str × Value)) :=
  match skipBlanks s with
  | '{' :: cs =>
      match readTypedMembers s.length (skipBlanks cs) with
      | some (ms, rest) => if skipBlanks rest = [] then some ms else none
      | none => none
  | _ => none

/-- Members without the kinds. -/
def texts (ms : List (Str × Value)) : List (Str × Str) := ms.map fun m => (m.1, m.2.text)

theorem readValue_eq (s : Str) :
    readValue s = (readTypedValue s).map fun r => (r.1.text, r.2) := by
  unfold readValue readTypedValue
  split
  next cs =>
    rw [Option.map_map]
    exact (Option.map_id_apply).symm
  next cs _ =>
    dsimp only
    split
    next => rfl
    next => rfl

theorem readMembers_eq (n : Nat) : ∀ s : Str,
    readMembers n s = (readTypedMembers n s).map fun r => (texts r.1, r.2) := by
  induction n with
  | zero =>
      intro s
      unfold readMembers readTypedMembers
      rfl
  | succ n ih =>
      intro s
      unfold readMembers readTypedMembers
      split
      next _ _ m cs hm =>
        cases hm
        cases readString cs with
        | none => rfl
        | some key =>
            simp only [Option.bind_eq_bind, Option.bind_some]
            split
            next cs _ =>
              rw [readValue_eq]
              cases readTypedValue (skipBlanks cs) with
              | none => rfl
              | some value =>
                  simp only [Option.map_some, Option.bind_some]
                  split
                  next cs _ =>
                    rw [ih]
                    cases readTypedMembers n (skipBlanks cs) with
                    | none => rfl
                    | some rest => rfl
                  next => rfl
                  next => rfl
            next => rfl
      next => rfl

/-- Both readers read the same objects. -/
theorem readObject_eq (s : Str) : readObject s = (readTyped s).map texts := by
  unfold readObject readTyped
  split
  next cs _ =>
    rw [readMembers_eq]
    cases readTypedMembers s.length (skipBlanks cs) with
    | none => rfl
    | some r =>
        simp only [Option.map_some]
        split
        next => rfl
        next => rfl
  next => rfl

/-! ## Reading back -/

/-- A printable character that needs no escape. -/
def isPlain (c : Char) : Bool := ' ' ≤ c && c ≤ '~' && c != '"' && c != '\\' && c != '/'

/-- What the writer may be given as a value. -/
def Value.Ok : Value → Prop
  | .bare word => (isInteger word || isLiteral word) = true ∧ word.all isWordChar = true
  | .str content => content.all isPlain = true

theorem isPlain_ne {c : Char} (h : isPlain c = true) : c ≠ '"' ∧ c ≠ '\\' ∧ ¬ c < ' ' := by
  simp only [isPlain, Bool.and_eq_true, decide_eq_true_eq, bne_iff_ne, ne_eq] at h
  exact ⟨h.1.1.2, h.1.2, Char.not_lt.mpr h.1.1.1.1⟩

/-- Characters that need no escape are read as they are. -/
theorem readString_append {s : Str} (hs : s.all isPlain = true) (rest : Str) :
    readString (s ++ rest) = (readString rest).map fun r => (s ++ r.1, r.2) := by
  induction s with
  | nil => exact (Option.map_id_apply).symm
  | cons c s ih =>
      rw [List.all_cons, Bool.and_eq_true] at hs
      obtain ⟨hquote, hslash, hctl⟩ := isPlain_ne hs.1
      rw [List.cons_append, readString, if_neg hctl, ih hs.2, Option.map_map]
      · rfl
      · intro heq
        exact hquote heq
      · intro _ _ heq _
        exact hslash heq

theorem readString_plain {s : Str} (hs : s.all isPlain = true) (rest : Str) :
    readString (s ++ '"' :: rest) = some (s, rest) := by
  rw [readString_append hs, readString, Option.map_some, List.append_nil]

/-- A number or a literal is not empty. -/
theorem word_ne_nil {word : Str} (h : (isInteger word || isLiteral word) = true) : word ≠ [] := by
  rintro rfl
  revert h
  decide

theorem skipBlanks_cons {c : Char} (hc : isBlank c = false) (cs : Str) :
    skipBlanks (c :: cs) = c :: cs := by
  rw [skipBlanks, List.dropWhile_cons_of_neg (by simp [hc])]

/-- A blank is not read over before the characters of an object. -/
theorem skipBlanks_quoted (content rest : Str) :
    skipBlanks (quoted content ++ rest) = quoted content ++ rest := by
  rw [quoted, List.cons_append]
  exact skipBlanks_cons rfl _

/-- The text is read as the value, up to the character behind it. -/
structure Reads (text : Str) (v : Value) : Prop where
  front : ∀ rest : Str, skipBlanks (text ++ rest) = text ++ rest
  value : ∀ {d : Char} (rest : Str), isWordChar d = false →
    readTypedValue (text ++ d :: rest) = some (v, d :: rest)

/-- A text in quotes is read as a string. -/
theorem reads_quoted {text content : Str}
    (h : ∀ rest : Str, readString (text ++ '"' :: rest) = some (content, rest)) :
    Reads (quoted text) (.str content) where
  front := skipBlanks_quoted text
  value rest _ := by
    rw [quoted, List.cons_append, List.cons_append, List.append_assoc, readTypedValue]
    rw [List.singleton_append, h]
    rfl

/-- A number or a literal is read as it is. -/
theorem reads_bare {word : Str} (hv : (Value.bare word).Ok) : Reads word (.bare word) := by
  obtain ⟨hword, hall⟩ := hv
  have hchars : ∀ c ∈ word, isWordChar c = true := List.all_eq_true.mp hall
  cases word with
  | nil => exact absurd rfl (word_ne_nil hword)
  | cons c word =>
      have hc : isWordChar c = true := hchars c List.mem_cons_self
      constructor
      · intro rest
        apply skipBlanks_cons
        cases hblank : isBlank c with
        | false => rfl
        | true =>
            simp only [isBlank, Bool.or_eq_true, beq_iff_eq] at hblank
            rcases hblank with ((rfl | rfl) | rfl) | rfl <;> revert hc <;> decide
      · intro d rest hd
        have htake : (c :: word ++ d :: rest).takeWhile isWordChar = c :: word := by
          rw [List.takeWhile_append_of_pos hchars, List.takeWhile_cons_of_neg (by simp [hd]),
            List.append_nil]
        have hdrop : (c :: word ++ d :: rest).dropWhile isWordChar = d :: rest := by
          rw [List.dropWhile_append_of_pos hchars, List.dropWhile_cons_of_neg (by simp [hd])]
        have hquote : c ≠ '"' := by
          rintro rfl
          exact absurd hc Bool.false_ne_true
        rw [List.cons_append, readTypedValue]
        · rw [← List.cons_append, htake, hdrop, if_pos hword]
        · intro cs heq
          injection heq with h _
          exact hquote h

theorem reads_written {v : Value} (hv : v.Ok) : Reads v.written v := by
  cases v with
  | bare word => exact reads_bare hv
  | str content => exact reads_quoted (readString_plain hv)

/-- A member of an object that can be read. -/
def MemberOk (m : Str × Value) : Prop := m.1.all isPlain = true ∧ m.2.Ok

section

variable {α : Type} {w : α → Str} {r : α → Value}

/-- A member whose value is written by `w`. -/
def memberWith (w : α → Str) (m : Str × α) : Str := quoted m.1 ++ ':' :: w m.2

/-- A member that others follow. -/
theorem readTypedMembers_comma {m : Str × α} (hkey : m.1.all isPlain = true)
    (hvalue : Reads (w m.2) (r m.2)) (n : Nat) (rest : Str) :
    readTypedMembers (n + 1) (memberWith w m ++ ',' :: rest) =
      (readTypedMembers n (skipBlanks rest)).map fun x => ((m.1, r m.2) :: x.1, x.2) := by
  have hparts : memberWith w m ++ ',' :: rest =
      '"' :: (m.1 ++ '"' :: ':' :: (w m.2 ++ ',' :: rest)) := by
    simp [memberWith, quoted]
  rw [hparts, readTypedMembers, readString_plain hkey]
  simp only [Option.bind_eq_bind, Option.bind_some, hvalue.front,
    hvalue.value _ (show isWordChar ',' = false from rfl),
    skipBlanks_cons (show isBlank ':' = false from rfl),
    skipBlanks_cons (show isBlank ',' = false from rfl)]
  cases readTypedMembers n (skipBlanks rest) with
  | none => rfl
  | some x => rfl

/-- The last member. -/
theorem readTypedMembers_last {m : Str × α} (hkey : m.1.all isPlain = true)
    (hvalue : Reads (w m.2) (r m.2)) (n : Nat) (rest : Str) :
    readTypedMembers (n + 1) (memberWith w m ++ '}' :: rest) = some ([(m.1, r m.2)], rest) := by
  have hparts : memberWith w m ++ '}' :: rest =
      '"' :: (m.1 ++ '"' :: ':' :: (w m.2 ++ '}' :: rest)) := by
    simp [memberWith, quoted]
  rw [hparts, readTypedMembers, readString_plain hkey]
  simp only [Option.bind_eq_bind, Option.bind_some, hvalue.front,
    hvalue.value _ (show isWordChar '}' = false from rfl),
    skipBlanks_cons (show isBlank ':' = false from rfl),
    skipBlanks_cons (show isBlank '}' = false from rfl)]

/-- The members of an object begin with a quote. -/
theorem skipBlanks_members (ms : List (Str × α)) (m : Str × α) (rest : Str) :
    skipBlanks (members (memberWith w) (m :: ms) ++ rest) =
      members (memberWith w) (m :: ms) ++ rest := by
  cases ms with
  | nil => exact skipBlanks_cons rfl _
  | cons m' ms => exact skipBlanks_cons rfl _

theorem readTypedMembers_members (ms : List (Str × α)) (rest : Str) :
    ∀ {m : Str × α} {n : Nat},
      (∀ x ∈ m :: ms, x.1.all isPlain = true ∧ Reads (w x.2) (r x.2)) → ms.length < n →
      readTypedMembers n (members (memberWith w) (m :: ms) ++ '}' :: rest) =
        some ((m :: ms).map fun x => (x.1, r x.2), rest) := by
  induction ms with
  | nil =>
      intro m n hok hn
      obtain ⟨k, rfl⟩ := Nat.exists_eq_add_one_of_ne_zero (Nat.ne_of_gt hn)
      obtain ⟨hkey, hvalue⟩ := hok m List.mem_cons_self
      exact readTypedMembers_last hkey hvalue k rest
  | cons m' ms ih =>
      intro m n hok hn
      rw [List.length_cons] at hn
      obtain ⟨k, rfl⟩ := Nat.exists_eq_add_one_of_ne_zero (Nat.ne_zero_of_lt hn)
      obtain ⟨hkey, hvalue⟩ := hok m List.mem_cons_self
      have hrest := ih (n := k) (fun x hx => hok x (List.mem_cons_of_mem _ hx)) (by omega)
      rw [members, List.append_assoc, List.cons_append, readTypedMembers_comma hkey hvalue,
        skipBlanks_members, hrest]
      rfl

theorem length_members (ms : List (Str × α)) :
    ms.length ≤ (members (memberWith w) ms).length := by
  induction ms with
  | nil => exact Nat.le_refl 0
  | cons m ms ih =>
      cases ms with
      | nil => simp [members, memberWith, quoted]
      | cons m' ms =>
          rw [List.length_cons] at ih
          simp only [members, List.length_append, List.length_cons]
          omega

/-- The reader gets the values that the texts of the members are read as. -/
theorem readTyped_members {ms : List (Str × α)} (hne : ms ≠ [])
    (hok : ∀ m ∈ ms, m.1.all isPlain = true ∧ Reads (w m.2) (r m.2))
    {blanks : Str} (hblanks : blanks.all isBlank = true) :
    readTyped ('{' :: (members (memberWith w) ms ++ '}' :: blanks)) =
      some (ms.map fun m => (m.1, r m.2)) := by
  cases ms with
  | nil => exact absurd rfl hne
  | cons m ms =>
      have hlen : ms.length <
          ('{' :: (members (memberWith w) (m :: ms) ++ '}' :: blanks)).length := by
        have h := length_members (w := w) (m :: ms)
        rw [List.length_cons] at h
        rw [List.length_cons, List.length_append]
        omega
      have hend : skipBlanks blanks = [] := by
        rw [skipBlanks, List.dropWhile_eq_nil_iff]
        exact List.all_eq_true.mp hblanks
      rw [readTyped, skipBlanks_cons rfl]
      simp only [skipBlanks_members, readTypedMembers_members ms blanks hok hlen, hend, if_true]

end

/-- The reader gets the members that the writer was given. -/
theorem readTyped_object {ms : List (Str × Value)} (hne : ms ≠ []) (hok : ∀ m ∈ ms, MemberOk m)
    {blanks : Str} (hblanks : blanks.all isBlank = true) :
    readTyped (object ms ++ blanks) = some ms := by
  have htext : object ms ++ blanks =
      '{' :: (members (memberWith Value.written) ms ++ '}' :: blanks) := by
    rw [object, List.cons_append, List.cons_append, List.append_assoc]
    rfl
  have hread := readTyped_members (w := Value.written) (r := id) hne
    (fun m hm => ⟨(hok m hm).1, reads_written (hok m hm).2⟩) hblanks
  rw [htext, hread]
  exact congrArg some (List.map_id ms)

/-! ## Numbers -/

theorem isPlain_of_isDigit {c : Char} (hc : c.isDigit = true) : isPlain c = true := by
  simp only [Char.isDigit, Bool.and_eq_true, decide_eq_true_eq] at hc
  simp only [isPlain, Bool.and_eq_true, decide_eq_true_eq, bne_iff_ne, ne_eq, Char.le_def,
    Char.ext_iff, UInt32.le_iff_toNat_le, ← UInt32.toNat_inj] at hc ⊢
  simp at hc ⊢
  omega

theorem isWordChar_of_isDigit {c : Char} (hc : c.isDigit = true) : isWordChar c = true := by
  simp [isWordChar, Char.isAlphanum, hc]

theorem isNatural_toDigits (n : Nat) : isNatural (Nat.toDigits 10 n) = true := by
  rcases Nat.eq_zero_or_pos n with rfl | hn
  · rfl
  · obtain ⟨c, cs, hcs, hc⟩ := toDigits_cons n hn
    have hall : (c :: cs).all Char.isDigit = true := by
      rw [← hcs]
      exact List.all_eq_true.mpr toDigits_isDigit
    rw [hcs, isNatural]
    · exact hall
    · intro heq
      cases heq
    · intro heq
      injection heq with h _
      exact hc h
    · intro _ heq
      injection heq with h _
      exact hc h

/-- How a number gets into the text.  A minus sign keeps the quotes. -/
def numeral (n : Int) : Value := if n < 0 then .str (toStr n) else .bare (toStr n)

theorem text_numeral (n : Int) : (numeral n).text = toStr n := by
  rw [numeral]
  split <;> rfl

theorem toStr_plain (n : Int) : (toStr n).all isPlain = true := by
  have hdigits : (Nat.toDigits 10 n.natAbs).all isPlain = true :=
    List.all_eq_true.mpr fun c hc => isPlain_of_isDigit (toDigits_isDigit c hc)
  rw [toStr]
  split
  next =>
    rw [List.all_cons, hdigits, Bool.and_true]
    rfl
  next => exact hdigits

theorem numeral_ok (n : Int) : (numeral n).Ok := by
  rw [numeral]
  split
  next => exact toStr_plain n
  next hpos =>
    rw [toStr, if_neg hpos]
    constructor
    · have hinteger : isInteger (Nat.toDigits 10 n.natAbs) = true := by
        rw [isInteger]
        · exact isNatural_toDigits n.natAbs
        · intro cs
          exact toDigits_ne_minus n.natAbs cs
      rw [hinteger, Bool.true_or]
    · exact List.all_eq_true.mpr fun c hc => isWordChar_of_isDigit (toDigits_isDigit c hc)

end Json
