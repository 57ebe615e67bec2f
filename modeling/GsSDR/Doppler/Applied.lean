import GsSDR.Doppler.FieldText

/-!
# Whether an answered command has been applied

`handle_read` answers a set command with success whatever becomes of its
fields.  A field that is no number is only printed, a GSJD number of zeros only
loses all its digits, and the text of a TX command alone is not the one that is
converted.  So the answer is true exactly if every field is a number, and one
that is not converted is the frequency that the session has (`applied_iff`).

The same two defects decide about a combined command (`setsBoth_iff`) and about
the two ways to set a TX frequency (`txPathsAgree_iff`).
-/

namespace GsSDR

namespace Doppler

open Cxx

/-- The answer to a set command that has been applied. -/
def successReply : SourceType → Str
  | .gpredict => rprtReply
  | .gsjd => okReply

variable (lexicalCast : Str → Option Int)

/-- If the line is answered with success, each of its fields is an `int`, and
that is the frequency of the session. -/
def Applied (sourceType : SourceType) (session : Session) (body : Str) : Prop :=
  let r := session.handleRead lexicalCast sourceType (body ++ ['\n'])
  r.2 = some (successReply sourceType) →
    (∀ text ∈ rxText sourceType body, lexicalCast (trim text) = some r.1.freqRx) ∧
      ∀ text ∈ txText sourceType body, lexicalCast (trim text) = some r.1.freqTx

/-- The RX text is a number of which nothing is converted. -/
def RxDropped (sourceType : SourceType) (text : Str) : Prop :=
  sourceType = .gsjd ∧ stripZeros text = []

/-- The TX text is such a number, or that of a TX command alone. -/
def TxDropped (body text : Str) : Prop := body.head? = some 'F' ∨ stripZeros text = []

instance (sourceType : SourceType) (text : Str) : Decidable (RxDropped sourceType text) :=
  inferInstanceAs (Decidable (_ ∧ _))

instance (body text : Str) : Decidable (TxDropped body text) :=
  inferInstanceAs (Decidable (_ ∨ _))

/-- Each field is an `int`, and one that is not converted is the frequency that
the session has already. -/
def Settable (sourceType : SourceType) (session : Session) (body : Str) : Prop :=
  (∀ text ∈ rxText sourceType body, ∃ n, lexicalCast (trim text) = some n ∧
      (RxDropped sourceType text → session.freqRx = n)) ∧
    ∀ text ∈ txText sourceType body, ∃ n, lexicalCast (trim text) = some n ∧
      (TxDropped body text → session.freqTx = n)

/-- Both frequencies are set, the change is noted, and the answer is `OK`. -/
def SetsBoth (session : Session) (rx tx : Int) (line : Str) : Prop :=
  let r := session.handleRead lexicalCast .gsjd line
  r.1.freqRx = rx ∧ r.1.freqTx = tx ∧
    (r.1.newFreq = true ↔ rx ≠ session.freqRx ∨ tx ≠ session.freqTx) ∧ r.2 = some okReply

/-- A combined command with padded numbers. -/
def combinedLine (a b : Nat) (rx tx : Int) : Str :=
  ['f'] ++ List.replicate a '0' ++ toStr rx ++ ['F'] ++ List.replicate b '0' ++ toStr tx ++ ['\n']

/-- A TX command alone leaves the TX frequency that a combined command leaves,
notes whether it is new, and leaves the RX frequency. -/
def TxPathsAgree (session : Session) (rx tx : Str) : Prop :=
  let alone := (session.handleRead lexicalCast .gsjd (['F'] ++ tx ++ ['\n'])).1
  let combined := (session.handleRead lexicalCast .gsjd (['f'] ++ rx ++ ['F'] ++ tx ++ ['\n'])).1
  alone.freqTx = combined.freqTx ∧
    (alone.newFreq = true ↔ combined.freqTx ≠ session.freqTx) ∧
    alone.freqRx = session.freqRx

variable {lexicalCast} {sourceType : SourceType} {session : Session} {body text : Str}

/-! ## Answers -/

theorem reply_of_rxText (freqRx : Int) (h : text ∈ rxText sourceType body) :
    replyTo sourceType freqRx (body ++ ['\n']) = some (successReply sourceType) := by
  cases sourceType with
  | gpredict =>
      simp only [rxText] at h
      split at h
      next hstarts => rw [replyTo, startsWith_newline (by simp), if_pos hstarts, successReply]
      next => cases h
  | gsjd =>
      simp only [rxText] at h
      split at h
      next hstarts =>
        rw [replyTo, startsWith_newline (by simp), hstarts, Bool.true_or, Bool.true_or, if_pos rfl,
          successReply]
      next => cases h

theorem reply_of_txText (freqRx : Int) (h : text ∈ txText sourceType body) :
    replyTo sourceType freqRx (body ++ ['\n']) = some (successReply sourceType) := by
  cases sourceType with
  | gpredict => cases h
  | gsjd =>
      simp only [txText] at h
      split at h
      next hstarts =>
        rw [replyTo, startsWith_newline (by simp), hstarts, Bool.true_or, Bool.true_or, if_pos rfl,
          successReply]
      next =>
        split at h
        next hstarts =>
          rw [replyTo, startsWith_newline (x := 'F') (by simp), hstarts, Bool.or_true, Bool.true_or,
            if_pos rfl, successReply]
        next => cases h

/-- A field is applied exactly if it is a number, and one that is dropped is the
old frequency. -/
theorem field_iff {converted : Str} {dropped : Prop} [Decidable dropped] (old : Int)
    (h : ∀ n, lexicalCast (trim text) = some n →
      lexicalCast converted = if dropped then none else some n) :
    lexicalCast (trim text) = some ((lexicalCast converted).getD old) ↔
      ∃ n, lexicalCast (trim text) = some n ∧ (dropped → old = n) := by
  cases hn : lexicalCast (trim text) with
  | none => simp
  | some n =>
      rw [h n hn]
      split
      next hdropped => simp [hdropped, eq_comm]
      next hkept => simp [hkept]

/-- What an RX field leaves. -/
theorem rxApplied_iff (hcast : IsIntCast lexicalCast) (hbody : '\n' ∉ body)
    (h : text ∈ rxText sourceType body) :
    lexicalCast (trim text) =
        some (session.after lexicalCast sourceType (body ++ ['\n'])).freqRx ↔
      ∃ n, lexicalCast (trim text) = some n ∧
        (RxDropped sourceType text → session.freqRx = n) := by
  have hfreq : (session.after lexicalCast sourceType (body ++ ['\n'])).freqRx =
      (rxValue lexicalCast sourceType (body ++ ['\n'])).getD session.freqRx := rfl
  rw [hfreq, rxValue, rxField_line sourceType hbody, show rxText sourceType body = some text from h]
  refine field_iff session.freqRx fun n hn => ?_
  cases sourceType with
  | gpredict => simpa [RxDropped] using hn
  | gsjd =>
      rcases cast_stripZeros hcast hn with ⟨hnil, _⟩ | hkept
      · rw [if_pos ⟨rfl, hnil⟩]
        show lexicalCast (stripZeros text) = none
        rw [hnil, hcast.nil]
      · have hne : ¬ RxDropped .gsjd text := by
          rintro ⟨_, hnil⟩
          rw [hnil, hcast.nil] at hkept
          cases hkept
        rw [if_neg hne]
        exact hkept

/-- What a TX field leaves. -/
theorem txApplied_iff (hcast : IsIntCast lexicalCast) (h : text ∈ txText sourceType body) :
    lexicalCast (trim text) =
        some (session.after lexicalCast sourceType (body ++ ['\n'])).freqTx ↔
      ∃ n, lexicalCast (trim text) = some n ∧
        (TxDropped body text → session.freqTx = n) := by
  have hfreq : (session.after lexicalCast sourceType (body ++ ['\n'])).freqTx =
      (txValue lexicalCast sourceType (body ++ ['\n'])).getD session.freqTx := rfl
  rw [hfreq, txValue, txField_line sourceType body, show txText sourceType body = some text from h]
  refine field_iff session.freqTx fun n hn => ?_
  show lexicalCast (if body.head? = some 'F' then [] else stripZeros text) = _
  by_cases halone : body.head? = some 'F'
  · rw [if_pos halone, if_pos (.inl halone)]
    exact hcast.nil
  · rw [if_neg halone]
    rcases cast_stripZeros hcast hn with ⟨hnil, _⟩ | hkept
    · rw [if_pos (.inr hnil), hnil, hcast.nil]
    · have hne : ¬ TxDropped body text := by
        rintro (h | hnil)
        · exact halone h
        · rw [hnil, hcast.nil] at hkept
          cases hkept
      rw [if_neg hne]
      exact hkept

/-- An answer of success is true exactly if the fields of the line are numbers,
and those that are not converted are the frequencies in force. -/
theorem applied_iff (hcast : IsIntCast lexicalCast) (session : Session) (hbody : '\n' ∉ body) :
    Applied lexicalCast sourceType session body ↔
      Settable lexicalCast sourceType session body := by
  rw [Applied, handleRead_eq]
  constructor
  · intro happlied
    refine ⟨fun text htext => ?_, fun text htext => ?_⟩
    · exact (rxApplied_iff hcast hbody htext).mp
        ((happlied (reply_of_rxText _ htext)).1 text htext)
    · exact (txApplied_iff hcast htext).mp ((happlied (reply_of_txText _ htext)).2 text htext)
  · rintro ⟨hrx, htx⟩ _
    exact ⟨fun text htext => (rxApplied_iff hcast hbody htext).mpr (hrx text htext),
      fun text htext => (txApplied_iff hcast htext).mpr (htx text htext)⟩

/-- A client of a GPREDICT server sets 100. -/
theorem applied_iff_set100 :
    Applied lexicalCastInt .gpredict .new ['F', '1', '0', '0'] ↔
      Settable lexicalCastInt .gpredict .new ['F', '1', '0', '0'] :=
  applied_iff isIntCast_lexicalCastInt .new (by simp)

/-- A frequency of the S band does not fit an `int`, and the answer is the
same. -/
theorem applied_fails_outOfRange :
    (Session.new.handleRead lexicalCastInt .gpredict
        ['F', '2', '2', '4', '5', '0', '0', '0', '0', '0', '0', '\n']) =
        (.new, some rprtReply) ∧
      ¬ ∀ (sourceType : SourceType) (session : Session) (body : Str), '\n' ∉ body →
        Applied lexicalCastInt sourceType session body := by
  refine ⟨rfl, fun hall => ?_⟩
  have happlied := hall .gpredict .new ['F', '2', '2', '4', '5', '0', '0', '0', '0', '0', '0']
    (by simp) rfl
  exact absurd (happlied.1 _ rfl) (by decide)

/-! ## Combined commands -/

/-- The texts on both sides of the letter. -/
theorem rxText_combined {rx : Str} (hrx : 'F' ∉ rx) (tx : Str) :
    rxText .gsjd ('f' :: (rx ++ 'F' :: tx)) = some rx := by
  show some ((rx ++ 'F' :: tx).takeWhile fun c => c ≠ 'F') = some rx
  rw [List.takeWhile_append_of_pos (forall_ne hrx), List.takeWhile_cons_of_neg (by simp),
    List.append_nil]

theorem txText_combined {rx : Str} (hrx : 'F' ∉ rx) (tx : Str) :
    txText .gsjd ('f' :: (rx ++ 'F' :: tx)) = some tx := by
  have hcontains : contains ['F'] ('f' :: (rx ++ 'F' :: tx)) = true :=
    (contains_singleton _ _).mpr (by simp)
  have hdrop : ('f' :: (rx ++ 'F' :: tx)).dropWhile (fun c => c ≠ 'F') = 'F' :: tx := by
    show (rx ++ 'F' :: tx).dropWhile _ = _
    rw [List.dropWhile_append_of_pos (forall_ne hrx), List.dropWhile_cons_of_neg (by simp)]
  rw [txText]
  simp only [hcontains, hdrop, if_true]
  rfl

/-- A padded number has digits only. -/
theorem isDigit_padded (k : Nat) {n : Int} (hn : 0 ≤ n) :
    ∀ c ∈ List.replicate k '0' ++ toStr n, c.isDigit = true := by
  intro c hc
  rcases List.mem_append.mp hc with hzero | hdigit
  · rw [(List.mem_replicate.mp hzero).2]
    rfl
  · rw [toStr_of_nonneg hn] at hdigit
    exact toDigits_isDigit c hdigit

/-- A padded number is converted unless it is 0. -/
theorem cast_padded (hcast : IsIntCast lexicalCast) (k : Nat) {n : Int} (hn : 0 ≤ n)
    (hrange : n < 0x80000000) :
    lexicalCast (stripZeros (List.replicate k '0' ++ toStr n)) =
      if n = 0 then none else some n := by
  rw [stripZeros_toStr k hn]
  split
  next => exact hcast.nil
  next => exact hcast.toStr hn ⟨by omega, hrange⟩

/-- A frequency that is kept for 0 is the right one exactly if it is 0. -/
theorem getD_eq_iff (n old : Int) :
    ((if n = 0 then none else some n).getD old = n) ↔ (n = 0 → old = 0) := by
  split
  next hzero => simp [hzero]
  next hne => simp [hne]

/-- The line behind its letter. -/
theorem combinedLine_eq (a b : Nat) (rx tx : Int) :
    combinedLine a b rx tx =
      'f' :: (List.replicate a '0' ++ toStr rx ++ 'F' :: (List.replicate b '0' ++ toStr tx)) ++
        ['\n'] := by
  simp [combinedLine]

/-- The frequencies that a combined command sets. -/
theorem combinedLine_values (hcast : IsIntCast lexicalCast) (a b : Nat) {rx tx : Int}
    (hrx : 0 ≤ rx) (hrxRange : rx < 0x80000000) (htx : 0 ≤ tx) (htxRange : tx < 0x80000000) :
    rxValue lexicalCast .gsjd (combinedLine a b rx tx) = (if rx = 0 then none else some rx) ∧
      txValue lexicalCast .gsjd (combinedLine a b rx tx) =
        if tx = 0 then none else some tx := by
  have hrxDigits := isDigit_padded a hrx
  have htxDigits := isDigit_padded b htx
  have hF : 'F' ∉ List.replicate a '0' ++ toStr rx := by
    intro hmem
    cases hrxDigits _ hmem
  have hbody : '\n' ∉
      'f' :: (List.replicate a '0' ++ toStr rx ++ 'F' :: (List.replicate b '0' ++ toStr tx)) := by
    intro hmem
    rcases List.mem_cons.mp hmem with heq | hmem
    · cases heq
    rcases List.mem_append.mp hmem with hmem | hmem
    · cases hrxDigits _ hmem
    rcases List.mem_cons.mp hmem with heq | hmem
    · cases heq
    · cases htxDigits _ hmem
  rw [combinedLine_eq]
  constructor
  · rw [rxValue, rxField_line .gsjd hbody, rxText_combined hF]
    exact cast_padded hcast a hrx hrxRange
  · rw [txValue, txField_line .gsjd, txText_combined hF]
    exact cast_padded hcast b htx htxRange

/-- A combined command sets both frequencies exactly if one that is to be 0 is 0
already. -/
theorem setsBoth_iff (hcast : IsIntCast lexicalCast) (session : Session) (a b : Nat) {rx tx : Int}
    (hrx : 0 ≤ rx) (hrxRange : rx < 0x80000000) (htx : 0 ≤ tx) (htxRange : tx < 0x80000000) :
    SetsBoth lexicalCast session rx tx (combinedLine a b rx tx) ↔
      (rx = 0 → session.freqRx = 0) ∧ (tx = 0 → session.freqTx = 0) := by
  obtain ⟨hrxValue, htxValue⟩ := combinedLine_values hcast a b hrx hrxRange htx htxRange
  rw [SetsBoth, handleRead_eq, ← getD_eq_iff rx session.freqRx, ← getD_eq_iff tx session.freqTx]
  simp only [Session.after, hrxValue, htxValue]
  constructor
  · rintro ⟨hsetRx, hsetTx, _⟩
    exact ⟨hsetRx, hsetTx⟩
  · rintro ⟨hsetRx, hsetTx⟩
    refine ⟨hsetRx, hsetTx, ?_, rfl⟩
    rw [hsetRx, hsetTx, Bool.or_eq_true, bne_iff_ne, bne_iff_ne]

theorem setsBoth_iff_padded :
    SetsBoth lexicalCastInt .new 437000000 145900000 (combinedLine 2 1 437000000 145900000) ↔
      ((437000000 : Int) = 0 → Session.new.freqRx = 0) ∧
        ((145900000 : Int) = 0 → Session.new.freqTx = 0) :=
  setsBoth_iff isIntCast_lexicalCastInt .new 2 1 (by omega) (by omega) (by omega) (by omega)

/-- A frequency of 0 is not set. -/
theorem setsBoth_fails_zero :
    ¬ ∀ (session : Session) (a b : Nat) (rx tx : Int), 0 ≤ rx → rx < 0x80000000 → 0 ≤ tx →
      tx < 0x80000000 →
      SetsBoth lexicalCastInt session rx tx (combinedLine a b rx tx) := by
  intro hall
  have hsets := hall ⟨false, 100, 200⟩ 0 0 0 200 (by omega) (by omega) (by omega) (by omega)
  exact absurd hsets.1 (by decide)

/-- A TX command alone does what a combined one does exactly if its number is
none or the frequency in force. -/
theorem txPathsAgree_iff (hcast : IsIntCast lexicalCast) (session : Session) {rx : Str}
    (hrx : 'F' ∉ rx) (tx : Str) :
    TxPathsAgree lexicalCast session rx tx ↔
      ∀ n, lexicalCast (stripZeros tx) = some n → n = session.freqTx := by
  have hline : ['f'] ++ rx ++ ['F'] ++ tx ++ ['\n'] =
      'f' :: (rx ++ 'F' :: tx) ++ ['\n'] := by simp
  have hcombined : txValue lexicalCast .gsjd (['f'] ++ rx ++ ['F'] ++ tx ++ ['\n']) =
      lexicalCast (stripZeros tx) := by
    rw [hline, txValue, txField_line .gsjd, txText_combined hrx]
    rfl
  have halone : txValue lexicalCast .gsjd (['F'] ++ tx ++ ['\n']) = none := hcast.nil
  have haloneRx : rxValue lexicalCast .gsjd (['F'] ++ tx ++ ['\n']) = none := rfl
  rw [TxPathsAgree, handleRead_eq, handleRead_eq]
  simp only [Session.after, hcombined, halone, haloneRx, Option.getD_none]
  cases lexicalCast (stripZeros tx) with
  | none => simp
  | some n =>
      rw [Option.getD_some]
      constructor
      · rintro ⟨hsame, _⟩ m hm
        cases hm
        exact hsame.symm
      · intro hsame
        simp [hsame n rfl]

theorem txPathsAgree_iff_zeroPadded :
    TxPathsAgree lexicalCastInt ⟨false, 100, 200⟩ ['1'] ['0', '2', '0', '0'] ↔
      ∀ n, lexicalCastInt (stripZeros ['0', '2', '0', '0']) = some n → n = 200 :=
  txPathsAgree_iff isIntCast_lexicalCastInt ⟨false, 100, 200⟩ (by simp) ['0', '2', '0', '0']

/-- A TX command alone sets nothing. -/
theorem txPathsAgree_fails_newFrequency :
    ¬ ∀ (session : Session) (rx tx : Str), (∀ c ∈ rx, c.isDigit = true) →
      (∀ c ∈ tx, c ≠ 'f' ∧ c ≠ 'F' ∧ c ≠ '\n') →
      TxPathsAgree lexicalCastInt session rx tx := by
  intro hall
  have hagree := hall .new ['1'] ['2'] (by simp) (by simp)
  exact absurd hagree.1 (by decide)

end Doppler

end GsSDR
