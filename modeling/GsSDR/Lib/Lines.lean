import Mathlib.Algebra.Order.BigOperators.Group.List
import Mathlib.Data.List.Count

/-!
# Lines of a stream and the blocks it is cut into

A line has its terminator `nl` at its end and nowhere else.  A stream of lines
is cut into blocks that each hold a terminator.  Then there are at most as many
blocks as lines, and as many exactly when each block holds a single terminator
(`count_eq_one`).  Such blocks may still be shifted against the lines.  They are
the lines themselves when each starts with a symbol that lines have only at
their start (`blocks_eq_lines`).
-/

namespace Lines

variable {α : Type*} [DecidableEq α] {nl : α} {lines blocks : List (List α)}

/-- A line: a body without the terminator, and the terminator. -/
def IsLine (nl : α) (l : List α) : Prop := ∃ body, nl ∉ body ∧ l = body ++ [nl]

theorem IsLine.count {l : List α} (h : IsLine nl l) : l.count nl = 1 := by
  obtain ⟨body, hbody, rfl⟩ := h
  rw [List.count_append, List.count_eq_zero_of_not_mem hbody, List.count_singleton_self]

theorem count_flatten_lines (hlines : ∀ l ∈ lines, IsLine nl l) :
    lines.flatten.count nl = lines.length := by
  induction lines with
  | nil => rfl
  | cons l ls ih =>
      obtain ⟨hl, hls⟩ := List.forall_mem_cons.mp hlines
      rw [List.flatten_cons, List.count_append, hl.count, ih hls, List.length_cons, Nat.add_comm]

theorem length_le_count (hblocks : ∀ b ∈ blocks, nl ∈ b) :
    blocks.length ≤ blocks.flatten.count nl := by
  induction blocks with
  | nil => exact Nat.le_refl _
  | cons b bs ih =>
      obtain ⟨hb, hbs⟩ := List.forall_mem_cons.mp hblocks
      have hpos : 0 < b.count nl := List.count_pos_iff.mpr hb
      have hrest := ih hbs
      rw [List.flatten_cons, List.count_append, List.length_cons]
      omega

/-- There are at most as many blocks as lines. -/
theorem blocks_le_lines (hlines : ∀ l ∈ lines, IsLine nl l) (hblocks : ∀ b ∈ blocks, nl ∈ b)
    (hstream : blocks.flatten = lines.flatten) : blocks.length ≤ lines.length := by
  have hle := length_le_count hblocks
  rwa [hstream, count_flatten_lines hlines] at hle

theorem count_eq_one_of_length (hblocks : ∀ b ∈ blocks, nl ∈ b)
    (hlength : blocks.flatten.count nl = blocks.length) : ∀ b ∈ blocks, b.count nl = 1 := by
  induction blocks with
  | nil => intro b hb; cases hb
  | cons b bs ih =>
      obtain ⟨hb, hbs⟩ := List.forall_mem_cons.mp hblocks
      have hpos : 0 < b.count nl := List.count_pos_iff.mpr hb
      have hrest := length_le_count hbs
      rw [List.flatten_cons, List.count_append, List.length_cons] at hlength
      refine List.forall_mem_cons.mpr ⟨?_, ih hbs ?_⟩
      · omega
      · omega

theorem length_eq_of_count (hblocks : ∀ b ∈ blocks, b.count nl = 1) :
    blocks.flatten.count nl = blocks.length := by
  induction blocks with
  | nil => rfl
  | cons b bs ih =>
      obtain ⟨hb, hbs⟩ := List.forall_mem_cons.mp hblocks
      rw [List.flatten_cons, List.count_append, hb, ih hbs, List.length_cons, Nat.add_comm]

/-- There are as many blocks as lines exactly when each block holds one
terminator. -/
theorem count_eq_one (hlines : ∀ l ∈ lines, IsLine nl l) (hblocks : ∀ b ∈ blocks, nl ∈ b)
    (hstream : blocks.flatten = lines.flatten) :
    blocks.length = lines.length ↔ ∀ b ∈ blocks, b.count nl = 1 := by
  have hcount : blocks.flatten.count nl = lines.length := by
    rw [hstream, count_flatten_lines hlines]
  constructor
  · intro hlength
    exact count_eq_one_of_length hblocks (hcount.trans hlength.symm)
  · intro hone
    rw [← length_eq_of_count hone, hcount]

/-! ## Blocks that start like lines -/

variable {starts : α → Prop}

/-- A line that has a start symbol at its start and nowhere else. -/
def StartsOnce (starts : α → Prop) (l : List α) : Prop :=
  ∃ x xs, l = x :: xs ∧ ∀ y ∈ xs, ¬ starts y

omit [DecidableEq α] in
theorem IsLine.mem {l : List α} (h : IsLine nl l) : nl ∈ l := by
  obtain ⟨body, _, rfl⟩ := h
  exact List.mem_append_right _ (List.mem_singleton.mpr rfl)

omit [DecidableEq α] in
/-- A block with a terminator does not stop short of the end of its line. -/
theorem IsLine.of_mem {l b rest more : List α} (hl : IsLine nl l) (hb : nl ∈ b)
    (hstream : b ++ more = l ++ rest) : ∃ d, b = l ++ d := by
  obtain ⟨body, hbody, rfl⟩ := hl
  rcases List.append_eq_append_iff.mp hstream with ⟨d, hd, _⟩ | ⟨d, hd, _⟩
  · rcases List.eq_nil_or_concat d with rfl | ⟨d', x, rfl⟩
    · exact ⟨[], by rw [hd, List.append_nil, List.append_nil]⟩
    · have hinit : body = b ++ d' := by
        rw [List.concat_eq_append, ← List.append_assoc] at hd
        exact (List.append_inj' hd rfl).1
      rw [hinit] at hbody
      exact absurd (List.mem_append_left _ hb) hbody
  · exact ⟨d, hd⟩

omit [DecidableEq α] in
/-- A text without a terminator stops before the end of its line. -/
theorem IsLine.of_not_mem {l d rest more : List α} (hl : IsLine nl l) (hd : nl ∉ d)
    (hstream : d ++ more = l ++ rest) : ∃ e, e ≠ [] ∧ l = d ++ e ∧ more = e ++ rest := by
  rcases List.append_eq_append_iff.mp hstream with ⟨e, he, hmore⟩ | ⟨e, he, _⟩
  · refine ⟨e, ?_, he, hmore⟩
    rintro rfl
    rw [he, List.append_nil] at hl
    exact hd hl.mem
  · rw [he] at hd
    exact absurd (List.mem_append_left _ hl.mem) hd

/-- If each block has one terminator and starts with a start symbol, and lines
have none but at their start, then the blocks are the lines. -/
theorem blocks_eq_lines (hlines : ∀ l ∈ lines, IsLine nl l ∧ StartsOnce starts l)
    (hblocks : ∀ b ∈ blocks, b.count nl = 1 ∧ ∃ x xs, b = x :: xs ∧ starts x)
    (hstream : blocks.flatten = lines.flatten) : blocks = lines := by
  induction lines generalizing blocks with
  | nil =>
      cases blocks with
      | nil => rfl
      | cons b bs =>
          obtain ⟨_, x, xs, rfl, _⟩ := hblocks b (List.mem_cons_self ..)
          cases hstream
  | cons l ls ih =>
      obtain ⟨⟨hl, _⟩, hls⟩ := List.forall_mem_cons.mp hlines
      cases blocks with
      | nil =>
          obtain ⟨body, _, rfl⟩ := hl
          simp at hstream
      | cons b bs =>
          obtain ⟨⟨hcount, _⟩, hbs⟩ := List.forall_mem_cons.mp hblocks
          have hmem : nl ∈ b := List.count_pos_iff.mp (by omega)
          rw [List.flatten_cons, List.flatten_cons] at hstream
          obtain ⟨d, rfl⟩ := hl.of_mem hmem hstream
          have hd : nl ∉ d := by
            rw [List.count_append, hl.count] at hcount
            exact List.count_eq_zero.mp (by omega)
          rw [List.append_assoc] at hstream
          have hrest := List.append_cancel_left hstream
          cases d with
          | nil => rw [ih hls hbs hrest, List.append_nil]
          | cons y ys =>
              -- the block goes on into the next line, so the next block starts inside that
              exfalso
              cases ls with
              | nil => simp at hrest
              | cons l' ls' =>
                  obtain ⟨⟨hl', x, xs, hx, hinner⟩, _⟩ := List.forall_mem_cons.mp hls
                  obtain ⟨e, hne, he, hmore⟩ := hl'.of_not_mem hd hrest
                  cases bs with
                  | nil =>
                      obtain ⟨rfl, _⟩ := List.append_eq_nil_iff.mp hmore.symm
                      exact hne rfl
                  | cons b' bs' =>
                      obtain ⟨_, z, zs, rfl, hz⟩ := hbs b' (List.mem_cons_self ..)
                      have hinside : z ∈ xs := by
                        cases e with
                        | nil => exact absurd rfl hne
                        | cons w ws =>
                            injection hmore with hzw _
                            rw [hx] at he
                            injection he with _ hxs
                            rw [hxs, hzw]
                            exact List.mem_append_right _ (List.mem_cons_self ..)
                      exact hinner z hinside hz

end Lines
