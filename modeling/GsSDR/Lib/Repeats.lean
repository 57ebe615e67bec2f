import Mathlib.Data.List.Destutter
import Mathlib.Data.List.Sort

/-!
# Repeated items with numbers

A sender numbers its items and may send an item again before it goes on to the next.  A
receiver keeps an item if its number is higher than that of the last one kept.

Then it keeps each item once and in order, whatever was repeated (`once_eq`).
-/

namespace Repeats

variable {α β : Type*} [LinearOrder β] {number : α → β}

/-- The items that a receiver keeps. -/
def once (number : α → β) (l : List α) : List α := l.destutter fun a b => number a < number b

/-- Behind an item, every number that comes is kept with some item. -/
theorem exists_mem_destutter' {x : α} {l : List α}
    (hl : (x :: l).Pairwise fun a b => number a ≤ number b) :
    ∀ a ∈ x :: l, ∃ b ∈ l.destutter' (fun a b => number a < number b) x, number b = number a := by
  induction l generalizing x with
  | nil =>
      intro a ha
      exact ⟨a, ha, rfl⟩
  | cons y l ih =>
      obtain ⟨hx, hyl⟩ := List.pairwise_cons.mp hl
      have hxl : (x :: l).Pairwise fun a b => number a ≤ number b :=
        List.pairwise_cons.mpr
          ⟨fun a ha => hx a (List.mem_cons_of_mem y ha), (List.pairwise_cons.mp hyl).2⟩
      intro a ha
      by_cases hlt : number x < number y
      · rw [List.destutter'_cons, if_pos hlt]
        rcases List.mem_cons.mp ha with rfl | ha
        · exact ⟨a, List.mem_cons_self, rfl⟩
        · obtain ⟨b, hb, hnumber⟩ := ih hyl a ha
          exact ⟨b, List.mem_cons_of_mem x hb, hnumber⟩
      · have hsame : number x = number y :=
          le_antisymm (hx y List.mem_cons_self) (not_lt.mp hlt)
        rw [List.destutter'_cons, if_neg hlt]
        rcases List.mem_cons.mp ha with rfl | ha
        · exact ih hxl a List.mem_cons_self
        · rcases List.mem_cons.mp ha with rfl | ha
          · rw [← hsame]
            exact ih hxl x List.mem_cons_self
          · exact ih hxl a (List.mem_cons_of_mem x ha)

theorem exists_mem_once {l : List α} (hl : l.Pairwise fun a b => number a ≤ number b) {a : α}
    (ha : a ∈ l) : ∃ b ∈ once number l, number b = number a := by
  cases l with
  | nil => cases ha
  | cons x l => exact exists_mem_destutter' hl a ha

/-- The numbers of what is kept rise. -/
theorem once_pairwise (l : List α) :
    (once number l).Pairwise fun a b => number a < number b := by
  have : IsTrans α fun a b => number a < number b := ⟨fun _ _ _ => lt_trans⟩
  exact List.isChain_iff_pairwise.mp (List.isChain_destutter _ l)

/-- Numbered items, each repeated any number of times, are received once each. -/
theorem once_eq {l items : List α} (hl : l.Pairwise fun a b => number a ≤ number b)
    (hitems : items.Pairwise fun a b => number a < number b) (hmem : ∀ a, a ∈ l ↔ a ∈ items) :
    once number l = items := by
  have : Std.Antisymm fun a b : α => number a < number b :=
    ⟨fun _ _ h h' => absurd h' (lt_asymm h)⟩
  have : Std.Irrefl fun a b : α => number a < number b := ⟨fun _ => lt_irrefl _⟩
  have hunique : ∀ a ∈ items, ∀ b ∈ items, number a = number b → a = b := by
    intro a ha b hb hsame
    by_contra hne
    have hsymm : Std.Symm fun a b : α => number a ≠ number b := ⟨fun _ _ h => h.symm⟩
    exact (hitems.imp ne_of_lt).forall ha hb hne hsame
  refine (once_pairwise l).eq_of_mem_iff hitems fun a => ?_
  constructor
  · intro ha
    exact (hmem a).mp ((List.destutter_sublist _ l).subset ha)
  · intro ha
    obtain ⟨b, hb, hsame⟩ := exists_mem_once hl ((hmem a).mpr ha)
    have hb' : b ∈ items := (hmem b).mp ((List.destutter_sublist _ l).subset hb)
    rwa [hunique b hb' a ha hsame] at hb

end Repeats
