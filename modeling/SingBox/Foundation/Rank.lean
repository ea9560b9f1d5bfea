import Mathlib

/-!
# Ranks of acyclic relations

A relation without cycles has a rank that decreases along every edge into a given finite set. The
rank of a point is the number of points of the set that can be reached from it, so it is at most the
size of the set. This bounds the depth of a recursion along the edges.

## Main results

* `acyclic_of_rank`, `Acyclic.exists_rank`: acyclic relations are the ones with a rank.
-/

namespace SingBox.Foundation

open Finset

variable {α : Type*}

/-- A relation without cycles. -/
def Acyclic (r : α → α → Prop) : Prop := ∀ a, ¬ Relation.TransGen r a a

variable {r : α → α → Prop}

/-- A relation along which a number decreases is acyclic. -/
theorem acyclic_of_rank (rank : α → ℕ) (h : ∀ a b, r a b → rank b < rank a) : Acyclic r := by
  have hlt : ∀ a b, Relation.TransGen r a b → rank b < rank a := by
    intro a b hab
    induction hab with
    | single hab => exact h _ _ hab
    | tail _ hbc ih => exact (h _ _ hbc).trans ih
  exact fun a ha => (hlt a a ha).false

/-- An acyclic relation has a rank that decreases along the edges into a finite set. -/
theorem Acyclic.exists_rank (h : Acyclic r) (l : List α) :
    ∃ rank : α → ℕ, (∀ a b, r a b → b ∈ l → rank b < rank a) ∧ ∀ a, rank a ≤ l.length := by
  classical
  refine ⟨fun a => (l.toFinset.filter fun b => Relation.TransGen r a b).card, ?_, fun a => ?_⟩
  · intro a b hab hb
    refine card_lt_card (ssubset_iff_of_subset ?_ |>.mpr ⟨b, ?_, ?_⟩)
    · intro c hc
      rw [mem_filter] at hc ⊢
      exact ⟨hc.1, Relation.TransGen.head hab hc.2⟩
    · exact mem_filter.mpr ⟨List.mem_toFinset.mpr hb, Relation.TransGen.single hab⟩
    · exact fun hs => h b (mem_filter.mp hs).2
  · exact (card_filter_le _ _).trans (List.toFinset_card_le l)

end SingBox.Foundation
