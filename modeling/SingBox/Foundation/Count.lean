import Mathlib

/-!
# Counting the parties in a state

A system of finitely many parties is a function from the parties to their local states. This module
counts the parties whose local state has a property, and says what a move of one party does to the
count.

## Main results

* `countOf_update`: the count after a move of one party.
* `countOf_eq_zero`: no party is counted.
* `getElem?_set_cases`, `getElem?_concat_cases`: the elements after a change of a list.
* `countP_set_add`, `sum_map_set_add`: the count and the sum after a change of one element.
-/

namespace SingBox.Foundation

open List Function

variable {ι α : Type*} [Fintype ι] (p : α → Prop) [DecidablePred p]

/-- The number of parties whose local state has the property `p`. -/
def countOf (f : ι → α) : ℕ := (Finset.univ.filter fun i => p (f i)).card

variable {p}

theorem countOf_eq_zero {f : ι → α} : countOf p f = 0 ↔ ∀ i, ¬ p (f i) := by
  simp [countOf, Finset.filter_eq_empty_iff]

variable [DecidableEq ι]

/-- The other parties that are counted. -/
theorem countOf_update_eq (f : ι → α) (i : ι) (a : α) : countOf p (update f i a) =
      ((Finset.univ.erase i).filter fun j => p (f j)).card + if p a then 1 else 0 := by
  have hs : (Finset.univ : Finset ι) = insert i (Finset.univ.erase i) :=
    (Finset.insert_erase (Finset.mem_univ i)).symm
  have ho : (Finset.univ.erase i).filter (fun j => p (update f i a j)) =
      (Finset.univ.erase i).filter fun j => p (f j) :=
    Finset.filter_congr fun j hj => by rw [update_of_ne (Finset.ne_of_mem_erase hj)]
  have hf : (Finset.univ.filter fun j => p (update f i a j)) =
      (insert i (Finset.univ.erase i)).filter fun j => p (update f i a j) := by
    rw [← hs]
  rw [countOf, hf, Finset.filter_insert, ho, update_self]
  split_ifs with ha
  · exact Finset.card_insert_of_notMem (by simp)
  · rfl

/-- A move of one party changes the count by the difference of its two local states. -/
theorem countOf_update (f : ι → α) (i : ι) (a : α) :
    countOf p (update f i a) + (if p (f i) then 1 else 0) = countOf p f + if p a then 1 else 0 := by
  have hs := countOf_update_eq (p := p) f i (f i)
  rw [update_eq_self] at hs
  rw [countOf_update_eq, hs]
  omega

/-! ### Lists -/

variable {β : Type*} {q : β → Bool} {g : β → β} {l : List β}

/-- An element of a list in which one was replaced. -/
theorem getElem?_set_cases {i j : ℕ} {a b : β} (h : (l.set i a)[j]? = some b) :
    (j = i ∧ b = a) ∨ (j ≠ i ∧ l[j]? = some b) := by
  rw [getElem?_set] at h
  split_ifs at h with hij hlt
  · exact .inl ⟨hij.symm, (Option.some.inj h).symm⟩
  · exact .inr ⟨Ne.symm hij, h⟩

/-- An element of a list to which one was appended. -/
theorem getElem?_concat_cases {j : ℕ} {a b : β} (h : (l ++ [a])[j]? = some b) :
    l[j]? = some b ∨ (j = l.length ∧ b = a) := by
  rw [getElem?_append] at h
  split_ifs at h with hlt
  · exact .inl h
  · obtain ⟨hj, hb⟩ := List.getElem?_eq_some_iff.mp h
    rw [length_singleton] at hj
    have h0 : j - l.length = 0 := by omega
    refine .inr ⟨by omega, ?_⟩
    rw [← hb]
    simp

theorem getElem?_set_self_of {i : ℕ} {a : β} (h : l[i]? = some a) (b : β) :
    (l.set i b)[i]? = some b := by
  obtain ⟨hi, -⟩ := List.getElem?_eq_some_iff.mp h
  exact getElem?_set_self hi

/-- A change of some elements after which none is counted anew. -/
theorem countP_map_le (h : ∀ b ∈ l, q (g b) = true → q b = true) :
    (l.map g).countP q ≤ l.countP q := by
  rw [countP_map]
  exact countP_mono_left h

variable {b : β}

/-- The count after a change of one element, on both sides to avoid a subtraction. -/
theorem countP_set_add {i : ℕ} (h : l[i]? = some b) (c : β) :
    (l.set i c).countP q + (if q b then 1 else 0) = l.countP q + if q c then 1 else 0 := by
  obtain ⟨hi, rfl⟩ := List.getElem?_eq_some_iff.mp h
  rw [countP_set hi]
  have hle : (if q l[i] then 1 else 0) ≤ l.countP q := by
    split_ifs with hq
    · exact countP_pos_iff.mpr ⟨l[i], getElem_mem hi, hq⟩
    · exact Nat.zero_le _
  omega

/-- The sum over a list after a change of one element, on both sides to avoid a subtraction. -/
theorem sum_map_set_add {i : ℕ} (h : l[i]? = some b) (w : β → ℕ) (c : β) :
    ((l.set i c).map w).sum + w b = (l.map w).sum + w c := by
  induction l generalizing i with
  | nil => cases h
  | cons a l ih =>
    cases i with
    | zero =>
      cases h
      simp only [set_cons_zero, map_cons, sum_cons]
      omega
    | succ i =>
      have hr := ih (i := i) h
      simp only [set_cons_succ, map_cons, sum_cons]
      omega

/-- A stronger predicate that drops an element has a smaller count. -/
theorem countP_lt_of_imp {p : β → Bool} (h : ∀ b ∈ l, p b = true → q b = true) (hb : b ∈ l)
    (hq : q b) (hp : p b = false) : l.countP p < l.countP q := by
  induction l with
  | nil => cases hb
  | cons a l ih =>
    have hr : ∀ b ∈ l, p b = true → q b = true := fun b hb => h b (mem_cons_of_mem a hb)
    rw [countP_cons, countP_cons]
    rcases mem_cons.mp hb with rfl | hb
    · have hle := countP_mono_left hr
      rw [hq, hp]
      simp only [if_true, Bool.false_eq_true, if_false]
      omega
    · have hlt := ih hr hb
      have hm := h a mem_cons_self
      split_ifs with hpa hqa hqa
      · omega
      · exact absurd (hm hpa) hqa
      · omega
      · omega

/-- If moreover some element is no longer counted, the count decreases. -/
theorem countP_map_lt (h : ∀ b ∈ l, q (g b) = true → q b = true) (hb : b ∈ l) (hp : q b)
    (ha : q (g b) = false) : (l.map g).countP q < l.countP q := by
  rw [countP_map]
  exact countP_lt_of_imp h hb hp ha

end SingBox.Foundation
