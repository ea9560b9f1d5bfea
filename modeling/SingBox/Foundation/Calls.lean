import Mathlib

/-!
# Calls in progress

The calls that are in progress in a system are a list of their local states, in no particular order.
The call at a place takes a step: it goes away, and the calls it continues as, or that it has
started, take its place.

## Main results

* `cons_resume_perm`: what a step exchanges.
* `mem_resume`, `mem_resume_of_ne`: the calls after a step.
* `countP_resume`, `sum_map_resume`: the number of calls with a property, and the sum of a weight,
  after a step.
-/

namespace SingBox.Foundation

open List

variable {α : Type*} {calls new : List α} {i : ℕ} {a c : α}

/-- The call at the place `i` continues as the calls `new`. -/
def resume (calls : List α) (i : ℕ) (new : List α) : List α := calls.eraseIdx i ++ new

/-- The call that took the step is exchanged for the new calls. -/
theorem cons_resume_perm (h : calls[i]? = some a) :
    (a :: resume calls i new).Perm (calls ++ new) := by
  obtain ⟨hi, rfl⟩ := List.getElem?_eq_some_iff.mp h
  rw [resume, ← cons_append]
  exact (getElem_cons_eraseIdx_perm hi).append_right new

/-- A call after a step was there before or is new. -/
theorem mem_resume (hc : c ∈ resume calls i new) : c ∈ calls ∨ c ∈ new := by
  rcases mem_append.mp hc with ho | hn
  · exact Or.inl (mem_of_mem_eraseIdx ho)
  · exact Or.inr hn

theorem mem_resume_new (hc : c ∈ new) : c ∈ resume calls i new := mem_append_right _ hc

/-- The other calls stay. -/
theorem mem_resume_of_ne (h : calls[i]? = some a) (hc : c ∈ calls) (hne : c ≠ a) :
    c ∈ resume calls i new := by
  have hm : c ∈ a :: resume calls i new := (cons_resume_perm h).mem_iff.mpr (mem_append_left new hc)
  exact (mem_cons.mp hm).resolve_left hne

theorem exists_mem_resume {p : α → Prop} (h : calls[i]? = some a) (he : ∃ c ∈ calls, p c)
    (hn : p a → ∃ c ∈ new, p c) : ∃ c ∈ resume calls i new, p c := by
  obtain ⟨c, hc, hp⟩ := he
  by_cases hca : c = a
  · obtain ⟨b, hb, hpb⟩ := hn (hca ▸ hp)
    exact ⟨b, mem_resume_new hb, hpb⟩
  · exact ⟨c, mem_resume_of_ne h hc hca, hp⟩

/-- The number of calls with a property, on both sides to avoid a subtraction. -/
theorem countP_resume (p : α → Bool) (new : List α) (h : calls[i]? = some a) :
    (resume calls i new).countP p + (if p a then 1 else 0) = calls.countP p + new.countP p := by
  have hc : (a :: resume calls i new).countP p = (calls ++ new).countP p :=
    (cons_resume_perm h).countP_eq p
  rwa [countP_cons, countP_append] at hc

/-- The sum of a weight over the calls, likewise. -/
theorem sum_map_resume (w : α → ℕ) (new : List α) (h : calls[i]? = some a) :
    ((resume calls i new).map w).sum + w a = (calls.map w).sum + (new.map w).sum := by
  have hp : ((a :: resume calls i new).map w).Perm ((calls ++ new).map w) :=
    (cons_resume_perm h).map w
  have hs := hp.sum_nat
  rw [map_cons, sum_cons, map_append, sum_append] at hs
  omega

end SingBox.Foundation
