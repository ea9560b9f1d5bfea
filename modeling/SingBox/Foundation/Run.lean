import Mathlib

/-!
# Runs of a machine

A machine is a step function on states and inputs. Its run on an infinite sequence of inputs is a
sequence of states; every finite execution is the beginning of one. Interleavings of several
parties are inputs that name the party that moves.

## Main results

* `run_invariant`: what holds initially and is preserved by every step holds in every state.
* `run_preserved`: what holds at one time and is preserved by the steps up to a later time holds
  there.
* `forall_getD`: a property of all inputs that begin with a list.
* `Along.foldl`: what holds initially and is preserved by every step that may be taken holds after a
  list of such steps.
* `eventually_const`: a sequence of which every change decreases a measure comes to rest.
-/

namespace SingBox.Foundation

variable {σ α : Type*} (step : σ → α → σ) (s₀ : σ) (inputs : ℕ → α)

/-- The state after the first `n` inputs. -/
def run : ℕ → σ
  | 0 => s₀
  | n + 1 => step (run n) (inputs n)

@[simp] theorem run_zero : run step s₀ inputs 0 = s₀ := rfl

theorem run_succ (n : ℕ) :
    run step s₀ inputs (n + 1) = step (run step s₀ inputs n) (inputs n) := rfl

variable {step s₀ inputs}

/-- The invariant rule. -/
theorem run_invariant {P : σ → Prop} (hinit : P s₀) (hstep : ∀ s a, P s → P (step s a)) (n : ℕ) :
    P (run step s₀ inputs n) := by
  induction n with
  | zero => exact hinit
  | succ n ih => exact hstep _ _ ih

/-- A property of the states from time `i` on, which the steps before time `j` preserve. -/
theorem run_preserved {P : ℕ → σ → Prop} {i j : ℕ} (hij : i ≤ j) (hi : P i (run step s₀ inputs i))
    (hstep : ∀ t, i ≤ t → t < j → P t (run step s₀ inputs t) →
      P (t + 1) (step (run step s₀ inputs t) (inputs t))) :
    P j (run step s₀ inputs j) := by
  induction j, hij using Nat.le_induction with
  | base => exact hi
  | succ j hij ih =>
    refine hstep j hij j.lt_succ_self (ih fun t hit htj => ?_)
    exact hstep t hit (Nat.lt_succ_of_lt htj)

/-- What the elements of a list satisfy, each at its place, and what the rest satisfies. -/
theorem forall_getD {P : ℕ → α → Prop} (l : List α) (d : α)
    (hl : ∀ n < l.length, P n (l.getD n d)) (hd : ∀ n, P n d) (n : ℕ) : P n (l.getD n d) := by
  by_cases hn : n < l.length
  · exact hl n hn
  · have hdef : l.getD n d = d := by
      rw [List.getD_eq_getElem?_getD, List.getElem?_eq_none (Nat.le_of_not_lt hn)]
      rfl
    rw [hdef]
    exact hd n

/-- Every input of the list may be taken in the state where it comes. -/
def Along (step : σ → α → σ) (may : σ → α → Prop) (s : σ) : List α → Prop
  | [] => True
  | a :: l => may s a ∧ Along step may (step s a) l

theorem along_append {may : σ → α → Prop} {s : σ} {l m : List α} :
    Along step may s (l ++ m) ↔ Along step may s l ∧ Along step may (l.foldl step s) m := by
  induction l generalizing s with
  | nil => exact (and_iff_right trivial).symm
  | cons a l ih => simp only [List.cons_append, Along, ih, and_assoc, List.foldl_cons]

/-- The invariant rule for steps that may be taken. -/
theorem Along.foldl {may : σ → α → Prop} {P : σ → Prop} {s : σ} {l : List α}
    (h : Along step may s l) (hs : P s) (hst : ∀ s a, P s → may s a → P (step s a)) :
    P (l.foldl step s) := by
  induction l generalizing s with
  | nil => exact hs
  | cons a l ih => exact ih h.2 (hst s a hs h.1)

/-- A sequence comes to rest if every change of it decreases along a well-founded relation. -/
theorem eventually_const {β : Type*} {r : β → β → Prop} (hr : WellFounded r) (μ : σ → β)
    (u : ℕ → σ) (h : ∀ n, u (n + 1) = u n ∨ r (μ (u (n + 1))) (μ (u n))) :
    ∃ N, ∀ n, N ≤ n → u n = u N := by
  suffices ha : ∀ x n, μ (u n) = x → ∃ N, ∀ n, N ≤ n → u n = u N from ha _ 0 rfl
  intro x
  induction x using hr.induction with
  | _ x ih =>
    intro n hn
    by_cases hre : ∃ m, n ≤ m ∧ r (μ (u m)) (μ (u n))
    · obtain ⟨m, -, hm⟩ := hre
      exact ih _ (hn ▸ hm) m rfl
    · -- No later value is smaller, so the sequence never changes again.
      refine ⟨n, fun m hm => ?_⟩
      induction m, hm using Nat.le_induction with
      | base => rfl
      | succ m hm hs =>
        rcases h m with hstep | hstep
        · exact hstep.trans hs
        · rw [hs] at hstep
          exact absurd ⟨m + 1, Nat.le_succ_of_le hm, hstep⟩ hre

end SingBox.Foundation
