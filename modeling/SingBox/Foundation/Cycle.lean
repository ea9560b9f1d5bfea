import Mathlib

/-!
# A cursor that goes round a range

A cursor over the numbers from `lo` up to but excluding `hi` moves to the next number, and from the
last one back to `lo`. It comes back to a number only after it has been at all the others.

## Main results

* `exists_move_to`: between two moves to the same number the cursor moves to every other one. The
  cursor may rest between two moves.
-/

namespace SingBox.Foundation

/-- The next position of a cursor over `lo, …, hi - 1`. -/
def cyclicSucc (lo hi n : ℕ) : ℕ := if n + 1 < hi then n + 1 else lo

variable {lo hi : ℕ}

theorem le_cyclicSucc {n : ℕ} (h : lo ≤ n + 1) : lo ≤ cyclicSucc lo hi n := by
  unfold cyclicSucc
  split_ifs <;> omega

theorem cyclicSucc_lt (h : lo < hi) (n : ℕ) : cyclicSucc lo hi n < hi := by
  unfold cyclicSucc
  split_ifs <;> omega

/-- Positions counted from `lo` along the cycle. -/
theorem cyclicSucc_add_mod (h : lo < hi) (k : ℕ) :
    cyclicSucc lo hi (lo + k % (hi - lo)) = lo + (k + 1) % (hi - lo) := by
  have hk : k % (hi - lo) < hi - lo := Nat.mod_lt _ (by omega)
  unfold cyclicSucc
  by_cases hl : k % (hi - lo) + 1 < hi - lo
  · rw [if_pos (by omega), Nat.add_mod, Nat.mod_eq_of_lt (a := 1) (by omega), Nat.mod_eq_of_lt hl]
    omega
  · have hw : (k + 1) % (hi - lo) = 0 := by
      have hk' : k % (hi - lo) + 1 = hi - lo := by omega
      rw [← Nat.mod_add_mod, hk', Nat.mod_self]
    rw [if_neg (by omega), hw]
    rfl

section Moves

variable {f : ℕ → ℕ} {moves : ℕ → Prop} {a : ℕ}
  (hmove : ∀ t, moves t → f (t + 1) = cyclicSucc lo hi (f t))
  (hstay : ∀ t, ¬ moves t → f (t + 1) = f t)

include hmove hstay

/-- After some number `k` of moves from `a` the cursor has been at the `k` positions after `a`. -/
theorem exists_count_moves (h : lo < hi) (ha : lo ≤ a) (ha' : a < hi) {s t : ℕ} (hst : s ≤ t)
    (hs : f s = a) : ∃ k, f t = lo + (a - lo + k) % (hi - lo) ∧ ∀ r, 1 ≤ r → r ≤ k →
      ∃ u, s ≤ u ∧ u < t ∧ moves u ∧ f (u + 1) = lo + (a - lo + r) % (hi - lo) := by
  induction t, hst using Nat.le_induction with
  | base =>
    refine ⟨0, ?_, by omega⟩
    rw [hs, add_zero, Nat.mod_eq_of_lt (by omega)]
    omega
  | succ t hst ih =>
    obtain ⟨k, hk, hv⟩ := ih
    have he : ∀ r, 1 ≤ r → r ≤ k → ∃ u, s ≤ u ∧ u < t + 1 ∧ moves u ∧
        f (u + 1) = lo + (a - lo + r) % (hi - lo) := by
      intro r hr hrk
      obtain ⟨u, hsu, hut, hu⟩ := hv r hr hrk
      exact ⟨u, hsu, hut.trans t.lt_succ_self, hu⟩
    by_cases hm : moves t
    · have hn : f (t + 1) = lo + (a - lo + (k + 1)) % (hi - lo) := by
        rw [hmove t hm, hk, cyclicSucc_add_mod h]
        rfl
      refine ⟨k + 1, hn, fun r hr hrk => ?_⟩
      rcases lt_or_ge r (k + 1) with hlt | hge
      · exact he r hr (by omega)
      · obtain rfl : r = k + 1 := le_antisymm hrk hge
        exact ⟨t, hst, t.lt_succ_self, hm, hn⟩
    · exact ⟨k, by rw [hstay t hm, hk], he⟩

/-- Between two moves to `a` the cursor moves to every other position. -/
theorem exists_move_to (ha : lo ≤ a) (ha' : a < hi) {i j : ℕ} (hij : i < j) (hi' : f (i + 1) = a)
    (hj : moves j) (hj' : f (j + 1) = a) {y : ℕ} (hy : lo ≤ y) (hy' : y < hi) (hne : y ≠ a) :
    ∃ t, i < t ∧ t < j ∧ moves t ∧ f (t + 1) = y := by
  have h : lo < hi := lt_of_le_of_lt ha ha'
  obtain ⟨k, hk, hv⟩ := exists_count_moves hmove hstay h ha ha' hij hi'
  -- The last move closes the cycle, so that a multiple of the length has been covered.
  have hrd : (a - lo + (k + 1)) % (hi - lo) = a - lo := by
    have hl : f (j + 1) = lo + (a - lo + (k + 1)) % (hi - lo) := by
      rw [hmove j hj, hk, cyclicSucc_add_mod h]
      rfl
    omega
  have hd : hi - lo ∣ k + 1 := by
    have hm : a - lo + (k + 1) ≡ a - lo + 0 [MOD hi - lo] := by
      rw [Nat.ModEq, hrd, add_zero, Nat.mod_eq_of_lt (by omega)]
    exact (Nat.modEq_zero_iff_dvd).mp (Nat.ModEq.add_left_cancel' _ hm)
  have hle : hi - lo ≤ k + 1 := Nat.le_of_dvd k.succ_pos hd
  -- The distance from `a` to `y` along the cycle.
  obtain ⟨r, hr, hrlt, hry⟩ : ∃ r, 1 ≤ r ∧ r < hi - lo ∧ (a - lo + r) % (hi - lo) = y - lo := by
    rcases Nat.lt_or_gt_of_ne hne with hlt | hgt
    · refine ⟨hi - lo - (a - y), by omega, by omega, ?_⟩
      have hs : a - lo + (hi - lo - (a - y)) = y - lo + (hi - lo) := by omega
      rw [hs, Nat.add_mod_right, Nat.mod_eq_of_lt (by omega)]
    · refine ⟨y - a, by omega, by omega, ?_⟩
      rw [show a - lo + (y - a) = y - lo by omega, Nat.mod_eq_of_lt (by omega)]
  obtain ⟨u, hiu, huj, hu, hfu⟩ := hv r hr (by omega)
  exact ⟨u, hiu, huj, hu, by rw [hfu, hry]; omega⟩

end Moves

end SingBox.Foundation
