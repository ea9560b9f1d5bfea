import SingBox.URLTest.Pool

/-!
# The pool over whole runs

Every planner starts from a full pool without holes. The planners without ranking keep the live
members, write live nodes from outside into the holes and give what is left back to the dead
occupants; `Filled` says what writing into holes may do. The planner with a tolerance only replaces
occupants in place. Both meet one specification of a step, `PoolStep`, and with it the shape of the
pool is an invariant of every run.
-/

namespace SingBox.URLTest

open Foundation List

/-! ### Sorting -/

theorem sinkCandidate_perm (c : Candidate) (l : List Candidate) :
    (sinkCandidate c l).Perm (c :: l) := by
  induction l with
  | nil => exact List.Perm.refl _
  | cons a l ih =>
    rw [sinkCandidate]
    split
    · exact List.Perm.refl _
    · exact (ih.cons a).trans (List.Perm.swap c a l)

theorem sortCandidatesByDelay_perm (cs : List Candidate) : (sortCandidatesByDelay cs).Perm cs := by
  have hf : ∀ (cs sorted : List Candidate),
      (cs.foldl (fun sorted c => sinkCandidate c sorted) sorted).Perm (sorted ++ cs) := by
    intro cs
    induction cs with
    | nil => intro sorted; simp
    | cons c cs ih =>
      intro sorted
      refine (ih (sinkCandidate c sorted)).trans ?_
      exact ((sinkCandidate_perm c sorted).append_right cs).trans perm_middle.symm
  exact (reverse_perm _).trans (hf cs [])

/-! ### Writing into holes -/

variable {live : String → Bool} {next : List String} {tag : String} {current : List String}

theorem mem_placedTags {slots : List String} : tag ∈ placedTags slots ↔ tag ∈ slots ∧ tag ≠ "" := by
  simp [placedTags]

/-- No tag stands in two slots. -/
def Distinct (slots : List String) : Prop :=
  ∀ (i j : ℕ) (tag : String), tag ≠ "" → slots[i]? = some tag → slots[j]? = some tag → i = j

/-- The slots `b` arise from `a` by writing nodes that satisfy `p` into holes. -/
structure Filled (p : String → Prop) (a b : List String) : Prop where
  length : b.length = a.length
  keep : ∀ {i : ℕ} {tag : String}, a[i]? = some tag → tag ≠ "" → b[i]? = some tag
  fill : ∀ {i : ℕ} {tag : String}, a[i]? = some "" → b[i]? = some tag →
    tag = "" ∨ p tag ∧ tag ∉ a
  distinct : Distinct a → Distinct b

namespace Filled

variable {p : String → Prop} {a b c : List String}

open List Nat Option

theorem refl (a : List String) : Filled p a a where
  length := rfl
  keep h _ := h
  fill ha hb := .inl (some.inj (hb.symm.trans ha))
  distinct h := h

theorem mem (h : Filled p a b) (ht : tag ∈ a) (hne : tag ≠ "") : tag ∈ b := by
  obtain ⟨i, hi⟩ := mem_iff_getElem?.mp ht
  exact mem_of_getElem? (h.keep hi hne)

/-- What stands in the filled slots stood there before or has been written. -/
theorem mem_or (h : Filled p a b) (ht : tag ∈ b) (hne : tag ≠ "") : tag ∈ a ∨ p tag := by
  obtain ⟨i, hi⟩ := mem_iff_getElem?.mp ht
  have hlt : i < a.length := h.length ▸ (List.getElem?_eq_some_iff.mp hi).1
  have ho : a[i]? = some a[i] := getElem?_eq_getElem hlt
  by_cases hh : a[i] = ""
  · rw [hh] at ho
    exact .inr ((h.fill ho hi).resolve_left hne).1
  · left
    obtain rfl : a[i] = tag := some.inj ((h.keep ho hh).symm.trans hi)
    exact getElem_mem hlt

theorem mono {q : String → Prop} (h : Filled p a b) (hpq : ∀ tag, p tag → q tag) :
    Filled q a b where
  __ := h
  fill ha hb := (h.fill ha hb).imp_right (And.imp_left (hpq _))

theorem trans (hab : Filled p a b) (hbc : Filled p b c) : Filled p a c where
  length := hbc.length.trans hab.length
  keep hi hne := hbc.keep (hab.keep hi hne) hne
  fill := by
    intro i tag ha hc
    have hlt : i < b.length := hab.length ▸ (List.getElem?_eq_some_iff.mp ha).1
    obtain ⟨s, hs⟩ : ∃ s, b[i]? = some s := ⟨b[i], getElem?_eq_getElem hlt⟩
    by_cases hh : s = ""
    · subst hh
      rcases hbc.fill hs hc with he | ⟨hp, hn⟩
      · exact .inl he
      · by_cases he : tag = ""
        · exact .inl he
        · exact .inr ⟨hp, fun hm => hn (hab.mem hm he)⟩
    · obtain rfl : s = tag := some.inj ((hbc.keep hs hh).symm.trans hc)
      exact hab.fill ha hs
  distinct h := hbc.distinct (hab.distinct h)

theorem set {i : ℕ} (hi : a[i]? = some "") (hp : p tag) (hn : tag ∉ a) :
    Filled p a (a.set i tag) := by
  have hlt : i < a.length := (List.getElem?_eq_some_iff.mp hi).1
  have ho : ∀ {j : ℕ}, i ≠ j → (a.set i tag)[j]? = a[j]? := fun h => getElem?_set_ne h
  have hs : (a.set i tag)[i]? = some tag := getElem?_set_self hlt
  refine ⟨length_set, ?_, ?_, ?_⟩
  · intro j t hj hne
    have hij : i ≠ j := by
      rintro rfl
      exact hne (some.inj (hj.symm.trans hi))
    rw [ho hij, hj]
  · intro j t hj ht
    by_cases hij : i = j
    · subst hij
      obtain rfl : tag = t := some.inj (hs.symm.trans ht)
      exact .inr ⟨hp, hn⟩
    · rw [ho hij, hj] at ht
      exact .inl (some.inj ht).symm
  · intro hd j k t hne hj hk
    by_cases hij : i = j
    · by_cases hik : i = k
      · exact hij.symm.trans hik
      · subst hij
        obtain rfl : tag = t := some.inj (hs.symm.trans hj)
        rw [ho hik] at hk
        exact absurd (mem_of_getElem? hk) hn
    · by_cases hik : i = k
      · subst hik
        obtain rfl : tag = t := some.inj (hs.symm.trans hk)
        rw [ho hij] at hj
        exact absurd (mem_of_getElem? hj) hn
      · rw [ho hij] at hj
        rw [ho hik] at hk
        exact hd j k t hne hj hk

end Filled

/-! ### The refill of the lazy check -/

theorem emptySlot_eq_some {start slot : ℕ} (h : emptySlot next start = some slot) :
    start ≤ slot ∧ next[slot]? = some "" := by
  have := find?_some h
  simpa using this

theorem emptySlot_eq_none {start : ℕ} (h : emptySlot next start = none) {i : ℕ} (hi : start ≤ i) :
    next[i]? ≠ some "" := by
  intro hh
  have hlt : i < next.length := (List.getElem?_eq_some_iff.mp hh).1
  have := find?_eq_none.mp h i (mem_range.mpr hlt)
  simp [hi, hh] at this

theorem emptySlot_zero_eq_none : emptySlot next 0 = none ↔ "" ∉ next := by
  constructor
  · intro h hm
    obtain ⟨i, hi⟩ := mem_iff_getElem?.mp hm
    exact emptySlot_eq_none h (Nat.zero_le i) hi
  · intro h
    refine Option.eq_none_iff_forall_ne_some.mpr fun slot hs => h ?_
    exact mem_of_getElem? (emptySlot_eq_some hs).2

variable {tested : Probe}

theorem takeLive_of_full {s : List String × ℕ} (h : emptySlot s.1 s.2 = none)
    (batch : List String) : takeLive tested batch s = s := by
  cases batch with
  | nil => rfl
  | cons tag batch => rw [takeLive, h]

theorem takeLive_append (tested : Probe) (xs ys : List String) (s : List String × ℕ) :
    takeLive tested (xs ++ ys) s = takeLive tested ys (takeLive tested xs s) := by
  induction xs generalizing s with
  | nil => rfl
  | cons tag xs ih =>
    rw [cons_append, takeLive, takeLive]
    cases h : emptySlot s.1 s.2 with
    | none => exact (takeLive_of_full h ys).symm
    | some slot =>
      dsimp only
      split
      · exact ih _
      · exact ih _

theorem refillBatches_eq (tested : Probe) {size : ℕ} (hs : size ≠ 0)
    (candidates : List String) (s : List String × ℕ) :
    refillBatches tested size candidates s = takeLive tested candidates s := by
  induction candidates, s using refillBatches.induct tested size with
  | case1 candidates s h =>
    rw [refillBatches, dif_pos h]
    rcases h with rfl | hf | h0
    · rfl
    · exact (takeLive_of_full hf candidates).symm
    · exact absurd h0 hs
  | case2 candidates s h ih =>
    rw [refillBatches, dif_neg h, ih, ← takeLive_append, take_append_drop]

theorem emptySlot_first {start slot i : ℕ} (h : emptySlot next start = some slot) (hi : start ≤ i)
    (hlt : i < slot) : next[i]? ≠ some "" := by
  have hf := (find?_range_eq_some.mp h).2.2 i hlt
  intro hh
  simp [hi, hh] at hf

variable {batch next : List String} {p : String → Prop}

theorem takeLive_filled {fill : ℕ} (hnd : batch.Nodup) (hn : ∀ tag ∈ batch, tag ∉ next)
    (hp : ∀ tag ∈ batch, (tested tag).isSome → p tag) :
    Filled p next (takeLive tested batch (next, fill)).1 := by
  induction batch generalizing next fill with
  | nil => exact .refl next
  | cons tag batch ih =>
    obtain ⟨htag, hnd⟩ := nodup_cons.mp hnd
    obtain ⟨hf, hn⟩ := forall_mem_cons.mp hn
    obtain ⟨hpT, hp⟩ := forall_mem_cons.mp hp
    rw [takeLive]
    cases hs : emptySlot next fill with
    | none => exact .refl next
    | some slot =>
      dsimp only
      by_cases hl : (tested tag).isSome
      · rw [if_pos hl]
        have hset : Filled p next (next.set slot tag) :=
          .set (emptySlot_eq_some hs).2 (hpT hl) hf
        refine hset.trans (ih hnd (fun t ht hm => ?_) hp)
        rcases mem_or_eq_of_mem_set hm with ho | rfl
        · exact hn t ht ho
        · exact htag ht
      · rw [if_neg hl]
        exact ih hnd hn hp

/-- A hole is left only if every live node of the batch has a slot. The slots before the cursor are
taken. -/
theorem takeLive_complete {fill : ℕ} (hnd : batch.Nodup) (hn : ∀ tag ∈ batch, tag ∉ next)
    (hne : "" ∉ batch) (hc : ∀ i < fill, next[i]? ≠ some "")
    (hh : "" ∈ (takeLive tested batch (next, fill)).1) :
    ∀ tag ∈ batch, (tested tag).isSome → tag ∈ (takeLive tested batch (next, fill)).1 := by
  induction batch generalizing next fill with
  | nil => exact fun _ h => absurd h not_mem_nil
  | cons tag batch ih =>
    obtain ⟨hta, hnd⟩ := nodup_cons.mp hnd
    obtain ⟨hf, hn⟩ := forall_mem_cons.mp hn
    obtain ⟨hnT, hne⟩ := not_or.mp (fun h => hne (mem_cons.mpr h))
    rw [takeLive] at hh ⊢
    cases hs : emptySlot next fill with
    | none =>
      rw [hs] at hh
      obtain ⟨i, hi⟩ := mem_iff_getElem?.mp hh
      rcases lt_or_ge i fill with hlt | hge
      · exact absurd hi (hc i hlt)
      · exact absurd hi (emptySlot_eq_none hs hge)
    | some slot =>
      rw [hs] at hh
      dsimp only at hh ⊢
      by_cases hl : (tested tag).isSome
      · rw [if_pos hl] at hh ⊢
        have hat := (emptySlot_eq_some hs).2
        have hse : (next.set slot tag)[slot]? = some tag :=
          getElem?_set_self (List.getElem?_eq_some_iff.mp hat).1
        have hn' : ∀ t ∈ batch, t ∉ next.set slot tag := by
          intro t ht hm
          rcases mem_or_eq_of_mem_set hm with ho | rfl
          · exact hn t ht ho
          · exact hta ht
        have hc' : ∀ i < slot + 1, (next.set slot tag)[i]? ≠ some "" := by
          intro i hi
          rcases Nat.lt_succ_iff_lt_or_eq.mp hi with hlt | rfl
          · rw [getElem?_set_ne (ne_of_gt hlt)]
            rcases lt_or_ge i fill with hp | hge
            · exact hc i hp
            · exact emptySlot_first hs hge hlt
          · rw [hse]
            exact fun h => hnT (Option.some.inj h).symm
        refine forall_mem_cons.mpr ⟨fun _ => ?_, ih hnd hn' hne hc' hh⟩
        have hfi : Filled (fun _ => True) (next.set slot tag)
            (takeLive tested batch (next.set slot tag, slot + 1)).1 :=
          takeLive_filled hnd hn' fun _ _ _ => trivial
        exact hfi.mem (mem_of_getElem? hse) fun h => hnT h.symm
      · rw [if_neg hl] at hh ⊢
        exact forall_mem_cons.mpr ⟨fun h => absurd h hl, ih hnd hn hne hc hh⟩

/-! ### The refill of the planner -/

/-- A node of the fill order that the planner may place. -/
def Eligible (live : String → Bool) (placed : List String) (tag : String) : Prop :=
  tag ≠ "" ∧ live tag ∧ tag ∉ placed

variable {placed order order' : List String}

theorem nextFill_some (h : nextFill live placed order = (some tag, order')) :
    tag ∈ order ∧ Eligible live placed tag ∧
      ∀ t ∈ order, Eligible live placed t → t = tag ∨ t ∈ order' := by
  induction order with
  | nil => simp [nextFill] at h
  | cons first order ih =>
    rw [nextFill] at h
    split at h
    case isTrue hf =>
      obtain ⟨hfst, rfl⟩ := Prod.mk.inj h
      obtain rfl := Option.some.inj hfst
      exact ⟨mem_cons_self, hf, fun t ht _ => mem_cons.mp ht⟩
    case isFalse hf =>
      obtain ⟨hm, he, hr⟩ := ih h
      refine ⟨mem_cons_of_mem _ hm, he, forall_mem_cons.mpr ⟨?_, hr⟩⟩
      exact fun hb => absurd hb hf

theorem nextFill_none (h : nextFill live placed order = (none, order')) :
    ∀ t ∈ order, ¬ Eligible live placed t := by
  induction order with
  | nil => exact fun _ ht => absurd ht not_mem_nil
  | cons first order ih =>
    rw [nextFill] at h
    split at h
    case isTrue hf => simp at h
    case isFalse hf => exact forall_mem_cons.mpr ⟨hf, ih h⟩

theorem nextFill_subset (live : String → Bool) (placed order : List String) :
    (nextFill live placed order).2 ⊆ order := by
  induction order with
  | nil => exact List.Subset.refl _
  | cons first order ih =>
    rw [nextFill]
    split
    · exact subset_cons_self first order
    · exact subset_cons_of_subset first ih

/-- `placed` lists the tags that stand in the slots. -/
def Placed (placed next : List String) : Prop :=
  ∀ tag, tag ≠ "" → (tag ∈ placed ↔ tag ∈ next)

theorem placed_placedTags (next : List String) : Placed (placedTags next) next := by
  intro tag hne
  simp [mem_placedTags, hne]

theorem Placed.set {placed next : List String} {i : ℕ} (h : Placed placed next)
    (hi : next[i]? = some "") : Placed (tag :: placed) (next.set i tag) := by
  have hlt : i < next.length := (List.getElem?_eq_some_iff.mp hi).1
  intro t hne
  rw [mem_cons, h t hne]
  constructor
  · rintro (rfl | hm)
    · exact mem_set hlt t
    · obtain ⟨j, hj⟩ := mem_iff_getElem?.mp hm
      have hij : i ≠ j := by
        rintro rfl
        exact hne (Option.some.inj (hj.symm.trans hi))
      exact mem_of_getElem? ((getElem?_set_ne hij).trans hj)
  · intro hm
    exact (mem_or_eq_of_mem_set hm).symm

variable {indices : List ℕ}

theorem refillHoles_filled {next order placed : List String} (hpl : Placed placed next)
    (hp : ∀ tag ∈ order, tag ≠ "" → live tag → p tag) :
    Filled p next (refillHoles live indices (next, order, placed)).1 ∧
      Placed (refillHoles live indices (next, order, placed)).2
        (refillHoles live indices (next, order, placed)).1 := by
  induction indices generalizing next order placed with
  | nil => exact ⟨.refl next, hpl⟩
  | cons i indices ih =>
    rw [refillHoles]
    split
    case isFalse => exact ih hpl hp
    case isTrue hi =>
      have hs := nextFill_subset live placed order
      split
      case h_2 order' hf =>
        rw [hf] at hs
        exact ih hpl fun tag htag => hp tag (hs htag)
      case h_1 tag order' hf =>
        rw [hf] at hs
        obtain ⟨hm, ⟨hne, hl, hn⟩, -⟩ := nextFill_some hf
        have hset : Filled p next (next.set i tag) :=
          .set hi (hp tag hm hne hl) (mt (hpl tag hne).mpr hn)
        obtain ⟨hfi, hpl'⟩ := @ih (next.set i tag) order' (tag :: placed) (hpl.set hi)
          fun t ht => hp t (hs ht)
        exact ⟨hset.trans hfi, hpl'⟩

/-- A hole is left only if every live node of the fill order has a slot. A hole that was passed
was passed because the fill order had run out. -/
theorem refillHoles_complete {fillOrder next order placed : List String} (hpl : Placed placed next)
    (ho : ∀ tag ∈ fillOrder, tag ≠ "" → live tag → tag ∈ order ∨ tag ∈ next)
    (hp : ∀ i, i ∉ indices → next[i]? = some "" →
      ∀ tag ∈ fillOrder, tag ≠ "" → live tag → tag ∈ next)
    (hh : "" ∈ (refillHoles live indices (next, order, placed)).1) :
    ∀ tag ∈ fillOrder, tag ≠ "" → live tag →
      tag ∈ (refillHoles live indices (next, order, placed)).1 := by
  induction indices generalizing next order placed with
  | nil =>
    obtain ⟨i, hi⟩ := mem_iff_getElem?.mp hh
    exact hp i not_mem_nil hi
  | cons i indices ih =>
    rw [refillHoles] at hh ⊢
    by_cases hi : next[i]? = some ""
    · rw [if_pos hi] at hh ⊢
      rcases hf : nextFill live placed order with ⟨_ | tag, order'⟩
      · rw [hf] at hh
        -- The fill order ran out, so every node of it that may be placed already is.
        have ha : ∀ t ∈ fillOrder, t ≠ "" → live t → t ∈ next := by
          intro t ht hne hl
          rcases ho t ht hne hl with hm | hm
          · by_contra hn
            exact nextFill_none hf t hm ⟨hne, hl, mt (hpl t hne).mp hn⟩
          · exact hm
        exact ih hpl (fun t ht hne hl => .inr (ha t ht hne hl))
          (fun _ _ _ => ha) hh
      · rw [hf] at hh
        obtain ⟨-, ⟨hne, hl, hnew⟩, hr⟩ := nextFill_some hf
        have hset : Filled (fun _ => True) next (next.set i tag) :=
          .set hi trivial (mt (hpl tag hne).mpr hnew)
        have hs : (next.set i tag)[i]? = some tag :=
          getElem?_set_self (List.getElem?_eq_some_iff.mp hi).1
        refine ih (hpl.set hi) (fun t ht hne' hl' => ?_) (fun j hj hjh => ?_) hh
        · by_cases hm : t ∈ next
          · exact .inr (hset.mem hm hne')
          · have hin := (ho t ht hne' hl').resolve_right hm
            rcases hr t hin ⟨hne', hl', mt (hpl t hne').mp hm⟩ with rfl | hlat
            · exact .inr (mem_of_getElem? hs)
            · exact .inl hlat
        · have hij : i ≠ j := by
            rintro rfl
            exact hne (Option.some.inj (hs.symm.trans hjh))
          rw [getElem?_set_ne hij] at hjh
          intro t ht hne' hl'
          refine hset.mem (hp j ?_ hjh t ht hne' hl') hne'
          exact fun h => (mem_cons.mp h).elim (fun h => hij h.symm) hj
    · rw [if_neg hi] at hh ⊢
      refine ih hpl ho (fun j hj hjh => hp j ?_ hjh) hh
      intro h
      rcases mem_cons.mp h with rfl | h
      · exact hi hjh
      · exact hj h

/-! ### The dead members -/

theorem keepDead_eq_restoreDead {current next placed : List String}
    (hnd : (placedTags current).Nodup)
    (hf : ∀ tag ∈ current, tag ≠ "" → live tag = false → tag ∉ placed) :
    (keepDead live current next placed).1 = restoreDead live current next := by
  induction current generalizing next placed with
  | nil => cases next <;> rfl
  | cons tag current ih =>
    have hr : (placedTags current).Nodup :=
      hnd.sublist ((sublist_cons_self tag current).filter _)
    obtain ⟨hfr, hf⟩ := forall_mem_cons.mp hf
    cases next with
    | nil => rfl
    | cons s next =>
      rw [keepDead, restoreDead]
      by_cases h : s = "" ∧ tag ≠ "" ∧ live tag = false
      · rw [if_pos h, if_pos ⟨h.1, h.2.1, h.2.2, hfr h.2.1 h.2.2⟩]
        refine congrArg (tag :: ·) (ih hr fun t ht hne hd hm => ?_)
        rw [placedTags, filter_cons, if_pos (by simpa using h.2.1)] at hnd
        rcases mem_cons.mp hm with rfl | hm
        · exact (nodup_cons.mp hnd).1 (mem_placedTags.mpr ⟨ht, hne⟩)
        · exact hf t ht hne hd hm
      · rw [if_neg h, if_neg fun h' => h ⟨h'.1, h'.2.1, h'.2.2.1⟩]
        exact congrArg (s :: ·) (ih hr hf)

theorem keepSurplus_of_full (live : String → Bool) (current : List String) (h : "" ∉ next)
    (placed : List String) : keepSurplus live current next placed = next := by
  induction next with
  | nil => rfl
  | cons s next ih =>
    obtain ⟨hs, hn⟩ := not_or.mp (fun h' => h (mem_cons.mpr h'))
    rw [keepSurplus, if_pos (Ne.symm hs), ih hn]

theorem dropSurplus_of_full (live : String → Bool) (current : List String) (h : "" ∉ next)
    (placed : List String) : dropSurplus live current (next, placed) = next := by
  cases current with
  | nil => rfl
  | cons tag current => rw [dropSurplus, emptySlot_zero_eq_none.mpr h]

theorem restoreDead_of_full (live : String → Bool) (current : List String) (h : "" ∉ next) :
    restoreDead live current next = next := by
  induction current generalizing next with
  | nil => cases next <;> rfl
  | cons tag current ih =>
    cases next with
    | nil => rfl
    | cons s next =>
      obtain ⟨hs, hn⟩ := not_or.mp (fun h' => h (mem_cons.mpr h'))
      rw [restoreDead, if_neg fun h' => hs h'.1.symm, ih hn]

theorem restoreDead_getElem? {current next : List String} {i : ℕ} {tag s : String}
    (ht : current[i]? = some tag) (hs : next[i]? = some s) : (restoreDead live current next)[i]? =
      some (if s = "" ∧ tag ≠ "" ∧ live tag = false then tag else s) := by
  induction current generalizing next i with
  | nil => simp at ht
  | cons first current ih =>
    cases next with
    | nil => simp at hs
    | cons s' next =>
      rw [restoreDead]
      cases i with
      | zero =>
        obtain rfl : first = tag := by simpa using ht
        obtain rfl : s' = s := by simpa using hs
        rfl
      | succ i =>
        rw [getElem?_cons_succ] at ht hs ⊢
        exact ih ht hs

theorem restoreDead_length (live : String → Bool) (current next : List String) :
    (restoreDead live current next).length = next.length := by
  induction current generalizing next with
  | nil => cases next <;> rfl
  | cons tag current ih =>
    cases next with
    | nil => rfl
    | cons s next => rw [restoreDead, length_cons, length_cons, ih]

/-! ### The planners without ranking -/

theorem keepLive_getElem? {i : ℕ} (h : current[i]? = some tag) :
    (keepLive live current current.length)[i]? =
      some (if tag ≠ "" ∧ live tag then tag else "") := by
  simp [keepLive, h]

theorem keepLive_length (live : String → Bool) (current : List String) :
    (keepLive live current current.length).length = current.length := by
  simp [keepLive]

theorem mem_of_mem_keepLive (h : tag ∈ keepLive live current current.length) (hne : tag ≠ "") :
    tag ∈ current ∧ live tag := by
  obtain ⟨i, hi⟩ := mem_iff_getElem?.mp h
  have hlt : i < current.length := by
    rw [← keepLive_length live current]
    exact (List.getElem?_eq_some_iff.mp hi).1
  rw [keepLive_getElem? (getElem?_eq_getElem hlt)] at hi
  split at hi
  case isTrue hl =>
    obtain rfl := Option.some.inj hi
    exact ⟨getElem_mem hlt, hl.2⟩
  case isFalse => exact absurd (Option.some.inj hi).symm hne

theorem distinct_keepLive (h : current.Nodup) :
    Distinct (keepLive live current current.length) := by
  have hat : ∀ {i : ℕ} {tag : String}, tag ≠ "" →
      (keepLive live current current.length)[i]? = some tag → current[i]? = some tag := by
    intro i tag hne hi
    have hlt : i < current.length := by
      rw [← keepLive_length live current]
      exact (List.getElem?_eq_some_iff.mp hi).1
    rw [keepLive_getElem? (getElem?_eq_getElem hlt)] at hi
    split at hi
    · rw [← hi]
      exact getElem?_eq_getElem hlt
    · exact absurd (Option.some.inj hi).symm hne
  intro i j tag hne hi hj
  have hlt := (List.getElem?_eq_some_iff.mp (hat hne hi)).1
  exact (getElem?_inj hlt h).mp ((hat hne hi).trans (hat hne hj).symm)

/-- What the planners without ranking do to a full pool: `filled` is the pool after live nodes from
outside have been written into the slots of dead members. -/
structure FirstLive (live : String → Bool) (current filled : List String) : Prop where
  nodup : current.Nodup
  full : "" ∉ current
  filled : Filled (fun tag => live tag ∧ tag ≠ "" ∧ tag ∉ current)
    (keepLive live current current.length) filled

namespace FirstLive

variable {live : String → Bool} {current filled : List String} {i : ℕ} {tag : String}

variable (h : FirstLive live current filled)

include h

theorem ne_empty (ht : current[i]? = some tag) : tag ≠ "" :=
  fun he => h.full (he ▸ mem_of_getElem? ht)

theorem length : (restoreDead live current filled).length = current.length := by
  rw [restoreDead_length, h.filled.length, keepLive_length]

theorem live_slot (ht : current[i]? = some tag) (hl : live tag) :
    (restoreDead live current filled)[i]? = some tag := by
  have hne := h.ne_empty ht
  have hk : (keepLive live current current.length)[i]? = some tag := by
    rw [keepLive_getElem? ht, if_pos ⟨hne, hl⟩]
  rw [restoreDead_getElem? ht (h.filled.keep hk hne), if_neg fun h' => hne h'.1]

/-- The slot of a dead member keeps it, as a hole that was not filled, or gets a live node. -/
theorem dead_slot (ht : current[i]? = some tag) (hd : live tag = false) :
    filled[i]? = some "" ∧ (restoreDead live current filled)[i]? = some tag ∨
      ∃ node, filled[i]? = some node ∧ (restoreDead live current filled)[i]? = some node ∧
        live node ∧ node ≠ "" ∧ node ∉ current := by
  have hne := h.ne_empty ht
  have hk : (keepLive live current current.length)[i]? = some "" := by
    rw [keepLive_getElem? ht, if_neg fun h' => by simp [hd] at h']
  have hlt : i < filled.length := h.filled.length ▸ (List.getElem?_eq_some_iff.mp hk).1
  have hs : filled[i]? = some filled[i] := getElem?_eq_getElem hlt
  rw [restoreDead_getElem? ht hs]
  rcases h.filled.fill hk hs with he | ⟨⟨hl, hn, ho⟩, -⟩
  · left
    rw [hs, he, if_pos ⟨rfl, hne, hd⟩]
    exact ⟨rfl, rfl⟩
  · right
    exact ⟨filled[i], hs, by rw [if_neg fun h' => hn h'.1], hl, hn, ho⟩

/-- Every slot holds its old occupant or a live node from outside, which stands at the same index
after the refill. -/
theorem slot (ht : current[i]? = some tag) : (restoreDead live current filled)[i]? = some tag ∨
      ∃ node, filled[i]? = some node ∧ (restoreDead live current filled)[i]? = some node ∧
        live node ∧ node ≠ "" ∧ node ∉ current := by
  cases hl : live tag with
  | true => exact .inl (h.live_slot ht hl)
  | false => exact (h.dead_slot ht hl).imp_left And.right

theorem exists_slot (ht : (restoreDead live current filled)[i]? = some tag) :
    current[i]? = some tag ∨ filled[i]? = some tag ∧ live tag ∧ tag ≠ "" ∧ tag ∉ current := by
  have hlt : i < current.length := h.length ▸ (List.getElem?_eq_some_iff.mp ht).1
  have ho : current[i]? = some current[i] := getElem?_eq_getElem hlt
  rcases h.slot ho with hs | ⟨node, hf, hn, hr⟩
  · left
    rw [ho, ← hs, ht]
  · right
    obtain rfl : node = tag := Option.some.inj (hn.symm.trans ht)
    exact ⟨hf, hr⟩

theorem restored_full : "" ∉ restoreDead live current filled := by
  intro hm
  obtain ⟨i, hi⟩ := mem_iff_getElem?.mp hm
  rcases h.exists_slot hi with ho | ⟨-, -, hne, -⟩
  · exact h.full (mem_of_getElem? ho)
  · exact hne rfl

theorem restored_nodup : (restoreDead live current filled).Nodup := by
  refine nodup_iff_getElem?_ne_getElem?.mpr fun i j hij hj heq => ne_of_lt hij ?_
  have hjt := getElem?_eq_getElem hj
  have hi := heq.trans hjt
  rcases h.exists_slot hi with hi' | ⟨hi', -, hne, ho⟩
  · rcases h.exists_slot hjt with hj' | ⟨-, -, -, ho⟩
    · have hlt := (List.getElem?_eq_some_iff.mp hi').1
      exact (getElem?_inj hlt h.nodup).mp (hi'.trans hj'.symm)
    · exact absurd (mem_of_getElem? hi') ho
  · rcases h.exists_slot hjt with hj' | ⟨hj', -, -, -⟩
    · exact absurd (mem_of_getElem? hj') ho
    · exact h.filled.distinct (distinct_keepLive h.nodup) _ _ _ hne hi' hj'

/-- A dead member that is kept stands in a hole that the refill has left. -/
theorem hole_of_dead (ht : tag ∈ current) (hd : live tag = false)
    (hk : tag ∈ restoreDead live current filled) : "" ∈ filled := by
  obtain ⟨i, hi⟩ := mem_iff_getElem?.mp hk
  rcases h.exists_slot hi with hold | ⟨-, -, -, ho⟩
  · rcases h.dead_slot hold hd with ⟨hh, -⟩ | ⟨node, -, hn, -, -, ho⟩
    · exact mem_of_getElem? hh
    · obtain rfl : node = tag := Option.some.inj (hn.symm.trans hi)
      exact absurd ht ho
  · exact absurd ht ho

end FirstLive

/-! ### The planner with a tolerance -/

theorem fillFastest_of_full (alive : List Candidate) (h : "" ∉ next) (inPool : List String) :
    fillFastest alive next inPool = (next, inPool) := by
  induction next with
  | nil => rfl
  | cons s next ih =>
    obtain ⟨hs, hn⟩ := not_or.mp (fun h' => h (mem_cons.mpr h'))
    rw [fillFastest, if_pos (Ne.symm hs), ih hn]

section Evict

variable {results alive : List Candidate} {tolerance : UInt16} {next inPool : List String}

theorem evict_length : (evict results alive tolerance next inPool).length = next.length := by
  induction next generalizing inPool with
  | nil => rfl
  | cons occupant next ih =>
    rw [evict]
    split
    · rw [length_cons, length_cons, ih]
    · rw [length_cons, length_cons, ih]

variable {occupant : String}

/-- The node that takes a slot is live and unused and may replace the occupant. -/
theorem replacement_spec {c : Candidate} (h : (alive.find? fun c =>
      !inPool.contains c.tag && beats tolerance (slotDelay occupant results) c) = some c) :
    c ∈ alive ∧ c.tag ∉ inPool ∧ beats tolerance (slotDelay occupant results) c := by
  have hc := find?_some h
  simp only [Bool.and_eq_true, Bool.not_eq_true', contains_eq_mem, decide_eq_false_iff_not] at hc
  exact ⟨mem_of_find?_eq_some h, hc.1, hc.2⟩

/-- Every slot keeps its occupant or takes an unused live node that may replace it. -/
theorem evict_slot {i : ℕ} (h : next[i]? = some occupant) :
    (evict results alive tolerance next inPool)[i]? = some occupant ∨
      ∃ c ∈ alive, (evict results alive tolerance next inPool)[i]? = some c.tag ∧
        c.tag ∉ inPool ∧ beats tolerance (slotDelay occupant results) c := by
  induction next generalizing inPool i with
  | nil => simp at h
  | cons first next ih =>
    rw [evict]
    cases i with
    | zero =>
      obtain rfl : first = occupant := by simpa using h
      split
      case h_1 c hf =>
        obtain ⟨hc, ho, hb⟩ := replacement_spec hf
        exact .inr ⟨c, hc, by simp, ho, hb⟩
      case h_2 => exact .inl (by simp)
    | succ i =>
      rw [getElem?_cons_succ] at h
      split
      case h_1 c hf =>
        rw [getElem?_cons_succ]
        rcases @ih (c.tag :: inPool) i h with hs | ⟨c', hc', hat, ho, hb⟩
        · exact .inl hs
        · exact .inr ⟨c', hc', hat, fun hm => ho (mem_cons_of_mem _ hm), hb⟩
      case h_2 =>
        rw [getElem?_cons_succ]
        exact ih h

theorem mem_evict (h : tag ∈ evict results alive tolerance next inPool) :
    tag ∈ next ∨ tag ∉ inPool ∧ ∃ c ∈ alive, c.tag = tag := by
  obtain ⟨i, hi⟩ := mem_iff_getElem?.mp h
  have hlt : i < next.length := by
    rw [← evict_length]
    exact (List.getElem?_eq_some_iff.mp hi).1
  rcases evict_slot (getElem?_eq_getElem hlt) with hs | ⟨c, hc, hat, ho, -⟩
  · left
    obtain rfl := Option.some.inj (hi.symm.trans hs)
    exact getElem_mem hlt
  · right
    obtain rfl := Option.some.inj (hi.symm.trans hat)
    exact ⟨ho, c, hc, rfl⟩

theorem evict_nodup (hnd : next.Nodup) (hm : ∀ tag ∈ next, tag ∈ inPool) :
    (evict results alive tolerance next inPool).Nodup := by
  induction next generalizing inPool with
  | nil => exact nodup_nil
  | cons occupant next ih =>
    obtain ⟨hocc, hnd⟩ := nodup_cons.mp hnd
    obtain ⟨hma, hm⟩ := forall_mem_cons.mp hm
    rw [evict]
    split
    case h_1 c hf =>
      obtain ⟨-, hout, -⟩ := replacement_spec hf
      refine nodup_cons.mpr
        ⟨fun hmem => ?_, ih hnd fun t ht => mem_cons_of_mem _ (hm t ht)⟩
      rcases mem_evict hmem with ho | ⟨hn, -⟩
      · exact hout (hm _ ho)
      · exact hn mem_cons_self
    case h_2 =>
      refine nodup_cons.mpr ⟨fun hmem => ?_, ih hnd hm⟩
      rcases mem_evict hmem with ho | ⟨hout, -⟩
      · exact hocc ho
      · exact hout hma

/-- A dead occupant is kept only if every live node was marked or has taken a slot. -/
theorem evict_complete {i : ℕ} (h : next[i]? = some occupant)
    (hd : (slotDelay occupant results).2 = false) (hm : ∀ tag ∈ next, tag ∈ inPool)
    (hk : (evict results alive tolerance next inPool)[i]? = some occupant) :
    ∀ c ∈ alive, c.tag ∈ inPool ∨ c.tag ∈ evict results alive tolerance next inPool := by
  induction next generalizing inPool i with
  | nil => simp at h
  | cons first next ih =>
    obtain ⟨hma, hm⟩ := forall_mem_cons.mp hm
    rw [evict] at hk ⊢
    cases hf : alive.find? fun c =>
        !inPool.contains c.tag && beats tolerance (slotDelay first results) c with
    | some c =>
      rw [hf] at hk
      dsimp only at hk ⊢
      obtain ⟨-, ho, -⟩ := replacement_spec hf
      cases i with
      | zero =>
        obtain rfl : first = occupant := by simpa using h
        obtain heq : c.tag = first := by simpa using hk
        exact absurd (heq ▸ hma) ho
      | succ i =>
        rw [getElem?_cons_succ] at h hk
        intro c' hc'
        rcases ih h (fun t ht => mem_cons_of_mem _ (hm t ht)) hk c' hc' with hin | hin
        · rcases mem_cons.mp hin with heq | hin
          · exact .inr (heq ▸ mem_cons_self)
          · exact .inl hin
        · exact .inr (mem_cons_of_mem _ hin)
    | none =>
      rw [hf] at hk
      dsimp only at hk ⊢
      cases i with
      | zero =>
        obtain rfl : first = occupant := by simpa using h
        intro c' hc'
        have hn := find?_eq_none.mp hf c' hc'
        left
        simpa [beats, hd] using hn
      | succ i =>
        rw [getElem?_cons_succ] at h hk
        intro c' hc'
        exact (ih h hm hk c' hc').imp_right (mem_cons_of_mem _)

end Evict

/-! ### The health checks -/

/-- The pool is full: a node in every slot, and none in two. -/
structure PoolOk (g : PoolGroup) (slots : List String) : Prop where
  length : slots.length = min g.pool g.outbounds.length
  nodup : slots.Nodup
  full : "" ∉ slots
  known : ∀ tag ∈ slots, tag ∈ g.outbounds

/-- A node tested faster than another by more than the tolerance of the group. -/
def Faster (g : PoolGroup) (probe : Probe) (node tag : String) : Prop :=
  ∃ d d', probe node = some d ∧ probe tag = some d' ∧ d.toNat + g.tolerance.toNat < d'.toNat

/-- What a health check does to the pool. -/
structure PoolStep (g : PoolGroup) (probe : Probe) (current next : List String) : Prop where
  /-- A live member keeps its slot index, unless there is a tolerance and a node from outside that
  is faster by more than it replaces the member in place. -/
  live : ∀ (i : ℕ) (tag : String), current[i]? = some tag → probe tag ≠ none →
    next[i]? = some tag ∨
      0 < g.tolerance ∧ ∃ node ∈ g.outbounds, node ∉ current ∧ next[i]? = some node ∧
        Faster g probe node tag
  /-- A dead member is kept only if every live node that was outside the pool now has a slot. -/
  dead : ∀ tag ∈ current, probe tag = none → tag ∈ next →
    ∀ node ∈ g.outbounds, probe node ≠ none → node ∉ current → node ∈ next
  /-- Without a tolerance no live node at all is then left outside. -/
  dead_firstLive : g.tolerance = 0 → ∀ tag ∈ current, probe tag = none → tag ∈ next →
    ∀ node ∈ g.outbounds, probe node ≠ none → node ∈ next

namespace PoolGroup

variable {g : PoolGroup} {probe : Probe} {current : List String}

theorem poolSize_eq_min (g : PoolGroup) : g.poolSize = min g.pool g.outbounds.length := by
  rw [poolSize]
  split
  · rw [min_eq_right (by omega)]
  · rw [min_eq_left (by omega)]

theorem mem_alive {c : Candidate} : c ∈ sortCandidatesByDelay ((g.results probe).filter (·.alive)) ↔
      c.tag ∈ g.outbounds ∧ probe c.tag = some c.delay ∧ c.alive = true := by
  rw [(sortCandidatesByDelay_perm _).mem_iff, mem_filter, results, mem_map]
  constructor
  · rintro ⟨⟨tag, ht, rfl⟩, ha⟩
    cases hp : probe tag with
    | none => simp [hp] at ha
    | some d => exact ⟨ht, hp, rfl⟩
  · rintro ⟨ht, hp, ha⟩
    refine ⟨⟨c.tag, ht, ?_⟩, ha⟩
    rw [hp, ← ha]

theorem slotDelay_results (ht : tag ∈ g.outbounds) :
    slotDelay tag (g.results probe) = ((probe tag).getD 0, (probe tag).isSome) := by
  have hne : tag ≠ "" := fun h => g.tagged (h ▸ ht)
  rw [slotDelay, if_neg hne]
  cases hf : (g.results probe).find? fun c => c.tag = tag with
  | none =>
    have hn := find?_eq_none.mp hf _ (mem_map_of_mem ht)
    cases hp : probe tag <;> simp [hp] at hn
  | some c =>
    obtain ⟨tag', -, rfl⟩ := mem_map.mp (mem_of_find?_eq_some hf)
    have ht' := find?_some hf
    cases hp : probe tag' with
    | none =>
      obtain rfl : tag' = tag := by simpa [hp] using ht'
      simp [hp]
    | some d =>
      obtain rfl : tag' = tag := by simpa [hp] using ht'
      simp [hp]

theorem faster_of_beats {c : Candidate} {d : UInt16} (hc : probe c.tag = some c.delay)
    (ht : probe tag = some d) (h : beats g.tolerance (d, true) c) : Faster g probe c.tag tag := by
  have hlt : c.delay.toUInt32 + g.tolerance.toUInt32 < d.toUInt32 := by simpa [beats] using h
  rw [UInt32.lt_iff_toNat_lt, UInt32.toNat_add] at hlt
  have hd := c.delay.toNat_lt
  have htol := g.tolerance.toNat_lt
  simp only [UInt16.toNat_toUInt32] at hlt
  exact ⟨c.delay, d, hc, ht, by omega⟩

theorem planTolerantPool_spec (hok : PoolOk g current) (htol : 0 < g.tolerance) :
    PoolOk g (planTolerantPool current (g.results probe) g.poolSize g.tolerance) ∧
      PoolStep g probe current
        (planTolerantPool current (g.results probe) g.poolSize g.tolerance) := by
  set alive := sortCandidatesByDelay ((g.results probe).filter (·.alive)) with ha
  have heq : planTolerantPool current (g.results probe) g.poolSize g.tolerance =
      evict (g.results probe) alive g.tolerance current (placedTags current) := by
    have hg : g.poolSize - current.length = 0 := by
      rw [hok.length, poolSize_eq_min, Nat.sub_self]
    rw [planTolerantPool, hg, replicate_zero, append_nil, fillFastest_of_full _ hok.full]
  rw [heq]
  have hm : ∀ tag ∈ current, tag ∈ placedTags current := fun tag ht =>
    mem_placedTags.mpr ⟨ht, fun h => hok.full (h ▸ ht)⟩
  have hn : ∀ tag, tag ∉ placedTags current → tag ≠ "" → tag ∉ current :=
    fun tag ht hne hmem => ht (mem_placedTags.mpr ⟨hmem, hne⟩)
  have hta : ∀ tag ∈ g.outbounds, tag ≠ "" := fun tag ht h => g.tagged (h ▸ ht)
  have hmem : ∀ tag ∈ evict (g.results probe) alive g.tolerance current (placedTags current),
      tag ∈ g.outbounds := by
    intro tag ht
    rcases mem_evict ht with ho | ⟨-, c, hc, rfl⟩
    · exact hok.known tag ho
    · exact (mem_alive.mp hc).1
  refine ⟨⟨?_, evict_nodup hok.nodup hm, fun h => hta _ (hmem _ h) rfl, hmem⟩, ?_, ?_, ?_⟩
  · rw [evict_length, hok.length]
  · intro i tag ht hl
    obtain ⟨d, hd⟩ := Option.ne_none_iff_exists'.mp hl
    rcases evict_slot ht with hs | ⟨c, hc, hat, hout, hb⟩
    · exact .inl hs
    · obtain ⟨hno, hp, -⟩ := mem_alive.mp hc
      rw [slotDelay_results (hok.known _ (mem_of_getElem? ht)), hd] at hb
      exact .inr ⟨htol, c.tag, hno, hn _ hout (hta _ hno), hat, faster_of_beats hp hd hb⟩
  · intro tag ht hdd hk node hno hl hout
    obtain ⟨d, hd⟩ := Option.ne_none_iff_exists'.mp hl
    obtain ⟨i, hi⟩ := mem_iff_getElem?.mp hk
    have hlt : i < current.length := by
      rw [← evict_length]
      exact (List.getElem?_eq_some_iff.mp hi).1
    have ho := getElem?_eq_getElem hlt
    -- The slot that holds the dead member held it before: a node that is placed was outside.
    have hs : current[i]? = some tag := by
      rcases evict_slot ho with hke | ⟨c, -, hat, hnew, -⟩
      · rw [ho, ← hke, hi]
      · obtain rfl : c.tag = tag := Option.some.inj (hat.symm.trans hi)
        exact absurd (hm _ ht) hnew
    have hde : (slotDelay tag (g.results probe)).2 = false := by
      rw [slotDelay_results (hok.known _ ht), hdd]
      rfl
    have hc : (⟨node, d, true⟩ : Candidate) ∈ alive := mem_alive.mpr ⟨hno, hd, rfl⟩
    rcases evict_complete hs hde hm hi _ hc with hin | hin
    · exact absurd (mem_placedTags.mp hin).1 hout
    · exact hin
  · intro h0
    rw [h0] at htol
    exact absurd htol (by decide)

/-- The planners without ranking on a full pool, from what their refill does. -/
theorem firstLive_spec {filled : List String} (hok : PoolOk g current)
    (hl : ∀ tag ∈ g.outbounds, live tag = (probe tag).isSome) (h : FirstLive live current filled)
    (hkn : ∀ tag ∈ filled, tag ≠ "" → tag ∈ g.outbounds)
    (hc : "" ∈ filled → ∀ node ∈ g.outbounds, live node → node ∉ current → node ∈ filled) :
    PoolOk g (restoreDead live current filled) ∧
      PoolStep g probe current (restoreDead live current filled) := by
  have hke : ∀ (i : ℕ) (tag : String), current[i]? = some tag → probe tag ≠ none →
      (restoreDead live current filled)[i]? = some tag := by
    intro i tag ht hp
    refine h.live_slot ht ?_
    rw [hl tag (hok.known _ (mem_of_getElem? ht))]
    exact Option.isSome_iff_ne_none.mpr hp
  have hd : ∀ tag ∈ current, probe tag = none → tag ∈ restoreDead live current filled →
      ∀ node ∈ g.outbounds, probe node ≠ none → node ∈ restoreDead live current filled := by
    intro tag ht hp hk node hn ha
    by_cases hin : node ∈ current
    · obtain ⟨i, hi⟩ := mem_iff_getElem?.mp hin
      exact mem_of_getElem? (hke i node hi ha)
    · have hta : live tag = false := by rw [hl tag (hok.known _ ht), hp]; rfl
      have hno : live node := by
        rw [hl node hn]
        exact Option.isSome_iff_ne_none.mpr ha
      have hm := hc (h.hole_of_dead ht hta hk) node hn hno hin
      obtain ⟨i, hi⟩ := mem_iff_getElem?.mp hm
      have hlt : i < current.length := by
        rw [← keepLive_length live current, ← h.filled.length]
        exact (List.getElem?_eq_some_iff.mp hi).1
      have hne : node ≠ "" := fun he => g.tagged (he ▸ hn)
      refine mem_of_getElem? (i := i) ?_
      rw [restoreDead_getElem? (getElem?_eq_getElem hlt) hi, if_neg fun h' => hne h'.1]
  refine ⟨⟨h.length.trans hok.length, h.restored_nodup, h.restored_full, ?_⟩,
    fun i tag ht hp => .inl (hke i tag ht hp),
    fun tag ht hp hk node hn ha _ => hd tag ht hp hk node hn ha,
    fun _ => hd⟩
  intro tag ht
  obtain ⟨i, hi⟩ := mem_iff_getElem?.mp ht
  rcases h.exists_slot hi with ho | ⟨hnew, -, hne, -⟩
  · exact hok.known tag (mem_of_getElem? ho)
  · exact hkn tag (mem_of_getElem? hnew) hne

theorem balancePoolFirstLive_spec (hok : PoolOk g current) (hs : g.poolSize ≠ 0) :
    PoolOk g (g.balancePoolFirstLive current probe g.poolSize) ∧
      PoolStep g probe current (g.balancePoolFirstLive current probe g.poolSize) := by
  let live := fun tag => (probe tag).isSome
  let candidates := g.outbounds.filter (· ∉ placedTags current)
  let kept := keepLive live current current.length
  let filled := (takeLive probe candidates (kept, 0)).1
  have hc : ∀ tag ∈ candidates, tag ∈ g.outbounds ∧ tag ≠ "" ∧ tag ∉ current := by
    intro tag ht
    obtain ⟨hm, ho⟩ := mem_filter.mp ht
    have hne : tag ≠ "" := fun h => g.tagged (h ▸ hm)
    exact ⟨hm, hne, fun h => of_decide_eq_true ho (mem_placedTags.mpr ⟨h, hne⟩)⟩
  have hnd : candidates.Nodup := g.nodup.filter _
  have hf : ∀ tag ∈ candidates, tag ∉ kept := fun tag ht hm =>
    (hc tag ht).2.2 (mem_of_mem_keepLive hm (hc tag ht).2.1).1
  have hfi : Filled (fun tag => tag ∈ candidates ∧ live tag) kept filled :=
    takeLive_filled hnd hf fun tag ht hl => ⟨ht, hl⟩
  have hfs : FirstLive live current filled :=
    ⟨hok.nodup, hok.full, hfi.mono fun tag ht => ⟨ht.2, (hc tag ht.1).2⟩⟩
  have heq : g.balancePoolFirstLive current probe g.poolSize =
      restoreDead live current filled := by
    have hma : max g.poolSize current.length = current.length := by
      rw [hok.length, poolSize_eq_min, max_self]
    rw [balancePoolFirstLive, hma, refillBatches_eq probe hs]
    split
    · next hsl => exact (restoreDead_of_full live current (emptySlot_zero_eq_none.mp hsl)).symm
    · exact dropSurplus_of_full live current hfs.restored_full _
  rw [heq]
  refine firstLive_spec hok (fun _ _ => rfl) hfs (fun tag ht hne => ?_) ?_
  · rcases hfi.mem_or ht hne with hol | ⟨hnw, -⟩
    · exact hok.known tag (mem_of_mem_keepLive hol hne).1
    · exact (hc tag hnw).1
  · intro hh node hn hl ho
    refine takeLive_complete hnd hf (fun h => (hc _ h).2.1 rfl)
      (fun i hi => absurd hi (Nat.not_lt_zero i)) hh node ?_ hl
    exact mem_filter.mpr ⟨hn, decide_eq_true fun h => ho (mem_placedTags.mp h).1⟩

theorem mem_fillOrder : tag ∈ g.fillOrder current probe ↔
      tag ∈ g.outbounds ∧ probe tag ≠ none ∧ tag ∉ placedTags current := by
  rw [fillOrder, mem_map]
  constructor
  · rintro ⟨c, hc, rfl⟩
    rw [(sortCandidatesByDelay_perm _).mem_iff, mem_filter, results, mem_map] at hc
    obtain ⟨⟨tag, ht, rfl⟩, hc⟩ := hc
    cases hp : probe tag with
    | none => simp [hp] at hc
    | some d => simp_all
  · rintro ⟨ht, hl, ho⟩
    obtain ⟨d, hd⟩ := Option.ne_none_iff_exists'.mp hl
    refine ⟨⟨tag, d, true⟩, ?_, rfl⟩
    rw [(sortCandidatesByDelay_perm _).mem_iff, mem_filter, results, mem_map]
    exact ⟨⟨tag, ht, by rw [hd]⟩, by simpa using ho⟩

theorem planFirstLivePool_spec (hok : PoolOk g current) :
    let live := fun tag => g.outbounds.contains tag && (probe tag).isSome
    PoolOk g (planFirstLivePool current live (g.fillOrder current probe) g.poolSize) ∧
      PoolStep g probe current
        (planFirstLivePool current live (g.fillOrder current probe) g.poolSize) := by
  intro live
  let order := g.fillOrder current probe
  let kept := keepLive live current current.length
  let refilled := refillHoles live (range kept.length) (kept, order, placedTags kept)
  have hou : ∀ tag, tag ≠ "" → tag ∉ placedTags current → tag ∉ current :=
    fun tag hne h hm => h (mem_placedTags.mpr ⟨hm, hne⟩)
  obtain ⟨hf, hpl⟩ : Filled (fun tag => live tag ∧ tag ≠ "" ∧ tag ∉ current)
      kept refilled.1 ∧ Placed refilled.2 refilled.1 :=
    refillHoles_filled (placed_placedTags kept) fun tag ht hne hl =>
      ⟨hl, hne, hou tag hne (mem_fillOrder.mp ht).2.2⟩
  have hfs : FirstLive live current refilled.1 := ⟨hok.nodup, hok.full, hf⟩
  have heq : planFirstLivePool current live order g.poolSize =
      restoreDead live current refilled.1 := by
    have hma : max g.poolSize current.length = current.length := by
      rw [hok.length, poolSize_eq_min, max_self]
    have hd : (keepDead live current refilled.1 refilled.2).1 =
        restoreDead live current refilled.1 := by
      refine keepDead_eq_restoreDead (hok.nodup.filter _) fun tag ht _ hd hm => ?_
      have hne : tag ≠ "" := fun h => hok.full (h ▸ ht)
      rcases hf.mem_or ((hpl tag hne).mp hm) hne with ho | ⟨-, -, hnw⟩
      · rw [(mem_of_mem_keepLive ho hne).2] at hd
        exact Bool.noConfusion hd
      · exact hnw ht
    rw [planFirstLivePool, hma]
    change keepSurplus live current (keepDead live current refilled.1 refilled.2).1 _ = _
    rw [hd]
    exact keepSurplus_of_full live current hfs.restored_full _
  rw [heq]
  have hl : ∀ tag ∈ g.outbounds, live tag = (probe tag).isSome := by
    intro tag ht
    simp [live, ht]
  refine firstLive_spec hok hl hfs (fun tag ht hne => ?_) ?_
  · rcases hf.mem_or ht hne with ho | ⟨hnw, -⟩
    · exact hok.known tag (mem_of_mem_keepLive ho hne).1
    · exact contains_iff_mem.mp (Bool.and_eq_true_iff.mp hnw).1
  · intro hh node hn hno hnd
    have hne : node ≠ "" := fun h => g.tagged (h ▸ hn)
    have hm : node ∈ order := by
      refine mem_fillOrder.mpr ⟨hn, ?_, fun h => hnd (mem_placedTags.mp h).1⟩
      rw [hl node hn] at hno
      exact Option.isSome_iff_ne_none.mp hno
    refine refillHoles_complete (placed_placedTags kept) (fun tag ht _ _ => .inl ht)
      (fun i hi hh => ?_) hh node hm hne hno
    exact absurd (List.mem_range.mpr (List.getElem?_eq_some_iff.mp hh).1) hi

/-- Every health check of a full pool leaves it full and meets the specification of a step. -/
theorem step_spec (hok : PoolOk g current) (check : Check) :
    PoolOk g (g.step current check) ∧ PoolStep g check.probe current (g.step current check) := by
  by_cases hs : g.poolSize = 0
  · have hn : current = [] := by
      rw [← length_eq_zero_iff, hok.length, ← poolSize_eq_min, hs]
    have hsa : g.step current check = current := by
      cases check with
      | lazy probe => rw [step, balancePool, if_pos hs]
      | forced probe => rw [step, rebuildPool, if_pos hs]
    rw [hsa]
    subst hn
    exact ⟨hok, by simp, by simp, by simp⟩
  · by_cases h0 : g.tolerance = 0
    · have hnot : ¬ 0 < g.tolerance := by
        rw [h0]
        decide
      cases check with
      | lazy probe =>
        rw [step, balancePool, if_neg hs, if_neg hnot]
        exact balancePoolFirstLive_spec hok hs
      | forced probe =>
        rw [step, rebuildPool, if_neg hs, if_pos h0]
        exact planFirstLivePool_spec hok
    · have hpos : 0 < g.tolerance := UInt16.pos_iff_ne_zero.mpr h0
      cases check with
      | lazy probe =>
        rw [step, balancePool, if_neg hs, if_pos hpos]
        exact planTolerantPool_spec hok hpos
      | forced probe =>
        rw [step, rebuildPool, if_neg hs, if_neg h0]
        exact planTolerantPool_spec hok hpos

theorem results_map_tag (g : PoolGroup) (probe : Probe) :
    (g.results probe).map (·.tag) = g.outbounds := by
  rw [results, map_map]
  refine (map_congr_left fun tag _ => ?_).trans (map_id g.outbounds)
  dsimp only [Function.comp_apply]
  cases probe tag <;> rfl

theorem seedPool_ok (g : PoolGroup) (history : Probe) : PoolOk g (g.seedPool history) := by
  let withHistory :=
    (sortCandidatesByDelay ((g.results history).filter (·.alive))).map (·.tag)
  let next := withHistory.take g.poolSize
  let rest := g.outbounds.filter (· ∉ next)
  have hp : withHistory.Perm (((g.results history).filter (·.alive)).map (·.tag)) :=
    (sortCandidatesByDelay_perm _).map _
  have hs : List.Sublist (((g.results history).filter (·.alive)).map (·.tag))
      g.outbounds := by
    rw [← results_map_tag g history]
    exact filter_sublist.map _
  have hn : next.Nodup :=
    (hp.nodup_iff.mpr (g.nodup.sublist hs)).sublist (take_sublist _ _)
  have hkn : ∀ tag ∈ next, tag ∈ g.outbounds := fun tag ht =>
    hs.subset (hp.subset (mem_of_mem_take ht))
  have hd : List.Disjoint next rest := fun tag ht hr =>
    of_decide_eq_true (mem_filter.mp hr).2 ht
  have hr : rest.Nodup := g.nodup.filter _
  -- The nodes are those chosen by their history and the others.
  have ha : (next ++ rest).Perm g.outbounds := by
    refine (perm_ext_iff_of_nodup (hn.append hr hd) g.nodup).mpr fun tag => ?_
    rw [mem_append, mem_filter]
    by_cases ht : tag ∈ next
    · simp [ht, hkn tag ht]
    · simp [ht]
  have hlen : next.length + rest.length = g.outbounds.length := by
    rw [← length_append, ha.length_eq]
  have hsh : next.length ≤ g.poolSize := length_take_le _ _
  have hsi := poolSize_eq_min g
  have hm : ∀ tag ∈ next ++ rest.take (g.poolSize - next.length), tag ∈ g.outbounds := by
    intro tag ht
    rcases mem_append.mp ht with ht | ht
    · exact hkn tag ht
    · exact (mem_filter.mp (mem_of_mem_take ht)).1
  change PoolOk g (next ++ rest.take (g.poolSize - next.length))
  refine ⟨?_, ?_, fun h => g.tagged (hm _ h), hm⟩
  · have hta : (rest.take (g.poolSize - next.length)).length =
        min (g.poolSize - next.length) rest.length := length_take
    rw [length_append, hta, ← hsi]
    omega
  · refine hn.append (hr.sublist (take_sublist _ _)) fun tag ht hl => ?_
    exact hd ht (mem_of_mem_take hl)

/-- In every run from the seeded pool, the pool has `min pool nodes` slots, a node in each of them
and no node in two, and every health check keeps live members in their slots, up to faster nodes
that replace them in place under a tolerance, and keeps dead members only for want of live nodes
from outside. -/
theorem pool_run (g : PoolGroup) (history : Probe) (checks : ℕ → Check) (n : ℕ) :
    PoolOk g (run g.step (g.seedPool history) checks n) ∧
      PoolStep g (checks n).probe (run g.step (g.seedPool history) checks n)
        (run g.step (g.seedPool history) checks (n + 1)) := by
  have hok : PoolOk g (run g.step (g.seedPool history) checks n) :=
    run_invariant (seedPool_ok g history) (fun _ chk h => (step_spec h chk).1) n
  exact ⟨hok, (step_spec hok (checks n)).2⟩

/-- Two slots over three nodes, with a tolerance of 50. -/
def tolerantGroup : PoolGroup where
  outbounds := ["a", "b", "c"]
  pool := 2
  tolerance := 50
  nodup := by decide
  tagged := by decide

/-- Member `a` is slow, member `b` is dead and `c` is fast. -/
def slowDeadFast : Probe
  | "a" => some 1000
  | "c" => some 10
  | _ => none

/-- The fast node evicts the slow live member and nothing is left for the slot of the dead one: it
is kept although the evicted node, which is alive, stands outside the pool. -/
theorem dead_member_beside_live_node :
    let pool := run tolerantGroup.step (tolerantGroup.seedPool fun _ => none)
      fun _ => .lazy slowDeadFast
    pool 0 = ["a", "b"] ∧ pool 1 = ["c", "b"] ∧ slowDeadFast "b" = none ∧
      "a" ∈ tolerantGroup.outbounds ∧ slowDeadFast "a" ≠ none ∧ "a" ∉ pool 1 := by
  decide

end PoolGroup

end SingBox.URLTest
