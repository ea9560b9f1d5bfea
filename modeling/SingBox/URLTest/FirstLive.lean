import SingBox.URLTest.PoolRun

/-!
# The lazy check and the planner without ranking

Both write nodes into holes from the left, first live nodes from outside the pool and then dead
members. The lazy check goes through the nodes with a cursor and a batch of tests at a time. The
planner goes through the slots, and through its fill order for each hole; it skips a node that it
has placed. The lazy check has no such test and needs none: `NewURLTest` refuses a group that lists
a node twice, so no node comes up again.
-/

namespace SingBox.URLTest

open List

/-! ### Holes -/

/-- The holes get the nodes of the list, from the left. -/
def fillHoles : List String → List String → List String
  | [], _ => []
  | s :: next, order =>
    if s ≠ "" then s :: fillHoles next order
    else
      match order with
      | [] => s :: next
      | tag :: order => tag :: fillHoles next order

theorem fillHoles_taken {s : String} (hs : s ≠ "") (next order : List String) :
    fillHoles (s :: next) order = s :: fillHoles next order := by
  cases order <;> simp [fillHoles, hs]

@[simp] theorem fillHoles_nil (next : List String) : fillHoles next [] = next := by
  induction next with
  | nil => rfl
  | cons s next ih =>
    rw [fillHoles, ih]
    split_ifs <;> rfl

variable {live : String → Bool} {next : List String} {tag : String} {current : List String}

theorem fillHoles_of_full (h : "" ∉ next) (order : List String) : fillHoles next order = next := by
  induction next with
  | nil => rfl
  | cons s next ih =>
    obtain ⟨hs, hn⟩ := not_or.mp (fun h' => h (mem_cons.mpr h'))
    rw [fillHoles_taken (Ne.symm hs), ih hn]

theorem fillHoles_first {slot : ℕ} (hsl : next[slot]? = some "")
    (hf : ∀ i < slot, next[i]? ≠ some "") (ht : tag ≠ "") (order : List String) :
    fillHoles next (tag :: order) = fillHoles (next.set slot tag) order := by
  induction next generalizing slot with
  | nil => simp at hsl
  | cons s next ih =>
    cases slot with
    | zero =>
      obtain rfl : s = "" := by simpa using hsl
      simp [fillHoles, ht]
    | succ slot =>
      have hs : s ≠ "" := fun hs => hf 0 (Nat.succ_pos slot) (by simp [hs])
      rw [set_cons_succ, fillHoles_taken hs, fillHoles_taken hs]
      refine congrArg (s :: ·) (ih (by simpa using hsl) fun i hi => ?_)
      simpa using hf (i + 1) (Nat.succ_lt_succ hi)

/-! ### The live nodes -/

/-- No hole stands before the cursor. -/
def Passed (next : List String) (cursor : ℕ) : Prop :=
  ∀ i < cursor, next[i]? ≠ some ""

theorem Passed.set {slot : ℕ} (h : Passed next slot) (hlt : slot < next.length) (ht : tag ≠ "") :
    Passed (next.set slot tag) (slot + 1) := by
  intro i hi
  rcases Nat.lt_succ_iff_lt_or_eq.mp hi with hlt' | rfl
  · rw [getElem?_set_ne (Nat.ne_of_gt hlt')]
    exact h i hlt'
  · rw [getElem?_set_self hlt]
    exact fun heq => ht (Option.some.inj heq)

theorem Passed.emptySlot {cu slot : ℕ} (h : Passed next cu)
    (hs : emptySlot next cu = some slot) : Passed next slot := by
  intro i hi
  rcases Nat.lt_or_ge i cu with hlt | hge
  · exact h i hlt
  · exact emptySlot_first hs hge hi

theorem Passed.full {cu : ℕ} (h : Passed next cu)
    (hn : URLTest.emptySlot next cu = none) : "" ∉ next := by
  intro hm
  obtain ⟨i, hi⟩ := mem_iff_getElem?.mp hm
  rcases Nat.lt_or_ge i cu with hlt | hge
  · exact h i hlt hi
  · exact emptySlot_eq_none hn hge hi

theorem passed_zero (next : List String) : Passed next 0 := fun _ h => absurd h (Nat.not_lt_zero _)

theorem takeLive_eq_fillHoles (tested : Probe) {batch next : List String} {fill : ℕ}
    (hb : "" ∉ batch) (hp : Passed next fill) : (takeLive tested batch (next, fill)).1 =
      fillHoles next (batch.filter fun tag => (tested tag).isSome) := by
  induction batch generalizing next fill with
  | nil => simp [takeLive]
  | cons tag batch ih =>
    obtain ⟨ht, hb⟩ := not_or.mp (fun h => hb (mem_cons.mpr h))
    rw [takeLive]
    cases hsl : emptySlot next fill with
    | none => exact (fillHoles_of_full (hp.full hsl) _).symm
    | some slot =>
      have hat := (emptySlot_eq_some hsl).2
      have hs := hp.emptySlot hsl
      dsimp only
      by_cases hl : (tested tag).isSome
      · rw [if_pos hl, filter_cons, if_pos hl, fillHoles_first hat hs (Ne.symm ht)]
        exact ih hb (hs.set (List.getElem?_eq_some_iff.mp hat).1 (Ne.symm ht))
      · rw [if_neg hl, filter_cons, if_neg hl]
        exact ih hb hp

/-- The nodes of the fill order that the planner places if there is room. -/
def fresh (live : String → Bool) (placed : List String) : List String → List String
  | [] => []
  | tag :: order =>
    if tag ≠ "" ∧ live tag ∧ tag ∉ placed then tag :: fresh live (tag :: placed) order
    else fresh live placed order

theorem fresh_nextFill (live : String → Bool) (placed order : List String) :
    fresh live placed order =
      match nextFill live placed order with
      | (some tag, order') => tag :: fresh live (tag :: placed) order'
      | (none, _) => [] := by
  induction order with
  | nil => rfl
  | cons tag order ih =>
    rw [fresh, nextFill]
    split_ifs
    · rfl
    · exact ih

theorem nextFill_exhausted {placed order order' : List String}
    (h : nextFill live placed order = (none, order')) : order' = [] := by
  induction order with
  | nil => exact (Prod.mk.inj h).2.symm
  | cons tag order ih =>
    rw [nextFill] at h
    split_ifs at h
    · cases h
    · exact ih h

theorem refillHoles_nil (live : String → Bool) (is : List ℕ) (next placed : List String) :
    (refillHoles live is (next, [], placed)).1 = next := by
  induction is with
  | nil => rfl
  | cons i is ih =>
    rw [refillHoles]
    split_ifs <;> exact ih

theorem refillHoles_eq_fillHoles (live : String → Bool) {i n : ℕ} (hl : i + n = next.length)
    (hp : Passed next i) (order placed : List String) :
    (refillHoles live (range' i n) (next, order, placed)).1 =
      fillHoles next (fresh live placed order) := by
  induction n generalizing next i order placed with
  | zero =>
    refine (fillHoles_of_full (fun hm => ?_) _).symm
    obtain ⟨j, hj⟩ := mem_iff_getElem?.mp hm
    have hlt : j < next.length := (List.getElem?_eq_some_iff.mp hj).1
    exact hp j (by omega) hj
  | succ n ih =>
    rw [range'_succ, refillHoles]
    by_cases hi : next[i]? = some ""
    · rw [if_pos hi, fresh_nextFill]
      rcases hf : nextFill live placed order with ⟨_ | tag, order'⟩
      · -- The fill order has run out, for this hole and for the others.
        obtain rfl := nextFill_exhausted hf
        simp only [refillHoles_nil, fillHoles_nil]
      · obtain ⟨-, ⟨ht, -, -⟩, -⟩ := nextFill_some hf
        have hlt : i < next.length := (List.getElem?_eq_some_iff.mp hi).1
        dsimp only
        rw [fillHoles_first hi hp ht]
        exact ih (by rw [length_set]; omega) (hp.set hlt ht) _ _
    · rw [if_neg hi]
      refine ih (by omega) (fun j hj => ?_) _ _
      rcases Nat.lt_succ_iff_lt_or_eq.mp hj with hlt | rfl
      · exact hp j hlt
      · exact hi

/-- The planner places all of a fill order of distinct live nodes that are not placed yet. -/
theorem fresh_eq_self {placed order : List String}
    (hlive : ∀ tag ∈ order, tag ≠ "" ∧ live tag = true ∧ tag ∉ placed) (hnodup : order.Nodup) :
    fresh live placed order = order := by
  induction order generalizing placed with
  | nil => rfl
  | cons tag order ih =>
    obtain ⟨htag, hlive⟩ := forall_mem_cons.mp hlive
    obtain ⟨hnew, hnodup⟩ := nodup_cons.mp hnodup
    rw [fresh, if_pos htag]
    refine congrArg (tag :: ·) (ih (fun t ht => ?_) hnodup)
    obtain ⟨hne, hl, hplaced⟩ := hlive t ht
    refine ⟨hne, hl, fun hm => ?_⟩
    rcases mem_cons.mp hm with rfl | hm
    · exact hnew ht
    · exact hplaced hm

/-! ### The dead members -/

/-- The dead members outside `placed`, in slot order. -/
def surplus (live : String → Bool) (current placed : List String) : List String :=
  current.filter fun tag => tag ≠ "" && !live tag && !placed.contains tag

variable {current placed : List String}

theorem surplus_congr (live : String → Bool) (current : List String) {placed placed' : List String}
    (h : ∀ tag, tag ≠ "" → (tag ∈ placed ↔ tag ∈ placed')) :
    surplus live current placed = surplus live current placed' := by
  refine filter_congr fun tag _ => ?_
  by_cases hne : tag = ""
  · simp [hne]
  · simp [h tag hne]

theorem surplus_cons (h : tag ∉ current) :
    surplus live current (tag :: placed) = surplus live current placed := by
  refine filter_congr fun t ht => ?_
  have hne : t ≠ tag := fun heq => h (heq ▸ ht)
  simp [hne]

theorem dropSurplus_eq_fillHoles (hc : (placedTags current).Nodup) (next placed : List String) :
    dropSurplus live current (next, placed) = fillHoles next (surplus live current placed) := by
  induction current generalizing next placed with
  | nil => simp [dropSurplus, surplus]
  | cons tag current ih =>
    rw [dropSurplus]
    cases hs : emptySlot next 0 with
    | none => exact (fillHoles_of_full (emptySlot_zero_eq_none.mp hs) _).symm
    | some slot =>
      dsimp only
      split_ifs with ht
      · obtain ⟨hne, hd, ho⟩ := ht
        rw [placedTags, filter_cons, if_pos (by simpa using hne)] at hc
        obtain ⟨hn, hc⟩ := nodup_cons.mp hc
        have hh : surplus live (tag :: current) placed =
            tag :: surplus live current placed := by
          rw [surplus, filter_cons, if_pos (by simp [hne, hd, ho]), ← surplus]
        rw [hh, fillHoles_first (emptySlot_eq_some hs).2
          ((passed_zero next).emptySlot hs) hne, ih hc]
        rw [surplus_cons fun hm => hn (mem_placedTags.mpr ⟨hm, hne⟩)]
      · have hsk : surplus live (tag :: current) placed = surplus live current placed := by
          rw [surplus, filter_cons, if_neg (by simpa using ht), ← surplus]
        rw [hsk]
        refine ih (hc.sublist ?_) _ _
        exact (sublist_cons_self tag current).filter _

theorem keepSurplus_eq_fillHoles (hc : (placedTags current).Nodup) (next placed : List String) :
    keepSurplus live current next placed = fillHoles next (surplus live current placed) := by
  induction next generalizing placed with
  | nil => rfl
  | cons s next ih =>
    by_cases hs : s = ""
    · subst hs
      rw [keepSurplus, if_neg (by simp)]
      have hh : (surplus live current placed).head? = current.find? fun tag =>
          tag ≠ "" && !live tag && !placed.contains tag := head?_filter
      rw [← hh]
      cases hl : surplus live current placed with
      | nil =>
        have hn := ih placed
        rw [hl, fillHoles_nil] at hn
        simp [hn]
      | cons tag rest =>
        have hm : tag ∈ surplus live current placed := hl ▸ mem_cons_self
        -- The next search skips `tag`, which stands in `current` once.
        have hr : surplus live current (tag :: placed) = rest := by
          have hsp : surplus live current (tag :: placed) =
              (surplus live current placed).filter (· ≠ tag) := by
            rw [surplus, surplus, filter_filter]
            refine filter_congr fun t _ => ?_
            by_cases ht : t = tag
            · simp [ht]
            · simp [ht]
          have hnd : (surplus live current placed).Nodup := by
            refine hc.sublist ?_
            rw [placedTags, surplus]
            refine monotone_filter_right _ fun t ht => ?_
            simp only [Bool.and_eq_true] at ht
            exact ht.1.1
          rw [hsp, hl]
          rw [hl] at hnd
          obtain ⟨hnew, -⟩ := nodup_cons.mp hnd
          rw [filter_cons, if_neg (by simp)]
          exact filter_eq_self.mpr fun t ht => by
            simpa using fun heq : t = tag => hnew (heq ▸ ht)
        simp only [head?_cons, fillHoles, ih, hr]
        simp
    · rw [keepSurplus, if_pos hs, fillHoles_taken hs, ih]

/-- `keepDead` marks just the members that it writes. -/
theorem keepDead_placed (live : String → Bool) (current : List String) {next placed : List String}
    (h : Placed placed next) :
    Placed (keepDead live current next placed).2 (keepDead live current next placed).1 := by
  have hm : ∀ tag, tag ≠ "" →
      (tag ∈ (keepDead live current next placed).2 ∨ tag ∈ next ↔
        tag ∈ (keepDead live current next placed).1 ∨ tag ∈ placed) ∧
      (tag ∈ placed → tag ∈ (keepDead live current next placed).2) ∧
      (tag ∈ next → tag ∈ (keepDead live current next placed).1) := by
    intro tag hne
    clear h
    induction current generalizing next placed with
    | nil => simp [keepDead, or_comm]
    | cons first current ih =>
      cases next with
      | nil => simp [keepDead]
      | cons s next =>
        rw [keepDead]
        split_ifs with hwr
        · obtain ⟨hi, hpl, hn⟩ := @ih next (first :: placed)
          obtain ⟨rfl, -⟩ := hwr
          simp only [mem_cons, hne, false_or] at hi hpl ⊢
          exact ⟨by grind, fun h => hpl (Or.inr h), fun h => Or.inr (hn h)⟩
        · obtain ⟨hi, hpl, hn⟩ := @ih next placed
          simp only [mem_cons]
          exact ⟨by grind, hpl, fun h => h.imp_right hn⟩
  intro tag hne
  obtain ⟨hi, hpl, hn⟩ := hm tag hne
  have hs := h tag hne
  grind

/-- The second half of both: holes that are left get their dead occupants back, and then dead
members that have no slot. -/
def giveBack (live : String → Bool) (current filled : List String) : List String :=
  fillHoles (restoreDead live current filled)
    (surplus live current (restoreDead live current filled))

/-! ### The two checks -/

/-- The lazy check of a group with these nodes, in batches of the given size. -/
def firstLiveCheck (nodes current : List String) (probe : Probe) (batch size : ℕ) : List String :=
  let live := fun tag => (probe tag).isSome
  let next := keepLive live current (max size current.length)
  let candidates := nodes.filter (· ∉ placedTags current)
  let filled := (refillBatches probe batch candidates (next, 0)).1
  match emptySlot filled 0 with
  | none => filled
  | some _ =>
    let restored := restoreDead live current filled
    dropSurplus live current (restored, placedTags restored)

theorem PoolGroup.balancePoolFirstLive_eq (g : PoolGroup) (current : List String) (probe : Probe)
    (size : ℕ) : g.balancePoolFirstLive current probe size =
      firstLiveCheck g.outbounds current probe size size := rfl

/-- The live nodes outside the pool, in configuration order. -/
def fillNodes (nodes current : List String) (probe : Probe) : List String :=
  nodes.filter fun tag => (probe tag).isSome && !(placedTags current).contains tag

section Checks

variable {nodes current : List String} {probe : Probe}

theorem mem_fillNodes : tag ∈ fillNodes nodes current probe ↔
      tag ∈ nodes ∧ (probe tag).isSome = true ∧ tag ∉ placedTags current := by
  simp [fillNodes]

theorem mem_keepLive {slotCount : ℕ} (htag : tag ≠ "") (h : tag ∈ keepLive live current slotCount) :
    tag ∈ current ∧ live tag = true := by
  obtain ⟨t, ht, heq⟩ := mem_map.mp h
  split_ifs at heq with hl
  · subst heq
    refine ⟨(mem_append.mp ht).resolve_right fun hr => ?_, hl.2⟩
    exact htag (eq_of_mem_replicate hr)
  · exact absurd heq.symm htag

theorem firstLiveCheck_eq_giveBack (hns : "" ∉ nodes) (hcur : (placedTags current).Nodup)
    {batch : ℕ} (hb : batch ≠ 0) (size : ℕ) : firstLiveCheck nodes current probe batch size =
      giveBack (fun tag => (probe tag).isSome) current
        (fillHoles (keepLive (fun tag => (probe tag).isSome) current (max size current.length))
          (fillNodes nodes current probe)) := by
  have hc : "" ∉ nodes.filter (· ∉ placedTags current) :=
    fun h => hns (mem_of_mem_filter h)
  have hfi : (nodes.filter (· ∉ placedTags current)).filter (fun tag => (probe tag).isSome) =
      fillNodes nodes current probe := by
    rw [fillNodes, filter_filter]
    refine filter_congr fun tag _ => ?_
    simp
  rw [firstLiveCheck, refillBatches_eq probe hb, takeLive_eq_fillHoles probe hc
    (passed_zero _), hfi]
  dsimp only
  split
  next hf =>
    have hf := emptySlot_zero_eq_none.mp hf
    rw [giveBack, restoreDead_of_full _ _ hf, fillHoles_of_full hf]
  next =>
    rw [dropSurplus_eq_fillHoles hcur, giveBack]
    refine congrArg _ (surplus_congr _ _ fun tag hne => ?_)
    simp [mem_placedTags, hne]

theorem planFirstLivePool_eq_giveBack (hc : (placedTags current).Nodup) (order : List String)
    (size : ℕ) : planFirstLivePool current live order size = giveBack live current
        (fillHoles (keepLive live current (max size current.length))
          (fresh live (placedTags (keepLive live current (max size current.length))) order)) := by
  rw [planFirstLivePool]
  set next := keepLive live current (max size current.length) with hn
  have hfi := refillHoles_eq_fillHoles live (Nat.zero_add next.length) (passed_zero next) order
    (placedTags next)
  rw [← range_eq_range'] at hfi
  obtain ⟨hf, hpl⟩ := @refillHoles_filled live (fun tag => live tag = true)
    (range next.length) next order _ (placed_placedTags next) fun tag _ _ hl => hl
  rw [← hfi]
  set filled := refillHoles live (range next.length) (next, order, placedTags next)
  -- Every node that is placed so far is live.
  have hfr : ∀ tag ∈ current, tag ≠ "" → live tag = false → tag ∉ filled.2 := by
    intro tag _ hne hd hmem
    rcases hf.mem_or ((hpl tag hne).mp hmem) hne with ho | hl
    · rw [(mem_keepLive hne ho).2] at hd
      cases hd
    · rw [hl] at hd
      cases hd
  have hk : (keepDead live current filled.1 filled.2).1 = restoreDead live current filled.1 :=
    keepDead_eq_restoreDead hc hfr
  have hm := keepDead_placed live current hpl
  rw [keepSurplus_eq_fillHoles hc, giveBack, ← hk]
  exact congrArg _ (surplus_congr _ _ hm)

/-- The nodes of a group that come up for the holes are distinct, live and not placed. -/
theorem fresh_fillNodes (g : PoolGroup) (current : List String) (probe : Probe) (slotCount : ℕ) :
    let live := fun tag => (probe tag).isSome
    fresh live (placedTags (keepLive live current slotCount))
      (fillNodes g.outbounds current probe) = fillNodes g.outbounds current probe := by
  intro live
  refine fresh_eq_self (fun tag ht => ?_) (g.nodup.filter _)
  obtain ⟨hnode, hlive, hout⟩ := mem_fillNodes.mp ht
  refine ⟨fun h => g.tagged (h ▸ hnode), hlive, fun hplaced => hout ?_⟩
  obtain ⟨hm, hne⟩ := mem_placedTags.mp hplaced
  exact mem_placedTags.mpr ⟨(mem_keepLive hne hm).1, hne⟩

end Checks

/-- **The lazy check and the planner agree.** For every group, every occupancy without repeated
tags and every set of nodes that answer, in batches of any size; `balancePoolFirstLive` tests as
many nodes at a time as the pool has slots. -/
theorem PoolGroup.balancePoolFirstLive_eq_planFirstLivePool (g : PoolGroup) {current : List String}
    (hcurrent : (placedTags current).Nodup) (probe : Probe) {size : ℕ} (hsize : size ≠ 0) :
    let plan := planFirstLivePool current (fun tag => (probe tag).isSome)
      (fillNodes g.outbounds current probe) size
    g.balancePoolFirstLive current probe size = plan ∧
      ∀ batch, batch ≠ 0 → firstLiveCheck g.outbounds current probe batch size = plan := by
  intro plan
  have hbatch : ∀ batch, batch ≠ 0 →
      firstLiveCheck g.outbounds current probe batch size = plan := by
    intro batch hbatch
    rw [firstLiveCheck_eq_giveBack g.tagged hcurrent hbatch]
    simp only [plan]
    rw [planFirstLivePool_eq_giveBack hcurrent, fresh_fillNodes]
  exact ⟨(g.balancePoolFirstLive_eq current probe size).trans (hbatch size hsize), hbatch⟩

/-- A live member, a dead one and an empty slot, and two live nodes outside: the holes get them,
and the dead member has no slot any more. -/
theorem balancePoolFirstLive_eq_planFirstLivePool_refill :
    let g : PoolGroup := ⟨["a", "b", "c", "d", "e"], 3, 0, by decide, by decide⟩
    let probe : Probe := fun tag => if tag ∈ ["a", "c", "d"] then some 10 else none
    g.balancePoolFirstLive ["a", "e", ""] probe 3 = ["a", "c", "d"] ∧
      firstLiveCheck g.outbounds ["a", "e", ""] probe 1 3 =
        planFirstLivePool ["a", "e", ""] (fun tag => (probe tag).isSome)
          (fillNodes g.outbounds ["a", "e", ""] probe) 3 := by
  intro g probe
  have h := @PoolGroup.balancePoolFirstLive_eq_planFirstLivePool g ["a", "e", ""] (by decide)
    probe 3 (by decide)
  exact ⟨by decide +kernel, h.2 1 (by decide)⟩

end SingBox.URLTest
