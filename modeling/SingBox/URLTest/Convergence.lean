import SingBox.URLTest.PoolRun

/-!
# The tolerant pool comes to rest

With a tolerance the pool is planned from the delays of all nodes. Empty slots get the fastest nodes
outside the pool. Then each slot is given to the fastest node outside, if its own node is dead or
slower by more than the tolerance. A node that was replaced is not offered to the later slots of the
same round.

The results are a map, which the code goes through in any order: each round has its own order of the
entries.
-/

namespace SingBox.URLTest

open Foundation List

/-- Results of nodes: the tags are distinct, and none is empty. -/
structure Results where
  entries : List Candidate
  nodup : (entries.map Candidate.tag).Nodup
  tagged : "" ∉ entries.map Candidate.tag

/-! ### The order of the results -/

/-- The comparison of `sortCandidatesByDelay`: `a` stays before `b`. -/
def Candidate.Before (a b : Candidate) : Prop :=
  a.delay < b.delay ∨ (a.delay = b.delay ∧ ¬ b.tag < a.tag)

theorem before_iff {a b : Candidate} : a.Before b ↔
    a.delay.toNat < b.delay.toNat ∨ a.delay.toNat = b.delay.toNat ∧ a.tag ≤ b.tag := by
  rw [Candidate.Before, UInt16.lt_iff_toNat_lt, UInt16.toNat_inj, String.not_lt]

theorem before_total {a b : Candidate} (h : ¬ a.Before b) : b.Before a := by
  rw [before_iff] at h ⊢
  obtain ⟨hd, ht⟩ := not_or.mp h
  by_cases heq : a.delay.toNat = b.delay.toNat
  · exact .inr ⟨heq.symm, (String.le_total _ _).resolve_left fun hle => ht ⟨heq, hle⟩⟩
  · exact .inl (by omega)

theorem before_trans {a b c : Candidate} (hab : a.Before b) (hbc : b.Before c) : a.Before c := by
  rw [before_iff] at *
  rcases hab with hab | ⟨hab, ht⟩ <;> rcases hbc with hbc | ⟨hbc, ht'⟩
  · exact .inl (by omega)
  · exact .inl (by omega)
  · exact .inl (by omega)
  · exact .inr ⟨hab.trans hbc, String.le_trans ht ht'⟩

variable {c : Candidate}

theorem sinkCandidate_pairwise {sorted : List Candidate}
    (h : sorted.Pairwise fun a b => b.Before a) :
    (sinkCandidate c sorted).Pairwise fun a b => b.Before a := by
  induction sorted with
  | nil => exact pairwise_singleton _ _
  | cons a sorted ih =>
    obtain ⟨ha, hs⟩ := pairwise_cons.mp h
    rw [sinkCandidate]
    split_ifs with hac
    · refine pairwise_cons.mpr ⟨fun b hb => ?_, h⟩
      rcases mem_cons.mp hb with rfl | hb
      · exact hac
      · exact before_trans (ha b hb) hac
    · refine pairwise_cons.mpr ⟨fun b hb => ?_, ih hs⟩
      rcases mem_cons.mp ((sinkCandidate_perm c sorted).subset hb) with rfl | hb
      · exact before_total hac
      · exact ha b hb

theorem sortCandidatesByDelay_pairwise (cs : List Candidate) :
    (sortCandidatesByDelay cs).Pairwise Candidate.Before := by
  have hf : ∀ sorted : List Candidate, sorted.Pairwise (fun a b => b.Before a) →
      (cs.foldl (fun sorted c => sinkCandidate c sorted) sorted).Pairwise
        fun a b => b.Before a := by
    induction cs with
    | nil => exact fun _ h => h
    | cons c cs ih => exact fun sorted h => ih _ (sinkCandidate_pairwise h)
  rw [sortCandidatesByDelay, pairwise_reverse]
  exact hf [] List.Pairwise.nil

variable {cs cs' : List Candidate}

open Candidate Nat

theorem sortCandidatesByDelay_eq (h : cs.Perm cs') (ht : (cs.map tag).Nodup) :
    sortCandidatesByDelay cs = sortCandidatesByDelay cs' := by
  have hp : (sortCandidatesByDelay cs).Perm (sortCandidatesByDelay cs') :=
    (sortCandidatesByDelay_perm cs).trans (h.trans (sortCandidatesByDelay_perm cs').symm)
  refine List.Perm.eq_of_pairwise (fun a b ha hb hab hba => ?_) (sortCandidatesByDelay_pairwise cs)
    (sortCandidatesByDelay_pairwise cs') hp
  have ha' : a ∈ cs := (sortCandidatesByDelay_perm cs).subset ha
  have hb' : b ∈ cs := h.symm.subset ((sortCandidatesByDelay_perm cs').subset hb)
  refine inj_on_of_nodup_map ht ha' hb' ?_
  rw [before_iff] at hab hba
  rcases hab with hab | ⟨_, hab⟩ <;> rcases hba with hba | ⟨_, hba⟩
  · omega
  · omega
  · omega
  · exact String.le_antisymm hab hba

theorem find?_tag_perm (h : cs.Perm cs') (hta : (cs.map tag).Nodup) (tag : String) :
    cs.find? (fun c => c.tag = tag) = cs'.find? fun c => c.tag = tag := by
  have ht' : (cs'.map Candidate.tag).Nodup := (h.map _).nodup_iff.mp hta
  have hm : ∀ {ds : List Candidate}, (ds.map Candidate.tag).Nodup → ∀ c,
      ds.find? (fun c => c.tag = tag) = some c ↔ c ∈ ds ∧ c.tag = tag := by
    intro ds hds c
    constructor
    · intro hc
      exact ⟨mem_of_find?_eq_some hc, by simpa using find?_some hc⟩
    · rintro ⟨hc, ht⟩
      obtain ⟨d, hd⟩ : ∃ d, ds.find? (fun c => c.tag = tag) = some d :=
        Option.isSome_iff_exists.mp (find?_isSome.mpr ⟨c, hc, by simpa using ht⟩)
      have hdt : d.tag = tag := by simpa using find?_some hd
      rw [hd, inj_on_of_nodup_map hds (mem_of_find?_eq_some hd) hc (hdt.trans ht.symm)]
  refine Option.ext fun c => ?_
  rw [hm hta, hm ht', h.mem_iff]

variable {entries entries' : List Candidate}

theorem slotDelay_perm (h : entries.Perm entries') (ht : (entries.map tag).Nodup)
    (slot : String) : slotDelay slot entries = slotDelay slot entries' := by
  rw [slotDelay, slotDelay, find?_tag_perm h ht]

/-! ### One loop over the slots -/

/-- A loop over the slots: each gets the first live node that is not in the pool and that it
`takes`. -/
def sweep (alive : List Candidate) (takes : String → Candidate → Bool) :
    List String → List String → List String × List String
  | [], inPool => ([], inPool)
  | slot :: slots, inPool =>
    match alive.find? fun c => !inPool.contains c.tag && takes slot c with
    | some c =>
      let r := sweep alive takes slots (c.tag :: inPool)
      (c.tag :: r.1, r.2)
    | none =>
      let r := sweep alive takes slots inPool
      (slot :: r.1, r.2)

/-- An empty slot takes every node. -/
def fills (slot : String) (_ : Candidate) : Bool :=
  slot = ""

/-- A slot takes the nodes that may replace its occupant. -/
def evicts (entries : List Candidate) (tolerance : UInt16) (slot : String) (c : Candidate) : Bool :=
  beats tolerance (slotDelay slot entries) c

theorem fillFastest_eq_sweep (alive : List Candidate) (slots inPool : List String) :
    fillFastest alive slots inPool = sweep alive fills slots inPool := by
  induction slots generalizing inPool with
  | nil => rfl
  | cons slot slots ih =>
    rw [fillFastest, sweep]
    by_cases hs : slot = ""
    · subst hs
      have hf : (alive.find? fun c => !inPool.contains c.tag && fills "" c) =
          alive.find? fun c => !inPool.contains c.tag := by
        simp only [fills, decide_true, Bool.and_true]
      rw [if_neg (not_not_intro rfl), hf]
      cases alive.find? fun c => !inPool.contains c.tag with
      | none => simp only [ih]
      | some c => simp only [ih]
    · have hn : (alive.find? fun c => !inPool.contains c.tag && fills slot c) = none := by
        simp [fills, hs]
      simp only [ne_eq, hs, not_false_eq_true, if_true, hn, ih]

theorem evict_eq_sweep (entries alive : List Candidate) (tolerance : UInt16)
    (slots inPool : List String) : evict entries alive tolerance slots inPool =
      (sweep alive (evicts entries tolerance) slots inPool).1 := by
  induction slots generalizing inPool with
  | nil => rfl
  | cons slot slots ih =>
    rw [evict, sweep]
    simp only [evicts, ih]
    cases alive.find? fun c =>
      !inPool.contains c.tag && beats tolerance (slotDelay slot entries) c <;> rfl

theorem planTolerantPool_eq_sweep (current : List String) (entries : List Candidate) (size : ℕ)
    (tolerance : UInt16) : planTolerantPool current entries size tolerance =
      let alive := sortCandidatesByDelay (entries.filter (·.alive))
      let filled := sweep alive fills (current ++ replicate (size - current.length) "")
        (placedTags current)
      (sweep alive (evicts entries tolerance) filled.1 filled.2).1 := by
  simp only [planTolerantPool, fillFastest_eq_sweep, evict_eq_sweep]

theorem planTolerantPool_perm (h : entries.Perm entries')
    (ht : (entries.map tag).Nodup) (current : List String) (size : ℕ)
    (tolerance : UInt16) : planTolerantPool current entries size tolerance =
      planTolerantPool current entries' size tolerance := by
  have ha : ((entries.filter (·.alive)).map tag).Nodup :=
    ht.sublist (filter_sublist.map _)
  have he : evicts entries tolerance = evicts entries' tolerance := by
    funext slot c
    rw [evicts, evicts, slotDelay_perm h ht]
  rw [planTolerantPool_eq_sweep, planTolerantPool_eq_sweep,
    sortCandidatesByDelay_eq (h.filter _) ha, he]

/-! ### The weight of a pool -/

/-- The delay of the node of a slot; a slot that is not alive is heavier than any other. -/
def weight (entries : List Candidate) (slot : String) : ℕ :=
  if (slotDelay slot entries).2 then (slotDelay slot entries).1.toNat else 2 ^ 16

/-- A slot only takes nodes that make it lighter. -/
def Lightens (entries alive : List Candidate) (takes : String → Candidate → Bool) : Prop :=
  ∀ slot, ∀ c ∈ alive, takes slot c = true → weight entries c.tag < weight entries slot

section Weight

variable {entries alive : List Candidate} {takes : String → Candidate → Bool}

theorem length_sweep (slots inPool : List String) :
    (sweep alive takes slots inPool).1.length = slots.length := by
  induction slots generalizing inPool with
  | nil => rfl
  | cons slot slots ih =>
    rw [sweep]
    split <;> simp [ih]

theorem sweep_weight (ht : Lightens entries alive takes) (slots inPool : List String) :
    sweep alive takes slots inPool = (slots, inPool) ∧
        (∀ slot ∈ slots, ∀ c ∈ alive, c.tag ∉ inPool → takes slot c = false) ∨
      ((sweep alive takes slots inPool).1.map (weight entries)).sum <
        (slots.map (weight entries)).sum := by
  induction slots generalizing inPool with
  | nil => exact .inl ⟨rfl, fun _ h => nomatch h⟩
  | cons slot slots ih =>
    rw [sweep]
    split
    next c hc =>
      -- The slot is given to `c`, and the slots behind it do not get heavier.
      right
      have hl : weight entries c.tag < weight entries slot := by
        have hf := find?_some hc
        rw [Bool.and_eq_true] at hf
        exact ht slot c (mem_of_find?_eq_some hc) hf.2
      simp only [map_cons, sum_cons]
      rcases ih (c.tag :: inPool) with ⟨hs, -⟩ | hle
      · rw [hs]
        exact Nat.add_lt_add_right hl _
      · omega
    next hn =>
      have hsl : ∀ c ∈ alive, c.tag ∉ inPool → takes slot c = false := by
        intro c hc ho
        simpa [ho] using find?_eq_none.mp hn c hc
      rcases ih inPool with ⟨hs, hr⟩ | hle
      · left
        rw [hs]
        exact ⟨rfl, forall_mem_cons.mpr ⟨hsl, hr⟩⟩
      · right
        simp only [map_cons, sum_cons]
        omega

end Weight

/-! ### Rounds -/

/-- No node outside the pool is alive and faster than one in it by more than the tolerance, and if a
node outside is alive, so are all in the pool. -/
structure Settled (entries : List Candidate) (tolerance : UInt16) (pool : List String) : Prop where
  faster : ∀ c ∈ entries, c.alive = true → c.tag ∉ pool →
    ∀ d ∈ entries, d.alive = true → d.tag ∈ pool →
      ¬ c.delay.toNat + tolerance.toNat < d.delay.toNat
  alive : ∀ c ∈ entries, c.alive = true → c.tag ∉ pool →
    ∀ slot ∈ pool, ∃ d ∈ entries, d.alive = true ∧ slot = d.tag

theorem beats_alive_iff {tolerance dl : UInt16} :
    beats tolerance (dl, true) c = true ↔ c.delay.toNat + tolerance.toNat < dl.toNat := by
  have hc := c.delay.toNat_lt
  have ht := tolerance.toNat_lt
  have hs : (c.delay.toNat + tolerance.toNat) % 2 ^ 32 = c.delay.toNat + tolerance.toNat :=
    mod_eq_of_lt (by omega)
  simp only [beats, Bool.not_true, Bool.false_or, decide_eq_true_eq, UInt32.lt_iff_toNat_lt,
    UInt32.toNat_add, UInt16.toNat_toUInt32, hs]

theorem exists_of_slotDelay {entries : List Candidate} {slot : String}
    (h : (slotDelay slot entries).2) : ∃ d ∈ entries, d.alive = true ∧ slot = d.tag := by
  rw [slotDelay] at h
  split_ifs at h
  split at h
  next d hd =>
    have ht : d.tag = slot := by simpa using find?_some hd
    exact ⟨d, mem_of_find?_eq_some hd, h, ht.symm⟩
  next => cases h

namespace Results

variable (results : Results)

theorem slotDelay_tag (hc : c ∈ results.entries) :
    slotDelay c.tag results.entries = (c.delay, c.alive) := by
  have hne : c.tag ≠ "" := fun h => results.tagged (h ▸ mem_map_of_mem hc)
  obtain ⟨d, hd⟩ : ∃ d, results.entries.find? (fun d => d.tag = c.tag) = some d :=
    Option.isSome_iff_exists.mp (find?_isSome.mpr ⟨c, hc, by simp⟩)
  have hdt : d.tag = c.tag := by simpa using find?_some hd
  obtain rfl := inj_on_of_nodup_map results.nodup (mem_of_find?_eq_some hd) hc hdt
  rw [slotDelay, if_neg hne, hd]

/-- The live nodes, fastest first. -/
def ranked : List Candidate :=
  sortCandidatesByDelay (results.entries.filter (·.alive))

theorem mem_ranked : c ∈ results.ranked ↔ c ∈ results.entries ∧ c.alive = true := by
  rw [ranked, (sortCandidatesByDelay_perm _).mem_iff, mem_filter]

theorem weight_of_ranked (hc : c ∈ results.ranked) :
    weight results.entries c.tag = c.delay.toNat := by
  obtain ⟨hc, ha⟩ := results.mem_ranked.mp hc
  rw [weight, results.slotDelay_tag hc, if_pos ha]

theorem fills_lightens : Lightens results.entries results.ranked fills := by
  intro slot c hc ht
  obtain rfl : slot = "" := of_decide_eq_true ht
  rw [results.weight_of_ranked hc]
  exact c.delay.toNat_lt

theorem evicts_lightens (tolerance : UInt16) :
    Lightens results.entries results.ranked (evicts results.entries tolerance) := by
  intro slot c hc ht
  rw [results.weight_of_ranked hc, weight]
  split_ifs with hs
  · rw [evicts, show slotDelay slot results.entries = ((slotDelay slot results.entries).1, true)
      from Prod.ext rfl hs, beats_alive_iff] at ht
    exact (le_add_right _ _).trans_lt ht
  · exact c.delay.toNat_lt

theorem settled_of_evicts {tolerance : UInt16} {pool : List String}
    (h : ∀ slot ∈ pool, ∀ c ∈ results.ranked, c.tag ∉ placedTags pool →
      evicts results.entries tolerance slot c = false) :
    Settled results.entries tolerance pool := by
  have ho : ∀ c ∈ results.entries, c.alive = true → c.tag ∉ pool →
      ∀ slot ∈ pool, evicts results.entries tolerance slot c = false := by
    intro c hc ha hp slot hs
    refine h slot hs c (results.mem_ranked.mpr ⟨hc, ha⟩) fun hpl => ?_
    exact hp (mem_placedTags.mp hpl).1
  refine ⟨fun c hc ha hp d hd hd' hs hf => ?_, fun c hc ha hp slot hs => ?_⟩
  · have hk := ho c hc ha hp _ hs
    rw [evicts, results.slotDelay_tag hd, hd', beats_alive_iff.mpr hf] at hk
    cases hk
  · have hk := ho c hc ha hp slot hs
    refine exists_of_slotDelay ?_
    by_contra hde
    simp [evicts, beats, hde] at hk

theorem planTolerantPool_weight {current : List String} {size : ℕ}
    (hsi : size ≤ current.length) (tolerance : UInt16) :
    planTolerantPool current results.entries size tolerance = current ∧
        Settled results.entries tolerance current ∨
      ((planTolerantPool current results.entries size tolerance).map
        (weight results.entries)).sum < (current.map (weight results.entries)).sum := by
  rw [planTolerantPool_eq_sweep, Nat.sub_eq_zero_of_le hsi, replicate_zero, append_nil, ← ranked]
  dsimp only
  have he := sweep_weight (results.evicts_lightens tolerance)
  rcases sweep_weight results.fills_lightens current (placedTags current) with ⟨hf, -⟩ | hl
  · rw [hf]
    rcases he current (placedTags current) with ⟨hs, ht⟩ | hl
    · rw [hs]
      exact .inl ⟨rfl, results.settled_of_evicts ht⟩
    · exact .inr hl
  · right
    generalize sweep _ fills current _ = filled at hl ⊢
    rcases he filled.1 filled.2 with ⟨hs, -⟩ | hl'
    · rw [hs]
      exact hl
    · exact hl'.trans hl

theorem length_planTolerantPool (current : List String) (size : ℕ) (tolerance : UInt16) :
    size ≤ (planTolerantPool current results.entries size tolerance).length := by
  rw [planTolerantPool_eq_sweep, length_sweep, length_sweep, length_append, length_replicate]
  omega

/-- Whatever the order of the results in each round, the pool comes to rest, and it is settled
then. -/
theorem run_settles (current : List String) (size : ℕ) (tolerance : UInt16)
    (orders : ℕ → List Candidate) (horders : ∀ n, (orders n).Perm results.entries) :
    ∃ N, (∀ n, N ≤ n →
      run (fun pool order => planTolerantPool pool order size tolerance) current orders n =
        run (fun pool order => planTolerantPool pool order size tolerance) current orders N) ∧
      Settled results.entries tolerance
        (run (fun pool order => planTolerantPool pool order size tolerance) current orders N) := by
  set pool := run (fun pool order => planTolerantPool pool order size tolerance) current orders
    with hp
  have hstep : ∀ n, pool (n + 1) = planTolerantPool (pool n) results.entries size tolerance :=
    fun n => (planTolerantPool_perm (horders n).symm results.nodup (pool n) size tolerance).symm
  have hle : ∀ n, size ≤ (pool (n + 1)).length := fun n => by
    rw [hstep]
    exact results.length_planTolerantPool _ _ _
  -- From the first round on the pool has its size, and every change makes it lighter.
  have hr : ∃ N, ∀ n, N ≤ n → pool (n + 1) = pool (N + 1) := by
    refine eventually_const lt_wfRel.wf
      (fun pool => (pool.map (weight results.entries)).sum) (fun n => pool (n + 1)) fun n => ?_
    rw [hstep (n + 1)]
    exact (results.planTolerantPool_weight (hle n) tolerance).imp And.left id
  obtain ⟨N, hN⟩ := hr
  refine ⟨N + 1, fun n hn => ?_, ?_⟩
  · obtain ⟨m, rfl⟩ : ∃ m, n = m + 1 := ⟨n - 1, by omega⟩
    exact hN m (by omega)
  · have hf := hN (N + 1) (le_succ N)
    rw [hstep (N + 1)] at hf
    rcases results.planTolerantPool_weight (hle N) tolerance with ⟨-, hs⟩ | hl
    · exact hs
    · rw [hf] at hl
      exact absurd hl (lt_irrefl _)

/-- Four nodes for two slots: the dead node of the first slot and the slow one of the second give
way to the others. -/
theorem run_settles_example :
    let results : Results :=
      ⟨[⟨"a", 0, false⟩, ⟨"b", 300, true⟩, ⟨"c", 50, true⟩, ⟨"d", 90, true⟩], by decide, by decide⟩
    ∃ N, (∀ n, N ≤ n →
      run (fun pool order => planTolerantPool pool order 2 100) ["a", "b"]
          (fun _ => results.entries) n =
        run (fun pool order => planTolerantPool pool order 2 100) ["a", "b"]
          (fun _ => results.entries) N) ∧
      Settled results.entries 100
        (run (fun pool order => planTolerantPool pool order 2 100) ["a", "b"]
          (fun _ => results.entries) N) := by
  intro results
  exact results.run_settles ["a", "b"] 2 100 (fun _ => results.entries)
    fun _ => List.Perm.refl _

end Results

end SingBox.URLTest
