import SingBox.Foundation.Rank

/-!
# Starting components in the order of their dependencies

Outbounds and endpoints, and likewise DNS servers, are started by one fixed-point loop. A pass over
the components starts every component whose dependencies are started, and the loop ends when as
many tags are started as there are components. If a pass starts nothing, a second loop follows
dependencies that are not started until one is not listed or closes a cycle.
-/

namespace SingBox.Adapter

open Foundation List

/-- A component with its tag and the tags it depends on. -/
structure Component (α : Type*) where
  tag : α
  dependencies : List α
deriving DecidableEq, Repr

/-- How a start ends. A component is started in a log, in order. -/
inductive StartOutcome (α : Type*)
  | started (log : List (Component α))
  | circular (tree : List α) (problem : α)
  | missing (problem current : α)
  /-- A method of a nil component is called. -/
  | panicked
deriving DecidableEq, Repr

variable {α : Type*} [DecidableEq α]

/-- One pass over the components. -/
def startPass (log : List (Component α)) : List (Component α) → List (Component α)
  | [] => log
  | c :: rest =>
    if c.tag ∈ log.map Component.tag then startPass log rest
    else if ∀ d ∈ c.dependencies, d ∈ log.map Component.tag then startPass (log ++ [c]) rest
    else startPass log rest

/-- The search for the culprit; `lookup` finds a component by its tag. -/
def lint [Inhabited α] (lookup : α → Option (Component α)) (log : List (Component α)) :
    ℕ → List α → Component α → Option (StartOutcome α)
  | 0, _, _ => none
  | fuel + 1, tree, current =>
    let problem := (current.dependencies.find? (· ∉ log.map Component.tag)).getD default
    if problem ∈ tree then some (.circular tree problem)
    else
      match lookup problem with
      | none => some (.missing problem current.tag)
      | some c => lint lookup log fuel (tree ++ [problem]) c

/-- The fixed-point loop; none if the fuel runs out. -/
def startLoop [Inhabited α] (lookup : α → Option (Component α)) (components : List (Component α)) :
    ℕ → List (Component α) → Option (StartOutcome α)
  | 0, _ => none
  | fuel + 1, log =>
    let log' := startPass log components
    if log'.length = components.length then some (.started log')
    else if log'.length ≠ log.length then startLoop lookup components fuel log'
    else
      match components.find? (·.tag ∉ log'.map Component.tag) with
      | none => some .panicked
      | some c => lint lookup log' (components.length + 1) [c.tag] c

/-! ### What a start should do -/

/-- A component with the first tag depends on the second. -/
def DependsOn (components : List (Component α)) (a b : α) : Prop :=
  ∃ c ∈ components, c.tag = a ∧ b ∈ c.dependencies

/-- Every dependency names a component. -/
def Listed (components : List (Component α)) : Prop :=
  ∀ a b, DependsOn components a b → b ∈ components.map Component.tag

/-- Every component comes after its dependencies. -/
def Ordered (log : List (Component α)) : Prop :=
  ∀ before c after, log = before ++ c :: after →
    ∀ d ∈ c.dependencies, d ∈ before.map Component.tag

/-- The start returns, without an error exactly if every dependency is listed and there is no
cycle. Then every component was started once and after its dependencies; otherwise the error names
a dependency that is missing or a path that closes a cycle. -/
structure CorrectStart (components : List (Component α)) (result : Option (StartOutcome α)) :
    Prop where
  returns : ∃ outcome, result = some outcome ∧ outcome ≠ .panicked
  nil_iff : (∃ log, result = some (.started log)) ↔
    Listed components ∧ Acyclic (DependsOn components)
  started : ∀ log, result = some (.started log) → log.Perm components ∧ Ordered log
  circular : ∀ tree problem, result = some (.circular tree problem) →
    problem ∈ tree ∧ List.IsChain (DependsOn components) (tree ++ [problem])
  missing : ∀ problem current, result = some (.missing problem current) →
    DependsOn components current problem ∧ problem ∉ components.map Component.tag

/-- A tag that can be started: one of its components has only dependencies that can. -/
inductive CanStart (components : List (Component α)) : α → Prop
  | intro (c : Component α) (hc : c ∈ components)
      (h : ∀ d ∈ c.dependencies, CanStart components d) : CanStart components c.tag

/-- A lookup that finds the components of a list. -/
structure LookupOk (lookup : α → Option (Component α)) (components : List (Component α)) :
    Prop where
  some : ∀ {tag c}, lookup tag = some c → c ∈ components ∧ c.tag = tag
  none : ∀ {tag}, lookup tag = none → tag ∉ components.map Component.tag

/-! ### The log -/

variable {components log : List (Component α)}

/-- The log lists components with distinct tags, each after its dependencies. -/
structure LogOk (components log : List (Component α)) : Prop where
  nodup : (log.map Component.tag).Nodup
  subset : log ⊆ components
  ordered : Ordered log

/-- Nothing more can be started. -/
def Stuck (components log : List (Component α)) : Prop :=
  ∀ c ∈ components, c.tag ∉ log.map Component.tag →
    ∃ d ∈ c.dependencies, d ∉ log.map Component.tag

omit [DecidableEq α] in
theorem logOk_nil : LogOk components [] where
  nodup := nodup_nil
  subset := nil_subset _
  ordered before c after h := by simp at h

open Component

omit [DecidableEq α] in
theorem Ordered.append {c : Component α} (h : Ordered log)
    (hc : ∀ d ∈ c.dependencies, d ∈ log.map tag) : Ordered (log ++ [c]) := by
  intro before c' after heq
  rcases eq_nil_or_concat after with rfl | ⟨init, last, rfl⟩
  · obtain ⟨rfl, hl⟩ := append_inj' heq rfl
    obtain rfl : c = c' := by simpa using hl
    exact hc
  · have hs : log ++ [c] = (before ++ c' :: init) ++ [last] := by simpa using heq
    exact h before c' init (append_inj' hs rfl).1

omit [DecidableEq α] in
theorem LogOk.append {c : Component α} (h : LogOk components log) (hm : c ∈ components)
    (hn : c.tag ∉ log.map tag)
    (hc : ∀ d ∈ c.dependencies, d ∈ log.map tag) : LogOk components (log ++ [c]) where
  nodup := by
    rw [map_append, map_singleton]
    refine nodup_append.mpr ⟨h.nodup, nodup_singleton _, fun a ha b hb => ?_⟩
    rw [mem_singleton] at hb
    rintro rfl
    exact hn (hb ▸ ha)
  subset := append_subset.mpr ⟨h.subset, by simpa using hm⟩
  ordered := h.ordered.append hc

omit [DecidableEq α] in
theorem LogOk.length_le (h : LogOk components log) : log.length ≤ components.length :=
  (subperm_of_subset h.nodup.of_map h.subset).length_le

variable {rest : List (Component α)}

theorem startPass_ok (h : LogOk components log) (hr : rest ⊆ components) :
    LogOk components (startPass log rest) := by
  induction rest generalizing log with
  | nil => exact h
  | cons c rest ih =>
    obtain ⟨hc, hr⟩ := cons_subset.mp hr
    rw [startPass]
    split_ifs with hst hrdy
    · exact ih h hr
    · exact ih (h.append hc hst hrdy) hr
    · exact ih h hr

theorem length_le_startPass (log rest : List (Component α)) :
    log.length ≤ (startPass log rest).length := by
  induction rest generalizing log with
  | nil => exact le_refl _
  | cons c rest ih =>
    rw [startPass]
    split_ifs
    · exact ih log
    · have hle := ih (log ++ [c])
      rw [length_append] at hle
      exact Nat.le_of_add_right_le hle
    · exact ih log

theorem startPass_stuck (h : (startPass log rest).length = log.length) :
    startPass log rest = log ∧ Stuck rest log := by
  induction rest with
  | nil => exact ⟨rfl, fun c hc => absurd hc not_mem_nil⟩
  | cons c rest ih =>
    rw [startPass] at h ⊢
    split_ifs at h ⊢ with hst hr
    · obtain ⟨heq, hs⟩ := ih h
      exact ⟨heq, forall_mem_cons.mpr ⟨fun hn => absurd hst hn, hs⟩⟩
    · have hle := length_le_startPass (log ++ [c]) rest
      rw [h, length_append, length_singleton] at hle
      omega
    · obtain ⟨heq, hs⟩ := ih h
      refine ⟨heq, forall_mem_cons.mpr ⟨fun _ => ?_, hs⟩⟩
      simpa only [not_forall, exists_prop] using hr

/-! ### What is started is what can be started -/

omit [DecidableEq α] in
theorem LogOk.canStart (h : LogOk components log) :
    ∀ tag ∈ log.map Component.tag, CanStart components tag := by
  induction log using reverseRecOn with
  | nil => exact fun _ ht => absurd ht not_mem_nil
  | append_singleton log c ih =>
    have hl : LogOk components log := by
      refine ⟨?_, fun x hx => h.subset (mem_append_left _ hx), fun before c' after heq => ?_⟩
      · have hnd := h.nodup
        rw [map_append] at hnd
        exact (nodup_append.mp hnd).1
      · exact h.ordered before c' (after ++ [c]) (by rw [heq]; simp)
    intro tag ht
    rw [map_append, mem_append, map_singleton, mem_singleton] at ht
    rcases ht with ht | rfl
    · exact ih hl tag ht
    · refine .intro c (h.subset (by simp)) fun d hd => ih hl d ?_
      exact h.ordered log c [] rfl d hd

theorem Stuck.mem_of_canStart (h : Stuck components log) {tag : α}
    (ht : CanStart components tag) : tag ∈ log.map Component.tag := by
  induction ht with
  | intro c hc _ ih =>
    by_contra hn
    obtain ⟨d, hd, ho⟩ := h c hc hn
    exact ho (ih d hd)

/-! ### The search for the culprit -/

omit [DecidableEq α] in
/-- The ends of a chain of at least two elements are related by its relation. -/
theorem transGen_of_isChain {r : α → α → Prop} {a b : α} {l : List α}
    (h : List.IsChain r (a :: (l ++ [b]))) : Relation.TransGen r a b := by
  induction l generalizing a with
  | nil => exact .single (isChain_cons_cons.mp h).1
  | cons x l ih =>
    obtain ⟨hax, hr⟩ := isChain_cons_cons.mp h
    exact .head hax (ih hr)

/-- An outcome of the search that is right. -/
def Culprit (components : List (Component α)) : StartOutcome α → Prop
  | .circular tree problem =>
    problem ∈ tree ∧ List.IsChain (DependsOn components) (tree ++ [problem])
  | .missing problem current =>
    DependsOn components current problem ∧ problem ∉ components.map Component.tag
  | _ => False

omit [DecidableEq α] in
theorem Culprit.not_correct {outcome : StartOutcome α} (h : Culprit components outcome) :
    ¬ (Listed components ∧ Acyclic (DependsOn components)) := by
  rintro ⟨hl, ha⟩
  cases outcome with
  | circular tree problem =>
    obtain ⟨hm, hc⟩ := h
    obtain ⟨before, after, rfl⟩ := append_of_mem hm
    rw [append_assoc, cons_append] at hc
    exact ha problem (transGen_of_isChain (List.IsChain.right_of_append hc))
  | missing problem current => exact h.2 (hl current problem h.1)
  | started log | panicked => exact h

variable {lookup : α → Option (Component α)} {fuel : ℕ}

/-- The search ends with a culprit: it walks along a chain of components that are not started. -/
theorem lint_culprit [Inhabited α] (hlo : LookupOk lookup components)
    (hs : Stuck components log) {before : List α} {cur : Component α}
    (hcu : cur ∈ components) (hne : cur.tag ∉ log.map tag)
    (hnd : (before ++ [cur.tag]).Nodup) (hsu : before ⊆ components.map tag)
    (hch : List.IsChain (DependsOn components) (before ++ [cur.tag]))
    (hfu : components.length < fuel + before.length) :
    ∃ outcome, lint lookup log fuel (before ++ [cur.tag]) cur = some outcome ∧
      Culprit components outcome := by
  induction fuel generalizing before cur with
  | zero =>
    -- The tags of the tree are distinct tags of comps.
    have hle := (subperm_of_subset (nodup_append.mp hnd).1 hsu).length_le
    rw [length_map] at hle
    omega
  | succ fuel ih =>
    obtain ⟨d, hd, ho⟩ := hs cur hcu hne
    obtain ⟨problem, hf⟩ : ∃ problem,
        cur.dependencies.find? (· ∉ log.map tag) = some problem := by
      refine Option.isSome_iff_exists.mp (find?_isSome.mpr ⟨d, hd, ?_⟩)
      exact decide_eq_true ho
    have hp : problem ∈ cur.dependencies := mem_of_find?_eq_some hf
    have hu : problem ∉ log.map tag := by
      have hso := find?_some hf
      exact of_decide_eq_true hso
    have hde : DependsOn components cur.tag problem := ⟨cur, hcu, rfl, hp⟩
    have hl :
        List.IsChain (DependsOn components) ((before ++ [cur.tag]) ++ [problem]) := by
      refine isChain_append.mpr ⟨hch, isChain_singleton _, fun x hx y hy => ?_⟩
      obtain rfl : cur.tag = x := by simpa using hx
      obtain rfl : problem = y := by simpa using hy
      exact hde
    rw [lint]
    simp only [hf, Option.getD_some]
    by_cases hm : problem ∈ before ++ [cur.tag]
    · rw [if_pos hm]
      exact ⟨_, rfl, hm, hl⟩
    · rw [if_neg hm]
      cases hn : lookup problem with
      | none => exact ⟨_, rfl, hde, hlo.none hn⟩
      | some c =>
        obtain ⟨hc, rfl⟩ := hlo.some hn
        refine ih hc hu ?_ ?_ hl ?_
        · refine nodup_append.mpr ⟨hnd, nodup_singleton _, fun a ha b hb => ?_⟩
          rw [mem_singleton] at hb
          rintro rfl
          exact hm (hb ▸ ha)
        · refine append_subset.mpr ⟨hsu, ?_⟩
          simpa using ⟨cur, hcu, rfl⟩
        · rw [length_append, length_singleton]
          omega

/-! ### The loop -/

/-- The loop returns, and its outcome is one of three: all components are started, all tags are
started but a tag is used twice, or there is a culprit. -/
theorem startLoop_spec [Inhabited α] (hl : LookupOk lookup components)
    (h : LogOk components log) (hfu : components.length < fuel + log.length) :
    ∃ outcome, startLoop lookup components fuel log = some outcome ∧
      ((∃ log', outcome = .started log' ∧ LogOk components log' ∧ log'.length = components.length) ∨
        (outcome = .panicked ∧ (∀ c ∈ components, CanStart components c.tag) ∧
          ¬ (components.map Component.tag).Nodup) ∨
        (Culprit components outcome ∧ ∃ c ∈ components, ¬ CanStart components c.tag)) := by
  induction fuel generalizing log with
  | zero =>
    have hle := h.length_le
    omega
  | succ fuel ih =>
    have hp := startPass_ok h (List.Subset.refl components)
    have hle := length_le_startPass log components
    rw [startLoop]
    by_cases ha : (startPass log components).length = components.length
    · rw [if_pos ha]
      exact ⟨_, rfl, .inl ⟨_, rfl, hp, ha⟩⟩
    rw [if_neg ha]
    by_cases hm : (startPass log components).length = log.length
    · obtain ⟨heq, hstuck⟩ := startPass_stuck hm
      rw [if_neg (not_not.mpr hm)]
      rw [heq] at ha ⊢
      cases hf : components.find? (·.tag ∉ log.map Component.tag) with
      | none =>
        -- All tags are started, so there are fewer tags than components.
        have hs : ∀ c ∈ components, c.tag ∈ log.map Component.tag := fun c hc => by
          have hc' := find?_eq_none.mp hf c hc
          simpa using hc'
        refine ⟨_, rfl, .inr (.inl ⟨rfl, fun c hc => h.canStart _ (hs c hc), ?_⟩)⟩
        intro hnd
        have hsub : components.map Component.tag ⊆ log.map Component.tag := by
          intro tag ht
          obtain ⟨c, hc, rfl⟩ := mem_map.mp ht
          exact hs c hc
        have hlen := (subperm_of_subset hnd hsub).length_le
        rw [length_map, length_map] at hlen
        exact ha (le_antisymm h.length_le hlen)
      | some c =>
        have hc : c ∈ components := mem_of_find?_eq_some hf
        have hn : c.tag ∉ log.map Component.tag := by
          have hso := find?_some hf
          exact of_decide_eq_true hso
        have hst : (([] : List α) ++ [c.tag]).Nodup := nodup_singleton _
        obtain ⟨outcome, hli, hcu⟩ := lint_culprit hl hstuck hc hn hst
          (nil_subset _) (isChain_singleton _)
          (Nat.lt_succ_self components.length)
        refine ⟨outcome, hli, .inr (.inr ⟨hcu, c, hc, fun hst => ?_⟩)⟩
        exact hn (hstuck.mem_of_canStart hst)
    · rw [if_pos hm]
      exact ih hp (by omega)

theorem LogOk.correct (h : LogOk comps log) (ha : log.length = comps.length) :
    log.Perm comps ∧ Listed comps ∧ Acyclic (DependsOn comps) := by
  classical
  have hp : log.Perm comps :=
    (subperm_of_subset h.nodup.of_map h.subset).perm_of_length_le (le_of_eq ha.symm)
  have he : ∀ a b, DependsOn comps a b →
      b ∈ log.map tag ∧
        (log.map tag).idxOf b < (log.map tag).idxOf a := by
    rintro a b ⟨c, hc, rfl, hb⟩
    obtain ⟨before, after, heq⟩ := append_of_mem (hp.mem_iff.mpr hc)
    have hpr := h.ordered before c after heq b hb
    have hnd := h.nodup
    rw [heq, map_append, map_cons] at hnd ⊢
    have hc' : c.tag ∉ before.map tag := fun hm =>
      (nodup_append.mp hnd).2.2 c.tag hm c.tag mem_cons_self rfl
    refine ⟨mem_append_left _ hpr, ?_⟩
    rw [idxOf_append_of_mem hpr, idxOf_append_of_notMem hc', idxOf_cons_self]
    exact lt_of_lt_of_le (idxOf_lt_length_of_mem hpr) (Nat.le_add_right _ _)
  refine ⟨hp, fun a b hab => ?_, acyclic_of_rank _ fun a b hab => (he a b hab).2⟩
  exact (hp.map _).mem_iff.mp (he a b hab).1

/-- The start is correct exactly if the tags are distinct or some component cannot be started. -/
theorem startLoop_correct_iff [Inhabited α] (hlo : LookupOk lookup components)
    (hf : components.length < fuel) :
    CorrectStart components (startLoop lookup components fuel []) ↔
      ((components.map tag).Nodup ∨ ∃ c ∈ components, ¬ CanStart components c.tag) := by
  obtain ⟨outcome, heq, hca⟩ := startLoop_spec hlo logOk_nil (by simpa using hf)
  rw [heq]
  rcases hca with ⟨log, rfl, hl, ha⟩ | ⟨rfl, hst, hd⟩ | ⟨hcu, hs⟩
  · obtain ⟨hp, hco⟩ := hl.correct ha
    have hnd : (components.map tag).Nodup := (hp.map _).nodup_iff.mp hl.nodup
    refine iff_of_true ⟨⟨_, rfl, by simp⟩, iff_of_true ⟨log, rfl⟩ hco, ?_, by simp, by simp⟩
      (.inl hnd)
    rintro log' hl'
    obtain rfl : log = log' := by simpa using hl'
    exact ⟨hp, hl.ordered⟩
  · refine iff_of_false (fun h => ?_) (fun h => ?_)
    · obtain ⟨outcome, hso, hne⟩ := h.returns
      exact hne (Option.some.inj hso).symm
    · rcases h with hnd | ⟨c, hc, hs⟩
      · exact hd hnd
      · exact hs (hst c hc)
  · refine iff_of_true ?_ (.inr hs)
    have hw := hcu.not_correct
    cases outcome with
    | circular tree pb =>
      refine ⟨⟨_, rfl, by simp⟩, iff_of_false (by simp) hw, by simp, ?_, by simp⟩
      rintro tree' problem' ho
      obtain ⟨rfl, rfl⟩ : tree = tree' ∧ pb = problem' := by simpa using ho
      exact hcu
    | missing pb current =>
      refine ⟨⟨_, rfl, by simp⟩, iff_of_false (by simp) hw, by simp, by simp, ?_⟩
      rintro problem' current' ho
      obtain ⟨rfl, rfl⟩ : pb = problem' ∧ current = current' := by simpa using ho
      exact hcu
    | started log | panicked => exact hcu.elim

end SingBox.Adapter
