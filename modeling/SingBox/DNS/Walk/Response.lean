import SingBox.DNS.Walk.Invariant

/-!
# Rules see the responses of completed futures

`settleDNSFutures` files the responses of completed futures, and the tests that follow ask again
whether a future is resolved. A future that completes between the two reads passes the test with its
response missing. In a run without such a completion every rule that is matched sees the responses
of the tags it is bound to.
-/

namespace SingBox.DNS.Walk

open SingBox.Adapter SingBox.Rule Foundation WalkState List Option

/-! ### Tests and completions -/

/-- The rule that the next step of the walker matches, and the metadata it is matched against. -/
def Config.evaluates (c : Config) : Option (Rule × InboundContext) :=
  match c.pc with
  | .matching rule => some (rule, c.state.matchMetadata c.state.anonymousResponse)
  | .sweepMatch _ armed _ => some (armed.rule, c.state.matchMetadata (c.state.armedResponse armed))
  | _ => none

/-- The futures of a list of tags. -/
def WalkState.futuresOf (s : WalkState) (tags : List String) : List ℕ :=
  tags.filterMap s.namedFutures

/-- The futures that a list of armed rules waits for. -/
def armedFutures (armedRules : List ArmedRule) : List ℕ := armedRules.flatMap ArmedRule.futures

/-- The walker has settled past a future and may still test it in this round: for a tag of the
current rule, or for an armed rule that the sweep of this round has not passed. -/
def Config.Tests (c : Config) (f : ℕ) : Prop :=
  match c.pc with
  | .settle k (.walk rule) => f < k ∧ (f ∈ c.state.futuresOf rule.tree.matchResponseTags ∨
      rule.race = true ∧ f ∈ armedFutures c.state.armedRules)
  | .settle k (.resume _) => f < k ∧ f ∈ armedFutures c.state.armedRules
  | .raceTags _ tags pending =>
    f ∈ c.state.futuresOf tags ∨ pending = [] ∧ f ∈ armedFutures c.state.armedRules
  | .awaitTags _ tags => f ∈ c.state.futuresOf tags
  | .sweep index _ => f ∈ armedFutures (c.state.armedRules.drop index)
  | .sweepReady index _ futures _ =>
    f ∈ futures ∨ f ∈ armedFutures (c.state.armedRules.drop (index + 1))
  | .sweepMatch index _ _ => f ∈ armedFutures (c.state.armedRules.drop index)
  | .sweepAct index _ _ => f ∈ armedFutures (c.state.armedRules.drop index)
  | _ => False

/-- A tagged future completes after the walker has settled past it and before it tests it. -/
def Overtaken (c : Config) : Event → Prop
  | .complete f => c.Tests f ∧ ∃ future, c.state.futures[f]? = some future ∧
      future.done = false ∧ future.tag ≠ ""
  | _ => False

/-! ### The invariant -/

/-- The response of a future is filed. -/
def WalkState.Settled (s : WalkState) (f : ℕ) : Prop :=
  ∃ future, s.futures[f]? = some future ∧ future.settled = true

/-- The responses that the rule is bound to are filed, up to the tags of `rest` and the futures of
`futures`. -/
abbrev WalkState.Files (s : WalkState) (rule : Rule) (rest : List String) (futures : List ℕ) :
    Prop :=
  Covers s.namedFutures s.Settled rule.tree.matchResponseTags rest futures

/-- What the tests of this round have established. -/
def Config.Covered (c : Config) : Prop :=
  match c.pc with
  | .raceTags rule tags pending => c.state.Files rule tags pending
  | .awaitTags rule tags => c.state.Files rule tags []
  | .matching rule => c.state.Files rule [] []
  | .sweepReady index armed futures _ => c.state.armedRules[index]? = some armed ∧
      c.state.Files armed.rule [] futures
  | .sweepMatch _ armed _ => c.state.Files armed.rule [] []
  | _ => True

/-- No future that the walker may still test in this round is done and not settled; what has been
tested is settled, and an armed rule waits for what is not. -/
structure Config.Fresh (c : Config) : Prop where
  settled : ∀ {f : ℕ} {future : Future}, c.state.futures[f]? = some future → future.tag ≠ "" →
    future.done = true → c.Tests f → future.settled = true
  armed : ∀ armed ∈ c.state.armedRules,
    c.state.Files armed.rule [] armed.futures
  covered : c.Covered

open Nat

section Covers

variable {c : Config}

theorem Config.Fresh.settled_of_resolved {env : Env} (hwf : c.WF env) (h : c.Fresh) {tag : String}
    {f : ℕ} (hf : c.state.namedFutures tag = some f) (hr : c.state.resolved f)
    (ht : c.Tests f) : c.state.Settled f := by
  obtain ⟨future, hg, rfl, hne⟩ := hwf.state.named hf
  have hd : future.done = true := by simpa [resolved, hg] using hr
  exact ⟨future, hg, h.settled hg hne hd ht⟩

theorem Config.Fresh.frame {c c' : Config} (h : c.Fresh)
    (hfutures : c'.state.futures = c.state.futures)
    (hnamed : c'.state.namedFutures = c.state.namedFutures)
    (harmed : ∀ armed ∈ c'.state.armedRules, armed ∈ c.state.armedRules ∨
      c'.state.Files armed.rule [] armed.futures)
    (hte : ∀ f, f < c.state.futures.length → c'.Tests f → c.Tests f)
    (hc : c'.Covered) : c'.Fresh where
  settled := by
    intro f future hg hne hd ht
    rw [hfutures] at hg
    exact h.settled hg hne hd (hte f (List.getElem?_eq_some_iff.mp hg).1 ht)
  armed armed hm := by
    rcases harmed armed hm with ho | hn
    · refine (h.armed armed ho).mono (fun tag _ => by rw [hnamed]) (fun f hf => ?_)
        fun _ hf => hf
      unfold WalkState.Settled at hf ⊢
      rwa [hfutures]
    · exact hn
  covered := hc

section

variable {pc : PC} {s' : WalkState} (h : c.Fresh)
  (hfutures : s'.futures = c.state.futures)
  (hnamed : s'.namedFutures = c.state.namedFutures)
  (harmed : ∀ armed ∈ s'.armedRules, armed ∈ c.state.armedRules)

include h hfutures hnamed harmed

theorem Config.Fresh.begin (ht : ∀ f, ¬ Config.Tests ⟨pc, s'⟩ f)
    (hc : Config.Covered ⟨pc, s'⟩) : Config.Fresh ⟨pc, s'⟩ :=
  h.frame hfutures hnamed (fun armed hm => .inl (harmed armed hm))
    (fun f _ hf => absurd hf (ht f)) hc

theorem Config.Fresh.next : s'.next.Fresh :=
  h.begin hfutures hnamed harmed (fun _ hf => hf) trivial

theorem Config.Fresh.suspend (sus : Suspension) : (s'.suspend sus).Fresh :=
  h.begin hfutures hnamed harmed (fun f hf => absurd hf.1 (not_lt_zero f)) trivial

end

theorem Config.Fresh.done (h : c.Fresh) (result : Result) : Config.Fresh ⟨.done result, c.state⟩ :=
  h.begin rfl rfl (fun _ hm => hm) (fun _ hf => hf) trivial

end Covers

/-! ### Launches -/

section Launch

variable {env : Env} {c : Config}

theorem Config.Fresh.launch (h : c.Fresh) {pc : PC} {s' : WalkState} {future : Future}
    (hfutures : s'.futures = c.state.futures ++ [future])
    (hnamed : ∀ armed ∈ c.state.armedRules, ∀ tag ∈ armed.rule.tree.matchResponseTags,
      s'.namedFutures tag = c.state.namedFutures tag)
    (harmed : s'.armedRules = c.state.armedRules)
    (hte : ∀ f, ¬ Config.Tests ⟨pc, s'⟩ f) (hc : Config.Covered ⟨pc, s'⟩) :
    Config.Fresh ⟨pc, s'⟩ where
  settled _ _ _ ht := absurd ht (hte _)
  armed armed hm := by
    have ho : armed ∈ c.state.armedRules := harmed ▸ hm
    refine (h.armed armed ho).mono (hnamed armed ho) (fun f hf => ?_) fun _ hf => hf
    obtain ⟨x, hx, hs⟩ := hf
    refine ⟨x, ?_, hs⟩
    have hlt := (List.getElem?_eq_some_iff.mp hx).1
    change s'.futures[f]? = some x
    rw [hfutures, getElem?_append_left hlt]
    exact hx
  covered := hc

theorem Config.Fresh.act (hrs : Validated env.rules) (hwf : c.WF env) (h : c.Fresh)
    {rule : Rule} (hr : env.rules[c.state.ruleIndex]? = some rule) :
    (c.state.act env rule).Fresh := by
  have hs : ∀ armed ∈ c.state.armedRules, armed ∈ c.state.armedRules := fun _ hm => hm
  apply act_cases
  · intro options anon _
    exact h.next rfl rfl hs
  · exact fun _ => h.suspend rfl rfl hs _
  · exact fun _ _ _ => h.suspend rfl rfl hs _
  · exact fun _ _ _ => h.suspend rfl rfl hs _
  · intro _ result
    exact h.done _
  · intro future _ _
    exact h.launch rfl (fun _ _ _ _ => rfl) rfl (fun _ hf => hf) trivial
  · intro future ht _ _
    refine h.launch rfl (fun armed hm tag hbd => ?_) rfl (fun _ hf => hf) trivial
    have ho : tag ≠ future.tag := by
      rintro rfl
      have hpl := hwf.state.armed armed hm
      exact absurd (hrs.defined hpl.rule hr hbd ht.evaluateTag) (not_lt.mpr hpl.le)
    exact Function.update_of_ne ho _ _
  · intro _ future _ _
    exact h.launch rfl (fun _ _ _ _ => rfl) rfl (fun f hf => absurd hf.1 (not_lt_zero f))
      trivial

end Launch

/-! ### Settling -/

section Settle

variable {s : WalkState} {k : ℕ} {future : Future}

section

variable (hk : s.futures[k]? = some future)

include hk

theorem WalkState.settleFuture_futures : (s.settleFuture k future).futures =
      s.futures.set k { future with settled := future.settled || future.done } := by
  have hse : s.futures.set k future = s.futures := by
    obtain ⟨hlt, rfl⟩ := List.getElem?_eq_some_iff.mp hk
    exact set_getElem_self hlt
  unfold settleFuture
  by_cases hs : (future.settled || !future.done) = true
  · rw [if_pos hs]
    have hsa : (future.settled || future.done) = future.settled := by
      revert hs
      cases future.settled <;> cases future.done <;> simp
    rw [hsa]
    exact hse.symm
  · rw [if_neg hs]
    have hset : (future.settled || future.done) = true := by
      revert hs
      cases future.settled <;> cases future.done <;> simp
    rw [hset]
    split_ifs <;> rfl

/-- A settled future is kept, and future `k` is settled if it is done. -/
theorem WalkState.getElem?_settleFuture {f : ℕ} {x : Future}
    (hx : (s.settleFuture k future).futures[f]? = some x) :
    f = k ∧ (x.done = true → x.settled = true) ∨ s.futures[f]? = some x := by
  rw [settleFuture_futures hk] at hx
  by_cases hfk : f = k
  · subst hfk
    rw [getElem?_set_self (List.getElem?_eq_some_iff.mp hk).1] at hx
    obtain rfl := some.inj hx
    exact .inl ⟨rfl, fun hd => by simp only at hd ⊢; simp [hd]⟩
  · rw [getElem?_set_ne (Ne.symm hfk)] at hx
    exact .inr hx

theorem WalkState.Settled.settleFuture {f : ℕ} (hf : s.Settled f) :
    (s.settleFuture k future).Settled f := by
  obtain ⟨x, hx, hs⟩ := hf
  unfold WalkState.Settled
  rw [settleFuture_futures hk]
  by_cases hfk : f = k
  · subst hfk
    obtain rfl := some.inj (hx.symm.trans hk)
    exact ⟨_, getElem?_set_self (List.getElem?_eq_some_iff.mp hk).1, by simp [hs]⟩
  · exact ⟨x, (getElem?_set_ne (Ne.symm hfk)).trans hx, hs⟩

end

theorem Config.Fresh.settleFuture {caller : Caller} (h : Config.Fresh ⟨.settle k caller, s⟩)
    (hk : s.futures[k]? = some future) :
    Config.Fresh ⟨.settle (k + 1) caller, s.settleFuture k future⟩ where
  settled := by
    intro f x hx hne hd ht
    rcases getElem?_settleFuture hk hx with ⟨-, hs⟩ | ho
    · exact hs hd
    · by_cases hfk : f = k
      · subst hfk
        obtain rfl := some.inj (ho.symm.trans hk)
        rw [settleFuture_futures hk, getElem?_set_self (List.getElem?_eq_some_iff.mp hk).1] at hx
        rw [← some.inj hx]
        simp [hd]
      · refine h.settled ho hne hd ?_
        cases caller with
        | walk rule =>
          simp only [Config.Tests, futuresOf, settleFuture_namedFutures,
            settleFuture_armedRules] at ht ⊢
          exact ⟨by omega, ht.2⟩
        | resume sus =>
          simp only [Config.Tests, settleFuture_armedRules] at ht ⊢
          exact ⟨by omega, ht.2⟩
  armed armed hm := by
    simp only [settleFuture_armedRules] at hm
    exact (h.armed armed hm).mono (fun _ _ => by rw [settleFuture_namedFutures])
      (fun _ hf => hf.settleFuture hk) fun _ hf => hf
  covered := trivial

end Settle

/-! ### Tests of the tags -/

section Tags

variable {env : Env} {s : WalkState} {rule : Rule} {tags : List String}

theorem WalkState.mem_futuresOf_cons {tag : String} {f : ℕ} (hf : s.namedFutures tag = some f) :
    f ∈ s.futuresOf (tag :: tags) :=
  mem_filterMap.mpr ⟨tag, mem_cons_self, hf⟩

theorem WalkState.futuresOf_cons_subset {tag : String} {f : ℕ} (hf : f ∈ s.futuresOf tags) :
    f ∈ s.futuresOf (tag :: tags) := by
  obtain ⟨x, hx, hfx⟩ := mem_filterMap.mp hf
  exact mem_filterMap.mpr ⟨x, mem_cons_of_mem _ hx, hfx⟩

theorem Config.Fresh.raceTags {pending : List ℕ}
    (hwf : Config.WF env ⟨.raceTags rule tags pending, s⟩)
    (h : Config.Fresh ⟨.raceTags rule tags pending, s⟩) : (s.raceTags rule tags pending).Fresh := by
  cases tags with
  | cons tag tags =>
    refine h.frame rfl rfl (fun _ hm => .inl hm) (fun f _ ht => ?_)
      (Covers.tested h.covered (fun f hf => ?_) fun _ hf => mem_append_left _ hf)
    · refine ht.imp futuresOf_cons_subset fun hp => ⟨?_, hp.2⟩
      exact (append_eq_nil_iff.mp hp.1).1
    · by_cases hr : s.resolved f = true
      · exact .inl (h.settled_of_resolved hwf hf hr
          (.inl (mem_futuresOf_cons hf)))
      · have hf : s.namedFutures tag = some f := hf
        refine .inr (mem_append_right _ ?_)
        simpa [hf] using hr
  | nil =>
    -- The rule is armed; without pending futures the sweep of this round sees it.
    have hc : ∀ extra, s.Files rule [] (pending ++ extra) := fun extra =>
      Covers.mono h.covered (fun _ _ => rfl) (fun _ hf => hf) fun _ => mem_append_left _
    simp only [raceTags]
    generalize (if rule.tree.matchResponseAnonymous = true then s.anonymousFuture else none) = anon
    split_ifs with hn
    · refine h.frame rfl rfl (fun armed hm => ?_) (fun f _ ht => ?_) trivial
      · rcases mem_append.mp hm with hm | hm
        · exact .inl hm
        · obtain rfl := mem_singleton.mp hm
          exact .inr (hc _)
      · refine .inr ⟨(append_eq_nil_iff.mp hn).1, ?_⟩
        simpa [Config.Tests, armedFutures, hn] using ht
    · refine h.frame rfl rfl (fun armed hm => ?_) (fun f _ ht => ht.elim) trivial
      rcases mem_append.mp hm with hm | hm
      · exact .inl hm
      · obtain rfl := mem_singleton.mp hm
        exact .inr (hc _)

end Tags

/-! ### Sweeps -/

section Sweep

variable {env : Env} {s : WalkState} {index : ℕ} {armed : ArmedRule} {caller : Caller}

theorem drop_eq_cons_of_getElem? (h : s.armedRules[index]? = some armed) :
    s.armedRules.drop index = armed :: s.armedRules.drop (index + 1) := by
  obtain ⟨hlt, rfl⟩ := List.getElem?_eq_some_iff.mp h
  exact drop_eq_getElem_cons hlt

theorem drop_eraseIdx_self {α : Type} (l : List α) (i : ℕ) :
    (l.eraseIdx i).drop i = l.drop (i + 1) := by
  induction l generalizing i with
  | nil => simp
  | cons a l ih =>
    cases i with
    | zero => simp
    | succ i => simpa using ih i

theorem Config.Fresh.sweepAct (h : Config.Fresh ⟨.sweepAct index armed caller, s⟩) :
    (s.sweepAct env index armed caller).Fresh := by
  apply sweepAct_cases
  · intro _
    exact h.frame rfl rfl (fun _ hm => .inl hm) (fun f _ ht => ht) trivial
  · intro _ result
    exact h.done _
  · intro _ rule exchange _
    refine Config.Fresh.suspend h ?_ ?_ ?_ _
    · rfl
    · rfl
    · exact fun armed hm => absurd hm not_mem_nil
  · intro _ sus exchange _
    exact h.begin rfl rfl (fun _ hm => hm) (fun _ hf => hf) trivial

end Sweep

/-! ### Runs -/

section Runs

variable {env : Env} {c : Config}

theorem Config.Fresh.walk (hrs : Validated env.rules) (hwf : c.WF env) (h : c.Fresh) :
    (c.walk env).Fresh := by
  obtain ⟨pc, s⟩ := c
  have hs : ∀ armed ∈ s.armedRules, armed ∈ s.armedRules := fun _ hm => hm
  have hke : ∀ armed ∈ s.armedRules, armed ∈ s.armedRules ∨
      s.Files armed.rule [] armed.futures := fun _ hm => .inl hm
  have hl : ∀ {k : ℕ}, s.futures[k]? = none → s.futures.length ≤ k :=
    fun hk => getElem?_eq_none_iff.mp hk
  revert hwf h
  apply walk_cases
    (Q := fun pc c => Config.WF env ⟨pc, s⟩ → Config.Fresh ⟨pc, s⟩ → c.Fresh)
  case headEnd => exact fun _ _ _ _ h => h.suspend rfl rfl hs _
  case headBinds =>
    intro rule _ _ h
    exact h.begin rfl rfl hs (fun f hf => absurd hf.1 (not_lt_zero f)) trivial
  case headMatch =>
    intro rule _ hb _ h
    refine h.begin rfl rfl hs (fun _ hf => hf) fun tag hta => ?_
    have hn : rule.tree.matchResponseTags = [] ∧ rule.tree.matchResponseAnonymous = false := by
      simpa [Rule.hasBindings] using hb
    rw [hn.1] at hta
    exact absurd hta not_mem_nil
  case settle => exact fun _ _ _ hk _ h => h.settleFuture hk
  case race =>
    intro k rule hk hra _ h
    refine h.frame rfl rfl hke (fun f hf ht => ?_) fun tag hta => .inl hta
    refine ⟨lt_of_lt_of_le hf (hl hk), ?_⟩
    exact ht.imp_right fun hp => ⟨hra, hp.2⟩
  case await =>
    intro k rule hk _ _ h
    refine h.frame rfl rfl hke (fun f hf ht => ?_) fun tag hta => .inl hta
    exact ⟨lt_of_lt_of_le hf (hl hk), .inl ht⟩
  case resume =>
    intro k sus hk _ h
    refine h.frame rfl rfl hke (fun f hf ht => ?_) trivial
    exact ⟨lt_of_lt_of_le hf (hl hk), by simpa [Config.Tests] using ht⟩
  case raceTags => exact fun _ _ _ hwf h => h.raceTags hwf
  case awaitTags => exact fun _ _ _ _ _ _ h => h.suspend rfl rfl hs _
  case awaitNext =>
    intro rule tag tags hr hwf h
    refine h.frame rfl rfl hke (fun f _ ht => futuresOf_cons_subset ht)
      (Covers.tested h.covered (fun f hf => .inl ?_) fun _ hf => hf)
    exact h.settled_of_resolved hwf hf (hr f hf) (mem_futuresOf_cons hf)
  case awaited => exact fun _ _ _ h => h.frame rfl rfl hke (fun _ _ ht => ht.elim) h.covered
  case matching =>
    intro rule _ h
    simp only [matching]
    split_ifs
    · exact h.begin rfl rfl hs (fun _ hf => hf) trivial
    · exact h.next rfl rfl hs
  case acting => exact fun rule hwf h => h.act hrs hwf (hwf.rule rule rfl)
  case sweep =>
    intro index armed caller hg _ h
    refine h.frame rfl rfl hke (fun f _ ht => ?_) ⟨hg, ?_⟩
    · simpa [Config.Tests, armedFutures, drop_eq_cons_of_getElem? hg] using ht
    · exact h.armed armed (mem_of_getElem? hg)
  case sweepNext => exact fun _ _ _ h => h.next rfl rfl hs
  case ready =>
    intro index armed g futs caller hr hwf h
    obtain ⟨hg, hc⟩ := h.covered
    refine h.frame rfl rfl hke (fun f _ ht => ?_) ⟨hg, fun tag hta => ?_⟩
    · exact ht.imp_left (mem_cons_of_mem _)
    · refine (hc tag hta).imp_right fun hco f hf => ?_
      rcases hco f hf with hse | hm
      · exact .inl hse
      · rcases mem_cons.mp hm with rfl | hm
        · exact .inl (h.settled_of_resolved hwf hf hr (.inl mem_cons_self))
        · exact .inr hm
  case notReady =>
    intro _ _ _ _ _ _ _ h
    exact h.frame rfl rfl hke (fun f _ ht => .inr ht) trivial
  case take =>
    intro index armed caller _ h
    refine h.frame rfl rfl (fun _ hm => .inl (mem_of_mem_eraseIdx hm))
      (fun f _ ht => .inr ?_) h.covered.2
    simpa [Config.Tests, drop_eraseIdx_self] using ht
  case sweepMatch | sweepMismatch =>
    intro _ _ _ _ _ h
    exact h.frame rfl rfl hke (fun f _ ht => ht) trivial
  case sweepAct => exact fun _ _ _ _ h => h.sweepAct
  case wake =>
    intro _ _ _ h
    exact h.begin rfl rfl hs (fun f hf => absurd hf.1 (not_lt_zero f)) trivial
  -- The other steps test no futures.
  all_goals
    intros
    rename_i h
    exact h.begin rfl rfl hs (fun _ hf => hf) trivial

theorem Config.Covered.mono {pc : PC} {s s' : WalkState} (h : Config.Covered ⟨pc, s⟩)
    (hnamed : s'.namedFutures = s.namedFutures) (harmed : s'.armedRules = s.armedRules)
    (hs : ∀ f, s.Settled f → s'.Settled f) : Config.Covered ⟨pc, s'⟩ := by
  have hm : ∀ {tags rest futures}, Covers s.namedFutures s.Settled tags rest futures →
      Covers s'.namedFutures s'.Settled tags rest futures := fun hc =>
    hc.mono (fun _ _ => by rw [hnamed]) hs fun _ hf => hf
  cases pc with
  | raceTags rule tags pending => exact hm h
  | awaitTags rule tags => exact hm h
  | matching rule => exact hm h
  | sweepReady index armed futures caller =>
    exact ⟨(congrArg (·[index]?) harmed).trans h.1, hm h.2⟩
  | sweepMatch index armed caller => exact hm h
  | _ => trivial

theorem WalkState.Settled.complete {s : WalkState} {g : ℕ} (h : s.Settled g) (f : ℕ) :
    (s.complete f).Settled g := by
  unfold WalkState.complete
  cases hg : s.futures[f]? with
  | none => exact h
  | some future =>
    simp only
    split_ifs
    · exact h
    · obtain ⟨x, hx, hs⟩ := h
      by_cases hgf : g = f
      · subst hgf
        obtain rfl := some.inj (hx.symm.trans hg)
        exact ⟨_, getElem?_set_self (List.getElem?_eq_some_iff.mp hg).1, hs⟩
      · exact ⟨x, (getElem?_set_ne (Ne.symm hgf)).trans hx, hs⟩

theorem Config.Fresh.complete (h : c.Fresh) {f : ℕ} (hov : ¬ Overtaken c (.complete f)) :
    Config.Fresh { c with state := c.state.complete f } := by
  have hs : ∀ g, c.state.Settled g → (c.state.complete f).Settled g :=
    fun _ hg => hg.complete f
  have hr : ∀ armed ∈ (c.state.complete f).armedRules,
      (c.state.complete f).Files armed.rule [] armed.futures := by
    intro armed hm
    rw [complete_armedRules] at hm
    exact (h.armed armed hm).mono (fun _ _ => by rw [complete_namedFutures]) hs
      fun _ hf => hf
  refine ⟨fun {g x} hx hne hxd ht => ?_, hr, h.covered.mono
    (complete_namedFutures _ _) (complete_armedRules _ _) hs⟩
  have ho : c.Tests g := by
    unfold Config.Tests at ht ⊢
    simpa only [futuresOf, complete_namedFutures, complete_armedRules] using ht
  -- Only a future that is not tested any more may become done.
  unfold WalkState.complete at hx
  cases hget : c.state.futures[f]? with
  | none =>
    rw [hget] at hx
    exact h.settled hx hne hxd ho
  | some future =>
    rw [hget] at hx
    simp only at hx
    by_cases hd : future.done = true
    · rw [if_pos hd] at hx
      exact h.settled hx hne hxd ho
    rw [if_neg hd] at hx
    by_cases hgf : g = f
    · subst hgf
      have hx : x = { future with done := true } := by
        simpa [getElem?_set_self (List.getElem?_eq_some_iff.mp hget).1] using hx.symm
      subst hx
      exact absurd ⟨ho, future, hget, by simpa using hd, hne⟩ hov
    · exact h.settled (by simpa [getElem?_set_ne (Ne.symm hgf)] using hx) hne hxd ho

theorem step_fresh (hrs : Validated env.rules) (hwf : c.WF env) (h : c.Fresh) {event : Event}
    (ho : ¬ Overtaken c event) : (step env c event).Fresh := by
  cases event with
  | walk => exact h.walk hrs hwf
  | complete f => exact h.complete ho
  | cancel err =>
    simp only [step, Config.cancel]
    split
    · exact h.done _
    · split_ifs
      · exact h.done _
      · exact h
    · exact h

theorem exec_fresh (hrs : Validated env.rules) {es : ℕ → Event}
    (ho : ∀ n, ¬ Overtaken (exec env es n) (es n)) (n : ℕ) : (exec env es n).Fresh := by
  refine run_preserved (P := fun _ => Config.Fresh) (zero_le n) ?_ fun m _ _ h => ?_
  · exact ⟨by simp [start], by simp [start], trivial⟩
  · exact step_fresh hrs (exec_wf hrs es m) h (ho m)

/-- No response is lost. In a run over an accepted list, for all outcomes of the queries, in which
no tagged future completes after the walker has settled past it and before it tests it, a rule that
is matched, armed or not, finds the outcome of every launched future that it is bound to. -/
theorem evaluates_named_response (env : Env) (lookup : RuleSet → Except String RuleSetMetadata)
    (warnings : List String)
    (hvalid : validateLegacyDNSModeDisabledRules lookup env.rules = .ok warnings)
    (events : ℕ → Event) (hover : ∀ n, ¬ Overtaken (exec env events n) (events n)) (n : ℕ)
    (rule : Rule) (metadata : InboundContext)
    (hrule : (exec env events n).evaluates = some (rule, metadata)) (tag : String)
    (htag : tag ∈ rule.tree.matchResponseTags) (f : ℕ)
    (hf : (exec env events n).state.namedFutures tag = some f) :
    ∃ future, (exec env events n).state.futures[f]? = some future ∧ future.tag = tag ∧
      future.done = true ∧ metadata.namedDNSResponses tag = future.outcome.view := by
  have hrs := Validated.of_validate hvalid
  have hwf := exec_wf hrs events n
  have hc := (exec_fresh hrs hover n).covered
  generalize exec env events n = c at *
  obtain ⟨future, hg, rfl, hne⟩ := hwf.state.named hf
  -- Both kinds of evaluation come after tests that cover all tags of the rule.
  have hs : c.state.Settled f ∧ metadata.namedDNSResponses = c.state.namedResponses := by
    unfold Config.evaluates at hrule
    unfold Config.Covered at hc
    cases hpc : c.pc with
    | matching | sweepMatch =>
      rw [hpc] at hrule hc
      obtain ⟨rfl, rfl⟩ := Prod.mk.inj (some.inj hrule)
      have ha := (hc _ htag).resolve_left not_mem_nil
      exact ⟨(ha f hf).resolve_right not_mem_nil, rfl⟩
    | _ =>
      rw [hpc] at hrule
      exact absurd hrule (by simp)
  obtain ⟨⟨x, hx, hse⟩, hm⟩ := hs
  obtain rfl := some.inj (hx.symm.trans hg)
  obtain ⟨hd, hnamed⟩ := hwf.state.settled hg hse
  refine ⟨x, hg, rfl, hd, ?_⟩
  rw [hm, (hnamed hne).1, Future.view, if_pos hd]

end Runs

/-! ### A lost response -/

/-- Queries for addresses are evaluated as `a`, and a successful response is returned. -/
def evaluateAndRespond : Env :=
  exampleEnv [evaluateAddresses, { tree := successful, action := .respond }]

/-- The future completes before the second rule. -/
def completedBefore (n : ℕ) : Event := if n = 3 then .complete 0 else .walk

theorem evaluates_named_response_completed :
    validateLegacyDNSModeDisabledRules (fun _ => .error "") evaluateAndRespond.rules = .ok [] ∧
      (∀ n, ¬ Overtaken (exec evaluateAndRespond completedBefore n) (completedBefore n)) ∧
      ∃ rule metadata future,
        (exec evaluateAndRespond completedBefore 9).evaluates = some (rule, metadata) ∧
          (exec evaluateAndRespond completedBefore 9).state.futures[0]? = some future ∧
          metadata.namedDNSResponses "a" = future.outcome.view := by
  have hv : validateLegacyDNSModeDisabledRules (fun _ => .error "") evaluateAndRespond.rules =
      .ok [] := rfl
  have ho : ∀ n,
      ¬ Overtaken (exec evaluateAndRespond completedBefore n) (completedBefore n) := by
    intro n
    by_cases hn : n = 3
    · subst hn
      exact fun ho => ho.1
    · rw [completedBefore, if_neg hn]
      exact fun ho => ho
  obtain ⟨future, hg, -, -, hvi⟩ := evaluates_named_response evaluateAndRespond
    (fun _ => .error "") [] hv completedBefore ho 9 _ _ rfl "a" (by decide) 0 rfl
  exact ⟨hv, ho, _, _, future, rfl, hg, hvi⟩

/-- The future completes after the walker has settled past it and before it tests it. -/
def completedBetween (n : ℕ) : Event := if n = 5 then .complete 0 else .walk

/-- The second rule is matched with its response missing, although the future is done. -/
theorem match_misses_completed_response :
    validateLegacyDNSModeDisabledRules (fun _ => .error "") evaluateAndRespond.rules = .ok [] ∧
      ∃ rule metadata future,
        (exec evaluateAndRespond completedBetween 9).evaluates = some (rule, metadata) ∧
          "a" ∈ rule.tree.matchResponseTags ∧
          (exec evaluateAndRespond completedBetween 9).state.namedFutures "a" = some 0 ∧
          (exec evaluateAndRespond completedBetween 9).state.futures[0]? = some future ∧
          future.done = true ∧ future.outcome.view = some { id := 7, response := true } ∧
          metadata.namedDNSResponses "a" = none :=
  ⟨rfl, _, _, _, rfl, by decide, rfl, rfl, rfl, rfl, rfl⟩

end SingBox.DNS.Walk
