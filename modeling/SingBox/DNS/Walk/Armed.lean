import SingBox.DNS.Walk.Response

/-!
# The armed rules of a walk

A `race` rule is armed when the walk passes it. It waits for those of its futures that are not
resolved; the list of armed rules is in the order of the rules, and all of them come before the
current rule.
-/

namespace SingBox.DNS.Walk

open SingBox.Adapter SingBox.Rule Foundation WalkState List

/-! ### Resolved futures stay resolved -/

section Resolved

variable {env : Env} {s s' : WalkState} {f : ℕ}

theorem WalkState.resolved_iff :
    s.resolved f = true ↔ ∃ future, s.futures[f]? = some future ∧ future.done = true := by
  simp [resolved, Option.any_eq_true]

theorem WalkState.resolved_append {futs : List Future}
    (hf : s'.futures = s.futures ++ futs) (h : s.resolved f) : s'.resolved f := by
  obtain ⟨future, hg, hd⟩ := resolved_iff.mp h
  refine resolved_iff.mpr ⟨future, ?_, hd⟩
  rw [hf, getElem?_append_left (List.getElem?_eq_some_iff.mp hg).1]
  exact hg

theorem WalkState.resolved_set {k : ℕ} {future : Future} (f' : Future)
    (hk : s.futures[k]? = some future) (hf : s'.futures = s.futures.set k f')
    (hd : future.done = true → f'.done = true) (h : s.resolved f) : s'.resolved f := by
  obtain ⟨x, hg, hx⟩ := resolved_iff.mp h
  rw [resolved_iff, hf]
  by_cases hfk : f = k
  · subst hfk
    obtain rfl := Option.some.inj (hg.symm.trans hk)
    exact ⟨_, getElem?_set_self (List.getElem?_eq_some_iff.mp hk).1, hd hx⟩
  · exact ⟨x, (getElem?_set_ne (Ne.symm hfk)).trans hg, hx⟩

theorem WalkState.resolved_settleFuture {k : ℕ} {future : Future}
    (hk : s.futures[k]? = some future) (h : s.resolved f) : (s.settleFuture k future).resolved f :=
  resolved_set _ hk (settleFuture_futures hk) (fun hd => hd) h

theorem WalkState.resolved_complete {g : ℕ} (h : s.resolved f) : (s.complete g).resolved f := by
  unfold complete
  cases hg : s.futures[g]? with
  | none => exact h
  | some future =>
    simp only
    split_ifs
    · exact h
    · exact resolved_set { future with done := true } hg rfl (fun _ => rfl) h

theorem Config.resolved_walk {c : Config} (h : c.state.resolved f) :
    (c.walk env).state.resolved f := by
  obtain ⟨pc, s⟩ := c
  have h : s.resolved f = true := h
  apply walk_cases (Q := fun _ c => c.state.resolved f = true)
  case settle => exact fun _ _ _ hk => resolved_settleFuture hk h
  case raceTags =>
    intro rule tags pend
    cases tags with
    | cons tag tags => exact h
    | nil => simp only [WalkState.raceTags]; split_ifs <;> exact h
  case matching => intro rule; simp only [matching]; split_ifs <;> exact h
  case acting =>
    intro rule
    apply act_cases (P := fun c => c.state.resolved f = true)
    case anon => exact fun future _ _ => resolved_append rfl h
    case tagged => exact fun future _ _ _ => resolved_append rfl h
    case terminal => exact fun _ future _ _ => resolved_append rfl h
    all_goals intros; exact h
  case sweepAct =>
    intro index armed caller
    apply sweepAct_cases (P := fun c => c.state.resolved f = true)
    all_goals intros; exact h
  all_goals intros; exact h

theorem step_resolved {c : Config} (h : c.state.resolved f) (event : Event) :
    (step env c event).state.resolved f := by
  cases event with
  | walk => exact Config.resolved_walk h
  | complete g => exact resolved_complete h
  | cancel err =>
    simp only [step, Config.cancel]
    split <;> (try split_ifs) <;> exact h

theorem exec_resolved {es : ℕ → Event} {m n : ℕ} (hmn : m ≤ n)
    (h : (exec env es m).state.resolved f) : (exec env es n).state.resolved f :=
  run_preserved (P := fun _ (c : Config) => c.state.resolved f = true) hmn h
    fun _ _ _ hst => step_resolved hst _

end Resolved

/-! ### The armed rules -/

/-- The futures that an armed rule is bound to. -/
def WalkState.bound (s : WalkState) (armed : ArmedRule) : List ℕ :=
  s.futuresOf armed.rule.tree.matchResponseTags ++ armed.anonymousFuture.toList

/-- An armed rule waits for the futures that it is bound to. -/
structure ArmedRule.Waits (s : WalkState) (armed : ArmedRule) : Prop where
  race : armed.rule.race = true
  bound : ∀ f ∈ s.bound armed, s.resolved f = true ∨ f ∈ armed.futures
  futures : ∀ f ∈ armed.futures, f ∈ s.bound armed

/-- The sweep has taken an armed rule from the list: its futures are resolved, and it comes before
the rules that the sweep has still to see. -/
structure WalkState.InHand (s : WalkState) (index : ℕ) (armed : ArmedRule) : Prop where
  race : armed.rule.race = true
  resolved : ∀ f ∈ s.bound armed, s.resolved f = true
  before : ∀ later ∈ s.armedRules.drop index, armed.ruleIndex < later.ruleIndex

/-- The tests of the futures of a race rule, before it is armed and in a sweep. -/
def Config.Position (c : Config) : Prop :=
  match c.pc with
  | .raceTags rule tags pending => rule.race = true ∧
      Covers c.state.namedFutures (c.state.resolved · = true) rule.tree.matchResponseTags tags
        pending ∧
      (∀ tag ∈ tags, tag ∈ rule.tree.matchResponseTags) ∧
      ∀ f ∈ pending, f ∈ c.state.futuresOf rule.tree.matchResponseTags
  | .sweepReady index armed futures _ => c.state.armedRules[index]? = some armed ∧
      (∀ f ∈ armed.futures, c.state.resolved f = true ∨ f ∈ futures) ∧
      ∀ f ∈ futures, f ∈ armed.futures
  | .sweepMatch index armed _ => c.state.InHand index armed
  | .sweepAct index armed _ => c.state.InHand index armed
  | _ => True

/-- The caller is `resumeExchangeWithRules`. -/
def Caller.resumes : Caller → Bool
  | .walk _ => false
  | .resume _ => true

/-- The walker is not in a sweep at a rule that it has just armed. -/
def PC.walking : PC → Bool
  | .sweep _ caller => caller.resumes
  | .sweepReady _ _ _ caller => caller.resumes
  | .sweepMatch _ _ caller => caller.resumes
  | .sweepAct _ _ caller => caller.resumes
  | .done _ => false
  | _ => true

/-- The armed rules wait for their futures, are in the order of the list, and come before the
current rule. -/
structure Config.Queued (c : Config) : Prop where
  waits : ∀ armed ∈ c.state.armedRules, armed.Waits c.state
  sorted : c.state.armedRules.Pairwise fun a b => a.ruleIndex < b.ruleIndex
  before : c.pc.walking = true → ∀ armed ∈ c.state.armedRules, armed.ruleIndex < c.state.ruleIndex
  position : c.Position

open List.Sublist Nat

section Queued

variable {env : Env} {s s' : WalkState} {armed : ArmedRule}

theorem WalkState.bound_congr (hnm : ∀ tag ∈ armed.rule.tree.matchResponseTags,
    s'.namedFutures tag = s.namedFutures tag) : s'.bound armed = s.bound armed := by
  unfold bound futuresOf
  rw [filterMap_congr hnm]

theorem ArmedRule.Waits.mono (h : armed.Waits s)
    (hr : ∀ f, s.resolved f = true → s'.resolved f = true)
    (hnm : ∀ tag ∈ armed.rule.tree.matchResponseTags,
      s'.namedFutures tag = s.namedFutures tag) : armed.Waits s' where
  race := h.race
  bound f hf := by
    rw [bound_congr hnm] at hf
    exact (h.bound f hf).imp_left (hr f)
  futures f hf := by
    rw [bound_congr hnm]
    exact h.futures f hf

theorem WalkState.InHand.mono {index : ℕ} (h : s.InHand index armed)
    (hr : ∀ f, s.resolved f = true → s'.resolved f = true)
    (hnm : s'.namedFutures = s.namedFutures) (ha : s'.armedRules = s.armedRules) :
    s'.InHand index armed where
  race := h.race
  resolved f hf := by
    rw [bound_congr fun tag _ => congrFun hnm tag] at hf
    exact hr f (h.resolved f hf)
  before := by
    rw [ha]
    exact h.before

variable {pc : PC}

theorem Config.Position.mono (h : Config.Position ⟨pc, s⟩)
    (hr : ∀ f, s.resolved f = true → s'.resolved f = true)
    (hnm : s'.namedFutures = s.namedFutures) (ha : s'.armedRules = s.armedRules) :
    Config.Position ⟨pc, s'⟩ := by
  cases pc with
  | raceTags rule tags pending =>
    obtain ⟨hra, hc, ht, hp⟩ := h
    refine ⟨hra, hc.mono (fun _ _ => by rw [hnm]) hr fun _ hf => hf, ht, ?_⟩
    simpa only [futuresOf, hnm] using hp
  | sweepReady index armed futures caller =>
    obtain ⟨hg, hfut, hre⟩ := h
    exact ⟨(congrArg (·[index]?) ha).trans hg, fun f hf => (hfut f hf).imp_left (hr f), hre⟩
  | sweepMatch | sweepAct => exact WalkState.InHand.mono h hr hnm ha
  | _ => trivial

variable {c : Config} (h : c.Queued)

include h

theorem Config.Queued.frame (hr : ∀ f, c.state.resolved f = true → s.resolved f = true)
    (hnm : ∀ armed ∈ s.armedRules, ∀ tag ∈ armed.rule.tree.matchResponseTags,
      s.namedFutures tag = c.state.namedFutures tag)
    (ha : s.armedRules.Sublist c.state.armedRules)
    (hp : pc.walking = true → ∀ armed ∈ s.armedRules, armed.ruleIndex < s.ruleIndex)
    (hpos : Config.Position ⟨pc, s⟩) : Config.Queued ⟨pc, s⟩ where
  waits armed hm := (h.waits armed (ha.subset hm)).mono hr (hnm armed hm)
  sorted := h.sorted.sublist ha
  before := hp
  position := hpos

theorem Config.Queued.go (hw : c.pc.walking)
    (hr : ∀ f, c.state.resolved f = true → s.resolved f = true)
    (hnm : ∀ armed ∈ c.state.armedRules, ∀ tag ∈ armed.rule.tree.matchResponseTags,
      s.namedFutures tag = c.state.namedFutures tag)
    (ha : s.armedRules = c.state.armedRules) (hi : c.state.ruleIndex ≤ s.ruleIndex)
    (hpos : Config.Position ⟨pc, s⟩) : Config.Queued ⟨pc, s⟩ := by
  refine h.frame hr (fun armed hm => hnm armed (ha ▸ hm))
    (ha ▸ refl _) (fun _ armed hm => ?_) hpos
  exact lt_of_lt_of_le (h.before hw armed (ha ▸ hm)) hi

/-- A step of the walk that launches nothing and leaves the armed rules as they are. -/
theorem Config.Queued.pass (hw : c.pc.walking) (hfu : s.futures = c.state.futures)
    (hnm : s.namedFutures = c.state.namedFutures) (ha : s.armedRules = c.state.armedRules)
    (hi : c.state.ruleIndex ≤ s.ruleIndex) (hpos : Config.Position ⟨pc, s⟩) :
    Config.Queued ⟨pc, s⟩ :=
  h.go hw (fun f hf => by simpa only [resolved, hfu] using hf)
    (fun _ _ _ _ => by rw [hnm]) ha hi hpos

theorem Config.Queued.done (res : Result) : Config.Queued ⟨.done res, c.state⟩ :=
  h.frame (fun _ hf => hf) (fun _ _ _ _ => rfl) (refl _)
    (fun hw => absurd hw (by simp [PC.walking])) trivial

end Queued

/-! ### Steps -/

section Steps

variable {env : Env} {s : WalkState} {rule : Rule} {index : ℕ} {armed : ArmedRule} {caller : Caller}

theorem Config.Queued.act (hrl : Validated env.rules)
    (hwf : Config.WF env ⟨.acting rule, s⟩) (h : Config.Queued ⟨.acting rule, s⟩) :
    (s.act env rule).Queued := by
  apply act_cases
  · intro op anon _
    exact h.pass rfl rfl rfl rfl (le_succ _) trivial
  · exact fun _ => h.pass rfl rfl rfl rfl (le_refl _) trivial
  · exact fun _ _ _ => h.pass rfl rfl rfl rfl (le_refl _) trivial
  · exact fun _ _ _ => h.pass rfl rfl rfl rfl (le_refl _) trivial
  · intro _ res
    exact h.done res
  · intro future _ _
    exact h.go rfl (fun f => resolved_append rfl) (fun _ _ _ _ => rfl) rfl (le_succ _) trivial
  · intro future ht _ _
    refine h.go rfl (fun f => resolved_append rfl) (fun armed hm tag hbd => ?_) rfl
      (le_succ _) trivial
    have ho : tag ≠ future.tag := by
      rintro rfl
      have hpl := hwf.state.armed armed hm
      have hlt := hrl.defined hpl.rule (hwf.rule rule rfl) hbd ht.evaluateTag
      exact absurd hlt (not_lt.mpr hpl.le)
    exact Function.update_of_ne ho _ _
  · intro _ future _ _
    exact h.go rfl (fun f => resolved_append rfl) (fun _ _ _ _ => rfl) rfl (le_refl _) trivial

variable {c : Config}

theorem Config.Queued.arm (h : c.Queued) {pc : PC} {s' : WalkState} (hw : c.pc.walking)
    (hfu : s'.futures = c.state.futures) (hnm : s'.namedFutures = c.state.namedFutures)
    (ha : s'.armedRules = c.state.armedRules ++ [armed])
    (hi : armed.ruleIndex = c.state.ruleIndex) (hwa : armed.Waits s')
    (hp : pc.walking = true → c.state.ruleIndex < s'.ruleIndex)
    (hpos : Config.Position ⟨pc, s'⟩) : Config.Queued ⟨pc, s'⟩ := by
  have hm : ∀ x ∈ s'.armedRules, x ∈ c.state.armedRules ∨ x = armed := by
    intro x hx
    rw [ha] at hx
    exact (mem_append.mp hx).imp_right mem_singleton.mp
  refine ⟨fun x hx => ?_, ?_, fun hpc x hx => ?_, hpos⟩
  · rcases hm x hx with ho | rfl
    · refine (h.waits x ho).mono (fun f hf => ?_) fun _ _ => by rw [hnm]
      simpa only [resolved, hfu] using hf
    · exact hwa
  · change s'.armedRules.Pairwise _
    rw [ha, pairwise_append]
    refine ⟨h.sorted, pairwise_singleton _ _, fun x hx y hy => ?_⟩
    obtain rfl := mem_singleton.mp hy
    exact hi ▸ h.before hw x hx
  · rcases hm x hx with ho | rfl
    · exact (h.before hw x ho).trans (hp hpc)
    · exact hi ▸ hp hpc

theorem Config.Queued.raceTags {tags : List String} {pend : List ℕ}
    (h : Config.Queued ⟨.raceTags rule tags pend, s⟩) : (s.raceTags rule tags pend).Queued := by
  obtain ⟨hra, hc, hta, hp⟩ := h.position
  cases tags with
  | cons tag tags =>
    refine h.pass rfl rfl rfl rfl (le_refl _) ⟨hra, ?_, ?_, fun f hf => ?_⟩
    · refine Covers.tested hc (fun f hf => ?_) fun _ hf => mem_append_left _ hf
      by_cases hr : s.resolved f = true
      · exact .inl hr
      · have hf : s.namedFutures tag = some f := hf
        refine .inr (mem_append_right _ ?_)
        simpa [hf] using hr
    · exact fun x hx => hta x (mem_cons_of_mem _ hx)
    · rcases mem_append.mp hf with hf | hf
      · exact hp f hf
      · have hnm := Option.mem_toList.mp (mem_of_mem_filter hf)
        exact mem_filterMap.mpr ⟨tag, hta tag mem_cons_self, hnm⟩
  | nil =>
    simp only [WalkState.raceTags]
    generalize (if rule.tree.matchResponseAnonymous = true then s.anonymousFuture else none) = anon
    -- What is not resolved among the futures of the tags and the anonymous one is pending.
    have hw : ∀ (s' : WalkState) (armed : ArmedRule), s'.futures = s.futures →
        s'.namedFutures = s.namedFutures → armed.rule = rule → armed.anonymousFuture = anon →
        armed.futures = pend ++ anon.toList.filter (fun f => !s.resolved f) →
        armed.Waits s' := by
      intro s' armed hfu hnm hru ha hl
      have hbd : s'.bound armed = s.futuresOf rule.tree.matchResponseTags ++ anon.toList := by
        simp only [bound, futuresOf, hnm, hru, ha]
      refine ⟨hru ▸ hra, fun f hf => ?_, fun f hf => ?_⟩
      · have hs : s'.resolved f = s.resolved f := by simp only [resolved, hfu]
        rw [hbd] at hf
        rw [hs, hl]
        rcases mem_append.mp hf with hf | hf
        · obtain ⟨tag, ht, hnm⟩ := mem_filterMap.mp hf
          have hal := (hc tag ht).resolve_left not_mem_nil
          exact (hal f hnm).imp_right (mem_append_left _)
        · by_cases hr : s.resolved f = true
          · exact .inl hr
          · refine .inr (mem_append_right _ (mem_filter.mpr ⟨hf, ?_⟩))
            simpa using hr
      · rw [hbd]
        rw [hl] at hf
        rcases mem_append.mp hf with hf | hf
        · exact mem_append_left _ (hp f hf)
        · exact mem_append_right _ (mem_of_mem_filter hf)
    split_ifs
    · exact h.arm rfl rfl rfl rfl rfl (hw _ _ rfl rfl rfl rfl rfl)
        (fun hpc => absurd hpc (by simp [PC.walking, Caller.resumes])) trivial
    · exact h.arm rfl rfl rfl rfl rfl (hw _ _ rfl rfl rfl rfl rfl)
        (fun _ => lt_succ_self _) trivial

theorem Config.Queued.take (h : Config.Queued ⟨.sweepReady index armed [] caller, s⟩) :
    Config.Queued ⟨.sweepMatch index armed caller,
      { s with armedRules := s.armedRules.eraseIdx index }⟩ := by
  obtain ⟨hg, hfut, -⟩ := h.position
  have hg : s.armedRules[index]? = some armed := hg
  have hw := h.waits armed (mem_of_getElem? hg)
  refine h.frame (fun _ hf => hf) (fun _ _ _ _ => rfl) (eraseIdx_sublist _ _)
    (fun hpc x hx => h.before hpc x (mem_of_mem_eraseIdx hx))
    ⟨hw.race, fun f hf => ?_, fun later hl => ?_⟩
  · rcases hw.bound f hf with hf | hf
    · exact hf
    · exact (hfut f hf).resolve_right not_mem_nil
  · have hs := h.sorted.sublist (drop_sublist index s.armedRules)
    rw [drop_eq_cons_of_getElem? hg] at hs
    rw [drop_eraseIdx_self] at hl
    exact rel_of_pairwise_cons hs hl

theorem Config.Queued.sweepAct (h : Config.Queued ⟨.sweepAct index armed caller, s⟩) :
    (s.sweepAct env index armed caller).Queued := by
  apply sweepAct_cases
  · intro _
    exact h.frame (fun _ hf => hf) (fun _ _ _ _ => rfl) (refl _) h.before trivial
  · intro _ res
    exact h.done res
  · intro _ rule ex _
    refine Config.Queued.frame h (fun _ hf => hf) (fun _ _ _ _ => rfl) (nil_sublist _)
      (fun _ x hx => ?_) trivial
    exact absurd hx not_mem_nil
  · rintro _ sus ex rfl
    exact h.pass rfl rfl rfl rfl (le_refl _) trivial

variable (hrules : Validated env.rules)

include hrules

theorem Config.Queued.walk (hwf : c.WF env) (h : c.Queued) : (c.walk env).Queued := by
  obtain ⟨pc, s⟩ := c
  revert hwf h
  apply walk_cases
    (Q := fun pc c => Config.WF env ⟨pc, s⟩ → Config.Queued ⟨pc, s⟩ → c.Queued)
  case settle =>
    intro k caller future hk _ h
    refine h.frame (fun f => resolved_settleFuture hk)
      (fun _ _ _ _ => by rw [settleFuture_namedFutures]) ?_ (fun _ armed hm => ?_)
      trivial
    · rw [settleFuture_armedRules]
    · rw [settleFuture_armedRules] at hm
      rw [settleFuture_ruleIndex]
      exact h.before rfl armed hm
  case race =>
    intro _ _ _ hra _ h
    exact h.pass rfl rfl rfl rfl (le_refl _)
      ⟨hra, fun tag ht => .inl ht, fun _ ht => ht, by simp⟩
  case raceTags => exact fun _ _ _ _ h => h.raceTags
  case matching =>
    intro rule _ h
    simp only [matching]
    split_ifs
    · exact h.pass rfl rfl rfl rfl (le_refl _) trivial
    · exact h.pass rfl rfl rfl rfl (le_succ _) trivial
  case acting => exact fun _ hwf h => h.act hrules hwf
  case sweep =>
    intro index armed caller hg _ h
    exact h.frame (fun _ hf => hf) (fun _ _ _ _ => rfl) (refl _) h.before
      ⟨hg, fun _ hf => .inr hf, fun _ hf => hf⟩
  case sweepNext =>
    intro index rule hwf h
    refine h.frame (fun _ hf => hf) (fun _ _ _ _ => rfl) (refl _)
      (fun _ armed hm => ?_) trivial
    exact lt_succ_of_le (hwf.state.armed armed hm).le
  case ready =>
    intro index armed g futs caller hr _ h
    obtain ⟨hg, hfu, hre⟩ := h.position
    refine h.frame (fun _ hf => hf) (fun _ _ _ _ => rfl) (refl _) h.before
      ⟨hg, fun f hf => ?_, fun f hf => hre f (mem_cons_of_mem _ hf)⟩
    rcases hfu f hf with hf | hf
    · exact .inl hf
    · rcases mem_cons.mp hf with rfl | hf
      · exact .inl hr
      · exact .inr hf
  case take => exact fun _ _ _ _ h => h.take
  case sweepMatch =>
    intro _ _ _ _ _ h
    refine h.frame (fun _ hf => hf) (fun _ _ _ _ => rfl) (refl _) h.before ?_
    exact WalkState.InHand.mono h.position (fun _ hf => hf) rfl rfl
  case notReady | sweepMismatch =>
    intros
    rename_i h
    exact h.frame (fun _ hf => hf) (fun _ _ _ _ => rfl) (refl _) h.before trivial
  case sweepAct => exact fun _ _ _ _ h => h.sweepAct
  case finished => exact fun _ _ _ _ h => h.done _
  case done => exact fun _ _ h => h
  -- The other steps are of a walker outside of a sweep at a rule.
  all_goals
    intros
    rename_i h
    exact h.pass rfl rfl rfl rfl (le_refl _) trivial

theorem step_queued (hwf : c.WF env) (h : c.Queued) (event : Event) :
    (step env c event).Queued := by
  cases event with
  | walk => exact h.walk hrules hwf
  | complete f =>
    refine h.frame (fun _ => resolved_complete) (fun _ _ _ _ => by simp) (by simp)
      (fun hpc => ?_) ?_
    · simpa using h.before hpc
    · exact h.position.mono (fun _ => resolved_complete) (by simp) (by simp)
  | cancel err =>
    simp only [step, Config.cancel]
    split
    · exact h.done _
    · split_ifs
      · exact h.done _
      · exact h
    · exact h

theorem exec_queued (es : ℕ → Event) (n : ℕ) : (exec env es n).Queued := by
  refine run_preserved (P := fun _ => Config.Queued) (zero_le n) ?_ fun m _ _ h => ?_
  · exact ⟨by simp [start], by simp [start], by simp [start], trivial⟩
  · exact step_queued hrules (exec_wf hrules es m) h (es m)

end Steps

end SingBox.DNS.Walk
