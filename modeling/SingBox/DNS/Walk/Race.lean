import SingBox.DNS.Walk.Armed

/-!
# Race rules come before later rules

An armed rule is evaluated in a sweep that finds its futures resolved. As long as a rule is armed,
no later rule ends the walk or launches a query that is not speculative, and the walk does not fall
through to the default server. A sweep takes the armed rules in their order; a rule that is passed
over did not match, or routes to a server that is missing or skipped.
-/

namespace SingBox.DNS.Walk

open SingBox.Adapter SingBox.Rule Foundation WalkState Option Config DNSAction

/-! ### Commitments -/

/-- A race rule routes to a server that is missing or skipped. -/
def ArmedRule.NoServer (env : Env) (armed : ArmedRule) : Prop :=
  ∃ server options, armed.rule.action = .route server false options ∧
    env.resolveDNSRoute server options armed.options = none

/-- The next step matches an armed rule, whose futures are resolved. -/
def Config.Evaluates (c : Config) (armed : ArmedRule) : Prop :=
  (∃ index caller, c.pc = .sweepMatch index armed caller) ∧
    ∀ f ∈ c.state.bound armed, c.state.resolved f = true

/-- The next step passes over an armed rule, which does not match or has no server. -/
def Config.PassesOver (env : Env) (c : Config) (armed : ArmedRule) : Prop :=
  (∃ index caller, c.pc = .sweepMatch index armed caller ∧
    (armed.rule.tree.matcher (c.state.matchMetadata (c.state.armedResponse armed))).1 = false) ∨
  ∃ index caller, c.pc = .sweepAct index armed caller ∧ armed.NoServer env

/-- The next step ends the walk at the current rule or at the default server, or launches the query
of an `evaluate` rule that is not speculative. -/
def Config.Commits (env : Env) (c : Config) : Prop :=
  (c.pc = .head ∨ ∃ rule, c.pc = .acting rule) ∧
    ((∃ result, (c.walk env).pc = .done result) ∨
      (∃ exchange, (c.walk env).pc = .settle 0 (.resume (.pending exchange))) ∨
      ∃ rule server tag options, c.pc = .acting rule ∧
        rule.action = .evaluate server tag false options ∧
        (c.walk env).state.futures ≠ c.state.futures)

/-- The next step commits to an armed rule. -/
def Config.CommitsArmed (env : Env) (c : Config) (armed : ArmedRule) : Prop :=
  ∃ index caller, c.pc = .sweepAct index armed caller ∧ ¬ armed.Declines env

/-- Where a sweep is in the list of armed rules. -/
def PC.sweepIndex? : PC → Option ℕ
  | .sweep index _ => some index
  | .sweepReady index _ _ _ => some index
  | .sweepMatch index _ _ => some index
  | .sweepAct index _ _ => some index
  | _ => none

/-- The walk waits for its last exchange. -/
def Suspension.over : Suspension → Bool
  | .pending _ => true
  | _ => false

@[inherit_doc Suspension.over]
def Caller.over : Caller → Bool
  | .walk _ => false
  | .resume suspension => suspension.over

/-- The walk is committed. -/
def PC.over : PC → Bool
  | .done _ => true
  | .finishing _ => true
  | .resumed suspension => suspension.over
  | .blocked suspension => suspension.over
  | .settle _ caller => caller.over
  | .sweep _ caller => caller.over
  | .sweepReady _ _ _ caller => caller.over
  | .sweepMatch _ _ caller => caller.over
  | .sweepAct _ _ caller => caller.over
  | _ => false

section Commit

variable {env : Env} {c : Config}

theorem Config.Commits.armedRules_eq_nil (h : c.Commits env) : c.state.armedRules = [] := by
  obtain ⟨pc, s⟩ := c
  by_contra ha
  have ha : s.armedRules ≠ [] := ha
  obtain ⟨hpc, hc⟩ := h
  rcases hpc with hpc | ⟨rule, hpc⟩
  · obtain rfl : pc = .head := hpc
    simp only [Config.walk, head] at hc
    cases hg : env.rules[s.ruleIndex]? with
    | none =>
      rw [hg] at hc
      simp [ha, suspend] at hc
    | some rule =>
      rw [hg] at hc
      simp only at hc
      by_cases hb : rule.hasBindings = true
      · simp [hb] at hc
      · simp [hb] at hc
  · obtain rfl : pc = .acting rule := hpc
    rcases hc with hd | hp | ⟨rule, server, tag, options, heq, hact, hl⟩
    · revert hd
      apply act_cases (P := fun c => ¬ ∃ result, c.pc = .done result)
      all_goals simp [next, suspend, ha]
    · revert hp
      apply act_cases
        (P := fun c => ¬ ∃ exchange, c.pc = .settle 0 (.resume (.pending exchange)))
      all_goals simp [next, suspend, ha]
    · obtain rfl := PC.acting.inj heq
      apply hl
      simp only [Config.walk, act, hact, actEvaluate]
      cases env.transport server with
      | none => rfl
      | some transport => simp [ha, suspend]

theorem Config.walk_over (h : c.pc.over) : (c.walk env).pc.over := by
  obtain ⟨pc, s⟩ := c
  revert h
  apply walk_cases (Q := fun pc c => pc.over = true → c.pc.over = true)
  case sweepAct =>
    intro index armed caller h
    apply sweepAct_cases (P := fun c => c.pc.over = true)
    · exact fun _ => h
    all_goals intros; rfl
  case walkOn =>
    intro sus hp _ h
    cases sus with
    | pending exchange => exact absurd rfl (hp exchange)
    | _ => exact h
  -- Every other step keeps this, or starts where the walk is not committed.
  all_goals
    intros
    rename_i h
    first
      | exact h
      | exact absurd h (by simp [PC.over])

theorem Config.cancel_cases {P : Config → Prop} {err : String} (same : P c)
    (done : c.pc.sweepIndex? = none → ∀ result, P ⟨.done result, c.state⟩) : P (c.cancel err) := by
  unfold cancel
  split
  case h_1 sus hpc => exact done (by simp [hpc, PC.sweepIndex?]) _
  case h_2 exchange hpc =>
    split_ifs
    · exact done (by simp [hpc, PC.sweepIndex?]) _
    · exact same
  case h_3 => exact same

theorem step_over (h : c.pc.over) (event : Event) : (step env c event).pc.over := by
  cases event with
  | walk => exact walk_over h
  | complete f => exact h
  | cancel err => exact cancel_cases (P := fun c => c.pc.over = true) h fun _ _ => rfl

theorem step_of_sweeping (env : Env) {index : ℕ} (h : c.pc.sweepIndex? = some index) {event : Event}
    (hev : event ≠ .walk) : (step env c event).pc = c.pc ∧
      (step env c event).state.armedRules = c.state.armedRules := by
  cases event with
  | walk => exact absurd rfl hev
  | complete f => exact ⟨rfl, complete_armedRules _ _⟩
  | cancel err =>
    exact cancel_cases
      (P := fun c' => c'.pc = c.pc ∧ c'.state.armedRules = c.state.armedRules) ⟨rfl, rfl⟩
      fun hn => absurd (h.symm.trans hn) (by simp)

/-- A walk step keeps an armed rule in the list, takes it in hand, or ends the walk. -/
theorem Config.Queued.walk_mem (env : Env) (h : c.Queued) {armed : ArmedRule}
    (hm : armed ∈ c.state.armedRules) : armed ∈ (c.walk env).state.armedRules ∨
      (∃ index caller, (c.walk env).pc = .sweepMatch index armed caller) ∨
      (c.walk env).pc.over = true := by
  obtain ⟨pc, s⟩ := c
  have hm : armed ∈ s.armedRules := hm
  revert h
  apply walk_cases (Q := fun pc c => Config.Queued ⟨pc, s⟩ →
    armed ∈ c.state.armedRules ∨ (∃ index caller, c.pc = .sweepMatch index armed caller) ∨
      c.pc.over = true)
  case settle => exact fun _ _ _ _ _ => .inl (by simpa using hm)
  case raceTags =>
    intro rule tags pending _
    left
    cases tags with
    | cons tag tags => exact hm
    | nil =>
      simp only [WalkState.raceTags]
      split_ifs <;> exact List.mem_append_left _ hm
  case matching =>
    intro rule _
    left
    simp only [matching]
    split_ifs <;> exact hm
  case acting =>
    intro rule _
    left
    apply act_cases (P := fun c => armed ∈ c.state.armedRules)
    all_goals intros; exact hm
  case take =>
    intro index other caller h
    have hg : s.armedRules[index]? = some other := h.position.1
    obtain ⟨i, hi⟩ := List.mem_iff_getElem?.mp hm
    by_cases hs : i = index
    · subst hs
      obtain rfl := some.inj (hi.symm.trans hg)
      exact .inr (.inl ⟨i, caller, rfl⟩)
    · exact .inl (List.mem_eraseIdx_iff_getElem?.mpr ⟨i, hs, hi⟩)
  case sweepAct =>
    intro index other caller _
    apply sweepAct_cases (P := fun c => armed ∈ c.state.armedRules ∨
      (∃ index caller, c.pc = .sweepMatch index armed caller) ∨ c.pc.over = true)
    · exact fun _ => .inl hm
    all_goals intros; exact .inr (.inr rfl)
  all_goals intros; exact .inl hm

end Commit

/-! ### Runs -/

section Runs

variable {env : Env} {events : ℕ → Event} {c : Config} {armed : ArmedRule} {m n : ℕ}

/-- From time `m` on and before time `n` an armed rule has been evaluated with its futures resolved,
and passed over. -/
def PassedOver (env : Env) (events : ℕ → Event) (m n : ℕ) (armed : ArmedRule) : Prop :=
  ∃ k l, m ≤ k ∧ k ≤ l ∧ l < n ∧ events k = .walk ∧ events l = .walk ∧
    (exec env events k).Evaluates armed ∧ (exec env events l).PassesOver env armed

/-- A sweep has an armed rule in hand, or has passed over it. -/
def Handled (env : Env) (events : ℕ → Event) (m n : ℕ) (armed : ArmedRule) : Prop :=
  (∃ index caller, (exec env events n).pc = .sweepMatch index armed caller) ∨
  ((∃ index caller, (exec env events n).pc = .sweepAct index armed caller) ∧
    ∃ k, m ≤ k ∧ k < n ∧ events k = .walk ∧ (exec env events k).Evaluates armed) ∨
  PassedOver env events m n armed

theorem PassedOver.succ (h : PassedOver env events m n armed) :
    PassedOver env events m (n + 1) armed := by
  obtain ⟨k, l, hk, hkl, hl, hr⟩ := h
  exact ⟨k, l, hk, hkl, Nat.lt_succ_of_lt hl, hr⟩

theorem ArmedRule.NoServer.of_declines (hr : armed.rule.race)
    (h : armed.Declines env) : armed.NoServer env := by
  have hf := (armed.rule.race_final hr).1
  unfold ArmedRule.Declines at h
  cases ha : armed.rule.action with
  | route server speculative options =>
    rw [ha] at h hf
    obtain rfl : speculative = false := by simpa [isFinal] using hf
    exact ⟨server, options, ha, h⟩
  | reject act =>
    rw [ha] at h hf
    have hm : act.method ≠ .reply := by simpa [isFinal] using hf
    simp only [rejectResult] at h
    cases hc : act.method with
    | default => simp [hc] at h
    | drop => simp [hc] at h
    | reply => exact absurd hc hm
  | respond => simp [ha] at h
  | predefined response => simp [ha] at h
  | routeOptions options => simp [ha, isFinal] at hf
  | evaluate server tag speculative options => simp [ha, isFinal] at hf

theorem Handled.succ (hrs : Validated env.rules) (hmn : m ≤ n)
    (h : Handled env events m n armed) : Handled env events m (n + 1) armed ∨
      (exec env events (n + 1)).pc.over = true ∧
        (exec env events (n + 1)).pc.sweepIndex? = none := by
  have hs := exec_succ env events n
  rcases h with ⟨index, caller, hpc⟩ | ⟨⟨index, caller, hpc⟩, k, hk, hkn, hw, he⟩ | hp
  · have hh : (exec env events n).state.InHand index armed := by
      have hpos := (exec_queued hrs events n).position
      unfold Config.Position at hpos
      rwa [hpc] at hpos
    have he : (exec env events n).Evaluates armed := ⟨⟨index, caller, hpc⟩, hh.resolved⟩
    left
    by_cases hev : events n = .walk
    · cases hm : (armed.rule.tree.matcher ((exec env events n).state.matchMetadata
          ((exec env events n).state.armedResponse armed))).1 with
      | true =>
        refine .inr (.inl ⟨⟨index, caller, ?_⟩, n, hmn, n.lt_succ_self, hev, he⟩)
        rw [hs, hev]
        simp [step, Config.walk, hpc, sweepMatch, hm]
      | false =>
        exact .inr (.inr ⟨n, n, hmn, le_refl n, n.lt_succ_self, hev, hev, he,
          .inl ⟨index, caller, hpc, hm⟩⟩)
    · refine .inl ⟨index, caller, ?_⟩
      rw [hs, (step_of_sweeping env (congrArg PC.sweepIndex? hpc) hev).1, hpc]
  · by_cases hev : events n = .walk
    · by_cases hd : armed.Declines env
      · have hr : armed.rule.race = true := by
          have hpos := (exec_queued hrs events n).position
          unfold Config.Position at hpos
          rw [hpc] at hpos
          exact hpos.race
        refine .inl (.inr (.inr ⟨k, n, hk, le_of_lt hkn, n.lt_succ_self, hw, hev,
          he, .inr ⟨index, caller, hpc, .of_declines hr hd⟩⟩))
      · right
        rw [hs, hev]
        simp only [step, Config.walk, hpc]
        apply sweepAct_cases (P := fun c => c.pc.over = true ∧ c.pc.sweepIndex? = none)
        · exact fun h => absurd h hd
        all_goals intros; exact ⟨rfl, rfl⟩
    · refine .inl (.inr (.inl ⟨⟨index, caller, ?_⟩, k, hk, Nat.lt_succ_of_lt hkn, hw, he⟩))
      rw [hs, (step_of_sweeping env (congrArg PC.sweepIndex? hpc) hev).1, hpc]
  · exact .inl (.inr (.inr hp.succ))

/-- An armed rule stays in the list until a sweep takes it, or the walk commits. -/
theorem handled_of_armed (hrs : Validated env.rules) (hmn : m ≤ n)
    (hm : armed ∈ (exec env events m).state.armedRules) :
    armed ∈ (exec env events n).state.armedRules ∨ Handled env events m n armed ∨
      (exec env events n).pc.over = true := by
  induction n, hmn using Nat.le_induction with
  | base => exact .inl hm
  | succ n hmn ih =>
    rcases ih with hl | hh | ho
    · rw [exec_succ]
      cases hev : events n with
      | walk =>
        have hstep := (exec_queued hrs events n).walk_mem env hl
        refine hstep.imp_right (Or.imp_left fun hpc => .inl ?_)
        rw [exec_succ, hev]
        exact hpc
      | complete f => exact .inl (by simpa [step] using hl)
      | cancel err =>
        refine cancel_cases (P := fun c => armed ∈ c.state.armedRules ∨
          Handled env events m (n + 1) armed ∨ c.pc.over = true) (.inl hl) fun _ _ => ?_
        exact .inl hl
    · exact .inr ((hh.succ hrs hmn).imp_right And.left)
    · exact .inr (.inr (exec_succ env events n ▸ step_over ho _))

/-- A sweep that goes on has an armed rule with resolved futures before it, or takes it in hand. -/
theorem Config.Queued.walk_drop (h : c.Queued) {index index' : ℕ}
    (hpc : c.pc.sweepIndex? = some index) (hpc' : (c.walk env).pc.sweepIndex? = some index')
    (hm : armed ∈ c.state.armedRules.drop index)
    (hr : ∀ f ∈ armed.futures, c.state.resolved f = true) :
    armed ∈ (c.walk env).state.armedRules.drop index' ∨
      ∃ index caller, (c.walk env).pc = .sweepMatch index armed caller := by
  obtain ⟨pc, s⟩ := c
  have hm : armed ∈ s.armedRules.drop index := hm
  simp only [Config.walk] at hpc' ⊢
  cases pc with
  | sweep i caller =>
    obtain rfl := some.inj hpc
    left
    simp only [sweep] at hpc' ⊢
    cases hget : s.armedRules[i]? with
    | some other =>
      rw [hget] at hpc'
      obtain rfl := some.inj hpc'
      exact hm
    | none =>
      rw [hget] at hpc'
      cases caller <;> simp [next, PC.sweepIndex?] at hpc'
  | sweepReady i other futures caller =>
    obtain rfl := some.inj hpc
    obtain ⟨hget, -, hre⟩ := h.position
    have hget : s.armedRules[i]? = some other := hget
    rw [drop_eq_cons_of_getElem? hget, List.mem_cons] at hm
    cases futures with
    | cons g futures =>
      left
      simp only [sweepReady] at hpc' ⊢
      by_cases hg : s.resolved g = true
      · rw [if_pos hg] at hpc' ⊢
        obtain rfl := some.inj hpc'
        rwa [drop_eq_cons_of_getElem? hget, List.mem_cons]
      · rw [if_neg hg] at hpc' ⊢
        obtain rfl := some.inj hpc'
        refine hm.resolve_left ?_
        rintro rfl
        exact hg (hr g (hre g List.mem_cons_self))
    | nil =>
      obtain rfl := some.inj hpc'
      rcases hm with rfl | hm
      · exact .inr ⟨i, caller, rfl⟩
      · refine .inl ?_
        simpa only [sweepReady, drop_eraseIdx_self] using hm
  | sweepMatch i other caller =>
    obtain rfl := some.inj hpc
    left
    simp only [sweepMatch] at hpc' ⊢
    split_ifs at hpc' ⊢ <;> (obtain rfl := some.inj hpc'; exact hm)
  | sweepAct i other caller =>
    obtain rfl := some.inj hpc
    left
    revert hpc'
    apply sweepAct_cases (P := fun c => c.pc.sweepIndex? = some index' →
      armed ∈ c.state.armedRules.drop index')
    · intro _ hpc'
      obtain rfl := some.inj hpc'
      exact hm
    all_goals simp [PC.sweepIndex?, suspend]
  | _ => exact absurd hpc (by simp [PC.sweepIndex?])

theorem handled_of_sweep (hrs : Validated env.rules) (hmn : m ≤ n)
    (hsw : ∀ k, m ≤ k → k ≤ n → (exec env events k).pc.sweepIndex?.isSome = true)
    (hst : (exec env events m).pc.sweepIndex? = some 0)
    (hm : armed ∈ (exec env events m).state.armedRules)
    (hr : ∀ f ∈ (exec env events m).state.bound armed,
      (exec env events m).state.resolved f = true) :
    (∃ index, (exec env events n).pc.sweepIndex? = some index ∧
        armed ∈ (exec env events n).state.armedRules.drop index ∧
        ∀ f ∈ armed.futures, (exec env events n).state.resolved f = true) ∨
      Handled env events m n armed := by
  induction n, hmn using Nat.le_induction with
  | base =>
    have hfut := ((exec_queued hrs events m).waits armed hm).futures
    exact .inl ⟨0, hst, hm, fun f hf => hr f (hfut f hf)⟩
  | succ n hmn ih =>
    have hs := exec_succ env events n
    obtain ⟨index', hpc'⟩ := isSome_iff_exists.mp (hsw (n + 1) (by omega) (le_refl _))
    rcases ih fun k hk hkn => hsw k hk (by omega) with ⟨index, hpc, hl, hfut⟩ | hhnd
    · have hf' : ∀ f ∈ armed.futures, (exec env events (n + 1)).state.resolved f = true :=
        fun f hf => hs ▸ step_resolved (hfut f hf) _
      by_cases hev : events n = .walk
      · rw [hev] at hs
        rw [hs] at hpc'
        rcases (exec_queued hrs events n).walk_drop hpc hpc' hl hfut with hd | hh
        · exact .inl ⟨index', by rw [hs]; exact hpc', by rw [hs]; exact hd, hf'⟩
        · exact .inr (.inl (by rw [hs]; exact hh))
      · obtain ⟨hsa, ha⟩ := step_of_sweeping env hpc hev
        refine .inl ⟨index, ?_, ?_, hf'⟩
        · rw [hs, hsa, hpc]
        · rw [hs, ha]
          exact hl
    · refine .inr ((hhnd.succ hrs hmn).resolve_right fun ho => ?_)
      exact absurd (hpc'.symm.trans ho.2) (by simp)

/-- Race rules come first. In every run over an accepted list, for all outcomes and interleavings:
when the walk commits to the current rule, to an `evaluate` query that is not speculative or to the
default server, every rule that has been armed so far has been evaluated with its futures resolved,
and passed over; when a sweep commits to an armed rule, so has every earlier one that was armed with
its futures resolved when the sweep began. A rule is passed over when it does not match, or routes
to a server that is missing or skipped. -/
theorem race_rules_first (env : Env) (lookup : RuleSet → Except String RuleSetMetadata)
    (warnings : List String)
    (hvalid : validateLegacyDNSModeDisabledRules lookup env.rules = .ok warnings)
    (events : ℕ → Event) (n : ℕ) :
    ((exec env events n).Commits env → ∀ m ≤ n, ∀ armed ∈ (exec env events m).state.armedRules,
      PassedOver env events m n armed) ∧
    ∀ armed, (exec env events n).CommitsArmed env armed → ∀ m ≤ n,
      (∃ caller, (exec env events m).pc = .sweep 0 caller) →
      (∀ k, m ≤ k → k ≤ n → (exec env events k).pc.sweepIndex?.isSome = true) →
      ∀ earlier ∈ (exec env events m).state.armedRules, earlier.ruleIndex < armed.ruleIndex →
        (∀ f ∈ (exec env events m).state.bound earlier,
          (exec env events m).state.resolved f = true) → PassedOver env events m n earlier := by
  have hrs := Validated.of_validate hvalid
  constructor
  · intro hc m hmn armed hm
    rcases handled_of_armed hrs hmn hm with hl | hh | ho
    · rw [hc.armedRules_eq_nil] at hl
      exact absurd hl List.not_mem_nil
    · rcases hh with ⟨ix, caller, hpc⟩ | ⟨⟨ix, caller, hpc⟩, -⟩ | hp
      iterate 2 rcases hc.1 with h | ⟨rule, h⟩ <;> exact absurd (h.symm.trans hpc) (by simp)
      exact hp
    · rcases hc.1 with h | ⟨rule, h⟩ <;> simp [h, PC.over] at ho
  · rintro armed ⟨ix, caller, hpc, -⟩ m hmn ⟨caller', hst⟩ hs earlier hm hlt hr
    have hid : (exec env events m).pc.sweepIndex? = some 0 := by rw [hst]; rfl
    have hs := handled_of_sweep hrs hmn hs hid hm hr
    rcases hs with ⟨i, hi, hd, -⟩ | hh
    · -- The rules that the sweep has still to see come after the one in hand.
      rw [hpc] at hi
      obtain rfl := some.inj hi
      have hpos := (exec_queued hrs events n).position
      unfold Config.Position at hpos
      rw [hpc] at hpos
      exact absurd (hpos.before earlier hd) (Nat.not_lt.mpr (Nat.le_of_lt hlt))
    · rcases hh with ⟨i, caller', h⟩ | ⟨⟨i, caller', h⟩, -⟩ | hp
      · exact absurd (hpc.symm.trans h) (by simp)
      · obtain ⟨-, rfl, -⟩ := PC.sweepAct.inj (hpc.symm.trans h)
        exact absurd hlt (Nat.lt_irrefl _)
      · exact hp

end Runs

/-- Two race rules wait for the same response; the first routes to a server that does not exist. -/
def raceWithoutServer : Env := exampleEnv [
  evaluateAddresses,
  { tree := successful, action := .route "missing" false {}, race := true,
    race_final := by decide },
  { tree := successful, action := .respond, race := true, race_final := by decide }]

/-- The future completes when both rules are armed. -/
def completedWhenArmed (n : ℕ) : Event := if n = 13 then .complete 0 else .walk

theorem sweeping_completedWhenArmed (k : ℕ) (hk : 17 ≤ k) (hk' : k ≤ 26) :
    (exec raceWithoutServer completedWhenArmed k).pc.sweepIndex?.isSome := by
  have ha : ∀ k < 27, 17 ≤ k →
      (exec raceWithoutServer completedWhenArmed k).pc.sweepIndex?.isSome = true := by decide
  exact ha k (Nat.lt_succ_of_le hk') hk

/-- The sweep finds both rules ready. The first matches and is passed over, and the walk commits to
the second. -/
theorem race_rule_without_server :
    validateLegacyDNSModeDisabledRules (fun _ => .error "") raceWithoutServer.rules = .ok [] ∧
      ∃ armed earlier, (exec raceWithoutServer completedWhenArmed 26).CommitsArmed
          raceWithoutServer armed ∧
        (exec raceWithoutServer completedWhenArmed 17).state.armedRules = [earlier, armed] ∧
        earlier.ruleIndex < armed.ruleIndex ∧
        (∀ f ∈ (exec raceWithoutServer completedWhenArmed 17).state.bound earlier,
          (exec raceWithoutServer completedWhenArmed 17).state.resolved f = true) ∧
        (∀ k, 17 ≤ k → k ≤ 26 →
          (exec raceWithoutServer completedWhenArmed k).pc.sweepIndex?.isSome = true) ∧
        (exec raceWithoutServer completedWhenArmed 20).Evaluates earlier ∧
        ∃ metadata, (exec raceWithoutServer completedWhenArmed 20).evaluates =
            some (earlier.rule, metadata) ∧ (earlier.rule.tree.matcher metadata).1 = true :=
  ⟨rfl, _, _, ⟨0, _, rfl, fun h => h⟩, rfl, by decide, by decide, sweeping_completedWhenArmed,
    ⟨⟨0, _, rfl⟩, by decide⟩, _, rfl, rfl⟩

/-- The same rules, with a response that neither matches. -/
def raceWithoutMatch : Env :=
  { raceWithoutServer with
    exchange := fun _ _ message _ => ⟨some { id := message.id, rcode := 3 }, none⟩ }

theorem race_rules_first_both :
    (∃ armed earlier, (exec raceWithoutMatch completedWhenArmed 27).Commits raceWithoutMatch ∧
      (exec raceWithoutMatch completedWhenArmed 13).state.armedRules = [earlier, armed] ∧
      PassedOver raceWithoutMatch completedWhenArmed 13 27 earlier ∧
      PassedOver raceWithoutMatch completedWhenArmed 13 27 armed) ∧ ∃ armed earlier,
      (exec raceWithoutServer completedWhenArmed 26).CommitsArmed raceWithoutServer armed ∧
      (exec raceWithoutServer completedWhenArmed 17).state.armedRules = [earlier, armed] ∧
      PassedOver raceWithoutServer completedWhenArmed 17 26 earlier := by
  constructor
  · have hc : (exec raceWithoutMatch completedWhenArmed 27).Commits raceWithoutMatch :=
      ⟨.inl rfl, .inr (.inl ⟨_, rfl⟩)⟩
    have hf := (race_rules_first raceWithoutMatch (fun _ => .error "") [] rfl
      completedWhenArmed 27).1 hc 13 (by decide)
    exact ⟨_, _, hc, rfl, hf _ List.mem_cons_self, hf _ (List.mem_cons_of_mem _ List.mem_cons_self)⟩
  · refine ⟨_, _, ⟨0, _, rfl, fun h => h⟩, rfl, ?_⟩
    exact (race_rules_first raceWithoutServer (fun _ => .error "") [] rfl completedWhenArmed 26).2 _
      ⟨0, _, rfl, fun h => h⟩ 17 (by decide) ⟨_, rfl⟩ sweeping_completedWhenArmed _
      List.mem_cons_self (by decide) (by decide)

end SingBox.DNS.Walk
