import SingBox.DNS.Walk.Sequential

/-!
# Walks without race rules end

Every step of a walk without race rules, and every completion, that changes anything decreases a
measure: the rules that are left, the futures that are not done, the wake-up that has not been
received, and the way to the end of the round. The walk comes to rest, and a walk at rest is done
when the walker keeps moving and every launched future completes.
-/

namespace SingBox.DNS.Walk

open SingBox.Adapter SingBox.Rule Foundation WalkState Config List

/-! ### The measure -/

/-- The futures that are not done. -/
def WalkState.undone (s : WalkState) : ℕ := (s.futures.map Future.done).count false

/-- The number of tags of the current rule. -/
def WalkState.tagCount (env : Env) (s : WalkState) : ℕ :=
  (env.rules[s.ruleIndex]?).elim 0 fun rule => rule.tree.matchResponseTags.length

/-- The steps to the end of the round, from the head of the loop. -/
def WalkState.headRank (env : Env) (s : WalkState) : ℕ :=
  2 * s.futures.length + s.tagCount env + 10

/-- The steps to the end of the round for a suspended walk, of which `rank` are in the round. When
the future that it waits for is resolved, the walk begins the next round. -/
def Suspension.rank (env : Env) (s : WalkState) (rank : ℕ) : Suspension → ℕ
  | .await f => if s.resolved f then s.headRank env + 1 + rank else rank
  | _ => rank

/-- The steps to the end of the round. -/
def Config.rank (env : Env) (c : Config) : ℕ :=
  match c.pc with
  | .head => c.state.headRank env
  | .settle k (.walk rule) => c.state.futures.length - k + rule.tree.matchResponseTags.length +
      c.state.futures.length + 9
  | .awaitTags _ tags => tags.length + c.state.futures.length + 8
  | .matching _ => c.state.futures.length + 7
  | .acting _ => c.state.futures.length + 6
  | .settle k (.resume suspension) =>
    suspension.rank env c.state (c.state.futures.length - k + 4)
  | .sweep _ (.resume suspension) => suspension.rank env c.state 3
  | .resumed suspension => suspension.rank env c.state 2
  | .blocked suspension => suspension.rank env c.state 1
  | _ => 0

/-- The rules that are left, before the last exchange and the end. -/
def Suspension.phase (env : Env) (s : WalkState) : Suspension → ℕ
  | .pending _ => 2
  | _ => 3 + (env.rules.length - s.ruleIndex)

@[inherit_doc Suspension.phase]
def Config.phase (env : Env) (c : Config) : ℕ :=
  match c.pc with
  | .settle _ (.resume suspension) => suspension.phase env c.state
  | .sweep _ (.resume suspension) => suspension.phase env c.state
  | .resumed suspension => suspension.phase env c.state
  | .blocked suspension => suspension.phase env c.state
  | .finishing _ => 1
  | .done _ => 0
  | _ => 3 + (env.rules.length - c.state.ruleIndex)

/-- The measure of a walk. -/
def Config.measure (env : Env) (c : Config) : ℕ × ℕ × ℕ × ℕ :=
  (c.phase env, c.state.undone, c.state.wake.toNat, c.rank env)

/-- The lexicographic order. -/
def Smaller : ℕ × ℕ × ℕ × ℕ → ℕ × ℕ × ℕ × ℕ → Prop :=
  Prod.Lex (· < ·) (Prod.Lex (· < ·) (Prod.Lex (· < ·) (· < ·)))

theorem wellFounded_smaller : WellFounded Smaller :=
  (Prod.lex Nat.lt_wfRel (Prod.lex Nat.lt_wfRel (Prod.lex Nat.lt_wfRel Nat.lt_wfRel))).wf

variable {a a' b b' c c' d d' : ℕ}

open Prod.Lex

theorem Smaller.of_phase (h : a' < a) : Smaller (a', b', c', d') (a, b, c, d) := left _ _ h

theorem Smaller.of_undone (ha : a' = a) (h : b' < b) : Smaller (a', b', c', d') (a, b, c, d) := by
  subst ha
  exact right _ (left _ _ h)

theorem Smaller.of_wake (ha : a' = a) (hb : b' = b) (h : c' < c) :
    Smaller (a', b', c', d') (a, b, c, d) := by
  subst ha hb
  exact right _ (right _ (left _ _ h))

theorem Smaller.of_rank (ha : a' = a) (hb : b' = b) (hc : c' = c) (h : d' < d) :
    Smaller (a', b', c', d') (a, b, c, d) := by
  subst ha hb hc
  exact right _ (right _ (right _ h))

/-! ### The measure decreases -/

open Smaller

section Decrease

variable {env : Env} {s : WalkState}

theorem Suspension.rank_lt {rank rank' : ℕ} (h : rank' < rank) (sus : Suspension) :
    sus.rank env s rank' < sus.rank env s rank := by
  cases sus with
  | await f =>
    simp only [Suspension.rank]
    split_ifs <;> omega
  | _ => exact h

theorem WalkState.resolved_eq (f : ℕ) : s.resolved f = (s.futures.map Future.done)[f]?.any id := by
  unfold resolved
  rw [getElem?_map]
  cases s.futures[f]? <;> rfl

/-- Settling a future changes neither what is done nor how many futures there are. -/
theorem WalkState.settleFuture_done {k : ℕ} {future : Future} (hk : s.futures[k]? = some future) :
    (s.settleFuture k future).futures.map Future.done = s.futures.map Future.done := by
  obtain ⟨hlt, hg⟩ := List.getElem?_eq_some_iff.mp hk
  rw [settleFuture_futures hk, map_set]
  have hs : (s.futures.map Future.done)[k]? = some future.done := by simp [hk]
  obtain ⟨hlt, hg⟩ := List.getElem?_eq_some_iff.mp hs
  rw [← hg]
  exact set_getElem_self hlt

theorem WalkState.settleFuture_wake (k : ℕ) (future : Future) :
    (s.settleFuture k future).wake = s.wake := by
  unfold settleFuture
  split_ifs <;> rfl

theorem Config.measure_settleFuture {k : ℕ} {future : Future} (hk : s.futures[k]? = some future)
    (caller : Caller) : Smaller
      (measure env ⟨.settle (k + 1) caller, s.settleFuture k future⟩)
        (measure env ⟨.settle k caller, s⟩) := by
  have hlt := (List.getElem?_eq_some_iff.mp hk).1
  have hd := settleFuture_done hk
  have hl : (s.settleFuture k future).futures.length = s.futures.length := by
    rw [settleFuture_futures hk, length_set]
  have hr : ∀ f, (s.settleFuture k future).resolved f = s.resolved f := fun f => by
    rw [resolved_eq, resolved_eq, hd]
  have ht : (s.settleFuture k future).tagCount env = s.tagCount env := by
    unfold tagCount
    rw [settleFuture_ruleIndex]
  refine of_rank ?_ ?_ ?_ ?_
  · cases caller with
    | walk rule => simp [phase]
    | resume sus => cases sus <;> simp [phase, Suspension.phase]
  · unfold undone
    rw [hd]
  · rw [settleFuture_wake]
  · cases caller with
    | walk rule =>
      simp only [rank, hl]
      omega
    | resume sus =>
      have hs : ∀ rank, sus.rank env (s.settleFuture k future) rank =
          sus.rank env s rank := by
        intro rank
        cases sus with
        | await f => simp only [Suspension.rank, hr, headRank, hl, ht]
        | _ => rfl
      simp only [rank, hs, hl]
      exact Suspension.rank_lt (by omega) sus

/-- A walk that waits for a future that is not resolved is near the end of its round. -/
theorem Config.rank_suspend_await {f : ℕ} (hf : s.resolved f = false) :
    (s.suspend (.await f)).rank env = s.futures.length + 4 := by
  simp [suspend, rank, Suspension.rank, hf]

theorem Config.measure_next {rule : Rule} (hr : env.rules[s.ruleIndex]? = some rule)
    {s' : WalkState} (hi : s'.ruleIndex = s.ruleIndex) (pc : PC)
    (hph : phase env ⟨pc, s⟩ = 3 + (env.rules.length - s.ruleIndex)) :
    Smaller (s'.next.measure env) (measure env ⟨pc, s⟩) := by
  have hlt := (List.getElem?_eq_some_iff.mp hr).1
  refine of_phase ?_
  rw [hph]
  simp only [WalkState.next, phase, hi]
  omega

theorem Config.Plain.measure_act {rule : Rule} (hwf : Config.WF env ⟨.acting rule, s⟩)
    (h : Config.Plain env ⟨.acting rule, s⟩) :
    Smaller ((s.act env rule).measure env) (measure env ⟨.acting rule, s⟩) := by
  have hs : s.Plain env := h.state
  have hr : env.rules[s.ruleIndex]? = some rule := hwf.rule rule rfl
  apply act_cases
    (P := fun c => Smaller (c.measure env) (measure env ⟨.acting rule, s⟩))
  · intro op anon _
    exact measure_next hr rfl (.acting rule) rfl
  · exact fun ha => absurd hs.armed ha
  · intro f _ hf
    refine of_rank rfl rfl rfl ?_
    rw [rank_suspend_await hf]
    simp only [rank]
    omega
  · intro _ ex _
    refine of_phase ?_
    simp only [suspend, phase, Suspension.phase]
    omega
  · intro _ result
    refine of_phase ?_
    simp only [phase]
    omega
  · intro future _ _
    refine measure_next hr ?_ (.acting rule) rfl
    rfl
  · intro future _ _ _
    refine measure_next hr ?_ (.acting rule) rfl
    rfl
  · exact fun ha => absurd hs.armed ha

/-- A step of the walker decreases the measure, unless the walk is done or waits for a wake-up. -/
theorem Config.Plain.measure_walk (hra : ∀ rule ∈ env.rules, rule.race = false) {c : Config}
    (hwf : c.WF env) (h : c.Plain env) : (∃ result, c.pc = .done result) ∨
      (∃ f, c.pc = .blocked (.await f) ∧ c.state.wake = false ∧ c.walk env = c) ∨
      Smaller ((c.walk env).measure env) (c.measure env) := by
  obtain ⟨pc, s⟩ := c
  have hs : s.Plain env := h.state
  have ht : ∀ rule, env.rules[s.ruleIndex]? = some rule →
      s.tagCount env = rule.tree.matchResponseTags.length := by
    intro rule hg
    simp [tagCount, hg]
  revert hwf h
  apply walk_cases (Q := fun pc c => Config.WF env ⟨pc, s⟩ → Config.Plain env ⟨pc, s⟩ →
    (∃ result, pc = .done result) ∨ (∃ f, pc = .blocked (.await f) ∧ s.wake = false ∧ c = ⟨pc, s⟩) ∨
      Smaller (c.measure env) (measure env ⟨pc, s⟩))
  case done => exact fun result _ _ => .inl ⟨result, rfl⟩
  case asleep =>
    intro sus hw _ h
    obtain ⟨f, rfl⟩ := h.pc
    exact .inr (.inl ⟨f, rfl, hw, rfl⟩)
  all_goals
    intros
    right; right
  case wake hw _ h =>
    obtain ⟨f, rfl⟩ := h.pc
    refine of_wake rfl rfl ?_
    change (false).toNat < s.wake.toNat
    rw [hw]
    decide
  case headEnd hg hp _ _ =>
    obtain rfl := hp hs.armed
    refine of_phase ?_
    simp only [suspend, phase, Suspension.phase]
    omega
  case headBinds rule hg _ _ | headMatch rule hg _ _ _ =>
    refine of_rank rfl rfl rfl ?_
    simp only [rank, headRank, ht rule hg]
    omega
  case settle k caller future hk _ _ => exact measure_settleFuture hk caller
  case resume sus _ _ _ =>
    refine of_rank rfl rfl rfl ?_
    simp only [rank]
    exact Suspension.rank_lt (by omega) sus
  case awaitTags f hf _ _ _ =>
    refine of_rank rfl rfl rfl ?_
    rw [rank_suspend_await hf]
    simp only [rank]
    omega
  case await | awaitNext | awaited =>
    refine of_rank rfl rfl rfl ?_
    simp only [rank, length_cons]
    omega
  case matching rule hwf _ =>
    rw [hs.matching_eq]
    split_ifs
    · refine of_rank rfl rfl rfl ?_
      simp only [rank]
      omega
    · exact measure_next (hwf.rule rule rfl) rfl (.matching rule) rfl
  case acting hwf h => exact h.measure_act hwf
  case sweepEnd sus _ _ =>
    exact of_rank rfl rfl rfl (Suspension.rank_lt (by omega) sus)
  case finish =>
    exact of_phase (by simp [phase, Suspension.phase])
  case walkOn sus hp hre _ h =>
    cases sus with
    | pending exchange => exact absurd rfl (hp exchange)
    | await f =>
      refine of_rank rfl rfl rfl ?_
      simp only [rank, Suspension.rank, hre f rfl, if_true]
      omega
    | drain => exact absurd h.pc id
  case block sus hp ho _ h =>
    cases sus with
    | pending exchange => exact absurd rfl (hp exchange)
    | await f =>
      refine of_rank rfl rfl rfl ?_
      simp [rank, Suspension.rank, ho f rfl]
    | drain => exact absurd h.pc id
  case finished => exact of_phase (by simp [phase])
  case finishing hfu _ h => exact absurd h.pc hfu
  -- A plain walk has no race rules and no armed rules.
  case race rule _ hr hwf _ =>
    rw [hra rule (mem_of_getElem? (hwf.rule rule rfl))] at hr
    exact absurd hr Bool.false_ne_true
  case sweep hg _ _ =>
    rw [hs.armed] at hg
    cases hg
  all_goals
    rename_i h
    exact absurd h.pc id

theorem Config.measure_complete (c : Config) (f : ℕ) : { c with state := c.state.complete f } = c ∨
      Smaller (measure env { c with state := c.state.complete f }) (c.measure env) := by
  unfold complete
  cases hf : c.state.futures[f]? with
  | none => exact .inl rfl
  | some future =>
    simp only
    by_cases hd : future.done = true
    · rw [if_pos hd]
      exact .inl rfl
    rw [if_neg hd]
    refine .inr (of_undone rfl ?_)
    have hg : (c.state.futures.map Future.done)[f]? = some false := by
      simpa [hf] using hd
    obtain ⟨hlt, hfa⟩ := List.getElem?_eq_some_iff.mp hg
    have hpos := count_pos_iff.mpr (mem_of_getElem? hg)
    simp only [undone, map_set, count_set hlt, hfa]
    simp only [beq_self_eq_true, if_true, Bool.true_beq, Bool.false_eq_true, if_false]
    omega

end Decrease

/-! ### Fair runs -/

/-- The walker keeps moving, every launched future completes, and the query is not cancelled. -/
structure Fair (env : Env) (events : ℕ → Event) : Prop where
  walks : ∀ n, ∃ m, n ≤ m ∧ events m = .walk
  completes : ∀ n f, f < (exec env events n).state.futures.length →
    ∃ m, (exec env events m).state.resolved f = true
  goes_on : ∀ n err, events n ≠ .cancel err

section Fair

variable {env : Env} {events : ℕ → Event}

theorem exec_done (hrs : Validated env.rules) (hra : ∀ rule ∈ env.rules, rule.race = false)
    (ho : ∀ n, ¬ Overtaken (exec env events n) (events n)) (hfa : Fair env events) :
    ∃ N result, ∀ n, N ≤ n → (exec env events n).pc = .done result := by
  have hstep : ∀ n, exec env events (n + 1) = exec env events n ∨
      Smaller ((exec env events (n + 1)).measure env) ((exec env events n).measure env) := by
    intro n
    rw [exec_succ]
    cases hev : events n with
    | walk =>
      have hp := exec_plain hrs hra ho n
      rcases hp.measure_walk hra (exec_wf hrs events n) with ⟨r, hr⟩ | ⟨f, -, -, hf⟩ | h
      · left
        simp only [step, walk, hr]
      · exact .inl hf
      · exact .inr h
    | complete f => exact measure_complete _ f
    | cancel err => exact absurd hev (hfa.goes_on n err)
  obtain ⟨N, hre⟩ := eventually_const wellFounded_smaller (measure env) _ hstep
  obtain ⟨m, hm, hw⟩ := hfa.walks N
  -- The walker moves once more and stays where it is.
  have hs : (exec env events N).walk env = exec env events N := by
    have hne := exec_succ env events m
    rw [hw, hre m hm, hre (m + 1) (Nat.le_succ_of_le hm)] at hne
    exact hne.symm
  have hp := exec_plain hrs hra ho N
  rcases hp.measure_walk hra (exec_wf hrs events N) with ⟨r, hr⟩ | ⟨f, hpc, hwa, -⟩ | h
  · exact ⟨N, r, fun n hn => by rw [hre n hn, hr]⟩
  · -- The future that the walk waits for is done at some time, hence at rest.
    have hrdy := hp.ready
    unfold Config.Ready at hrdy
    rw [hpc] at hrdy
    obtain ⟨k, hk⟩ := hfa.completes N f hrdy.1
    have hres := exec_resolved (le_max_right N k) hk
    rw [hre _ (le_max_left N k)] at hres
    exact absurd (hrdy.2 f rfl hres) (by simp [hwa])
  · rw [hs] at h
    exact absurd h (wellFounded_smaller.asymmetric _ _ h)

/-- The walker is between two iterations of its loops. -/
def PC.between : PC → Bool
  | .head => true
  | .settle k _ => decide (k = 0)
  | .blocked _ => true
  | .finishing _ => true
  | .done _ => true
  | _ => false

/-- Completions that are observed between two iterations overtake nothing. -/
theorem not_overtaken_of_between {c : Config} {event : Event}
    (h : ∀ f, event = .complete f → c.pc.between = true) : ¬ Overtaken c event := by
  obtain ⟨pc, s⟩ := c
  cases event with
  | complete f =>
    rintro ⟨ht, -⟩
    have hb := h f rfl
    cases pc with
    | settle k caller =>
      obtain rfl : k = 0 := by simpa [PC.between] using hb
      cases caller <;> exact absurd ht.1 (Nat.not_lt_zero f)
    | head => exact ht
    | blocked sus => exact ht
    | finishing exchange => exact ht
    | done result => exact ht
    | _ => exact absurd hb (by simp [PC.between])
  | _ => exact fun ho => ho

/-- Without race rules the walk does not depend on the order of events. Over an accepted list
without race rules, for all outcomes of the queries, every fair run in which the settle passes and
the tests that follow them see the same completions ends with the result of the sequential walk: the
rule it commits to, the server and the options of the last exchange, the response and the error. -/
theorem walk_eq_sequential (env : Env) (lookup : RuleSet → Except String RuleSetMetadata)
    (warnings : List String)
    (hvalid : validateLegacyDNSModeDisabledRules lookup env.rules = .ok warnings)
    (hrace : ∀ rule ∈ env.rules, rule.race = false) (events : ℕ → Event)
    (hover : ∀ n, ¬ Overtaken (exec env events n) (events n)) (hfair : Fair env events) :
    ∃ N, ∀ n, N ≤ n → (exec env events n).pc = .done (sequential env) := by
  have hrs := Validated.of_validate hvalid
  obtain ⟨N, res, hd⟩ := exec_done hrs hrace hover hfair
  refine ⟨N, fun n hn => ?_⟩
  have ht := exec_target hrs hrace hover hfair.goes_on n
  unfold target at ht
  rw [hd n hn] at ht ⊢
  rw [← ht]

end Fair

/-! ### A fair run -/

theorem exec_eq_of_done {env : Env} {events : ℕ → Event} {N : ℕ} {result : Result}
    (hd : (exec env events N).pc = .done result) (hw : ∀ n, N ≤ n → events n = .walk) {n : ℕ}
    (hn : N ≤ n) : exec env events n = exec env events N := by
  induction n, hn using Nat.le_induction with
  | base => rfl
  | succ n hn ih =>
    rw [exec_succ, hw n hn, ih]
    simp only [step, walk, hd]

theorem fair_completedBefore : Fair evaluateAndRespond completedBefore := by
  have hr : ∀ {n}, 12 ≤ n → exec evaluateAndRespond completedBefore n =
      exec evaluateAndRespond completedBefore 12 := by
    refine exec_eq_of_done rfl fun n hn => ?_
    rw [completedBefore, if_neg (by omega)]
  have hl : ∀ n, (exec evaluateAndRespond completedBefore n).state.futures.length ≤ 1 := by
    have ha : ∀ n < 13,
        (exec evaluateAndRespond completedBefore n).state.futures.length ≤ 1 := by decide
    intro n
    by_cases hn : n < 13
    · exact ha n hn
    · rw [hr (by omega)]
      exact ha 12 (by decide)
  refine ⟨fun n => ⟨n + 4, by omega, ?_⟩, fun n f hf => ⟨4, ?_⟩, fun n err => ?_⟩
  · rw [completedBefore, if_neg (by omega)]
  · obtain rfl : f = 0 := by
      have := hl n
      omega
    rfl
  · unfold completedBefore
    split_ifs <;> simp

theorem walk_eq_sequential_respond :
    sequential evaluateAndRespond = {
      response := some { id := 7, response := true }
      transport := some ⟨"local", "udp"⟩
      rule := some 1 } ∧
    ∃ N, ∀ n, N ≤ n →
      (exec evaluateAndRespond completedBefore n).pc = .done (sequential evaluateAndRespond) := by
  refine ⟨by decide, walk_eq_sequential evaluateAndRespond (fun _ => .error "") [] rfl ?_
    completedBefore (fun n => not_overtaken_of_between fun f hf => ?_) fair_completedBefore⟩
  · simp [evaluateAndRespond, exampleEnv, evaluateAddresses]
  · unfold completedBefore at hf
    split_ifs at hf with hn
    subst hn
    rfl

end SingBox.DNS.Walk
