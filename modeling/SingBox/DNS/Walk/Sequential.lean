import SingBox.DNS.Walk.Plain

/-!
# The sequential walk

The walk that a rule list stands for runs every `evaluate` query to its end before it goes on. A
walk over an accepted list without race rules has the result of the sequential walk, whatever the
order in which its futures complete: at every place the result that is left to compute is the same.
-/

namespace SingBox.DNS.Walk

open SingBox.Adapter SingBox.Rule Foundation WalkState List DNSRule Option

/-! ### The sequential walk -/

/-- A query that has been answered. -/
structure Evaluated where
  transport : DNSTransport
  outcome : Outcome

/-- The response that a rule may read. -/
def Evaluated.view (e : Evaluated) : Option Msg := e.outcome.view

/-- The state of the sequential walk. -/
@[ext]
structure SequentialState where
  options : DNSQueryOptions
  anonymous : Option Evaluated := none
  named : String → Option Evaluated := fun _ => none

/-- What a rule that matches does: the walk goes on, ends with an exchange, or ends. -/
inductive Verdict where
  | next (state : SequentialState)
  | exchange (last : PendingExchange)
  | done (result : Result)

namespace SequentialState

variable (env : Env) (q : SequentialState)

/-- The metadata that a rule is matched against. -/
def metadata : InboundContext :=
  env.matchMetadata (q.anonymous.bind Evaluated.view) fun tag => (q.named tag).bind Evaluated.view

/-- The action `evaluate` of rule `i`, which waits for the answer. -/
def evaluate (i : ℕ) (server tag : String) (options : DNSRouteOptions) : SequentialState :=
  match env.transport server with
  | none => if tag = "" then { q with anonymous := none } else q
  | some transport =>
    let answer : Evaluated :=
      ⟨transport, env.ask (some i) transport (applyDNSRouteOptions q.options options)⟩
    if tag = "" then { q with anonymous := some answer }
    else { q with named := Function.update q.named tag (some answer) }

/-- The action `respond` of rule `i`. -/
def respond (i : ℕ) (tag : String) : Result :=
  let answer := if tag ≠ "" then q.named tag else q.anonymous
  respondResult i (answer.bind Evaluated.view) (answer.map Evaluated.transport)

/-- The action of rule `i`. -/
def act (i : ℕ) (rule : Rule) : Verdict :=
  match rule.action with
  | .routeOptions options => .next { q with options := applyDNSRouteOptions q.options options }
  | .evaluate server tag _ options => .next (q.evaluate env i server tag options)
  | .respond => .done (q.respond i rule.tree.matchResponseTag)
  | .route server _ options =>
    match env.resolveDNSRoute server options q.options with
    | none => .next q
    | some (transport, queryOptions) =>
      .exchange { rule := some i, transport := transport, options := queryOptions }
  | .reject action =>
    match rejectResult env i action with
    | some result => .done result
    | none => .next q
  | .predefined response => .done (predefinedResult env i response)

end SequentialState

/-- The result of an exchange. -/
def exchangeResult (env : Env) (exchange : PendingExchange) : Result :=
  let outcome := env.ask exchange.rule exchange.transport exchange.options
  { response := outcome.response
    transport := some exchange.transport
    err := outcome.err
    rule := exchange.rule
    options := some (env.finalizeExchangeOptions exchange.options) }

/-- The sequential walk over the rules that are left, the first of which is rule `i`. -/
def sequentialWalk (env : Env) : ℕ → List Rule → SequentialState → Result
  | _, [], q => exchangeResult env
      { rule := none, transport := env.defaultTransport, options := q.options }
  | i, rule :: rules, q =>
    if (rule.tree.matcher (q.metadata env)).1 then
      match q.act env i rule with
      | .next q => sequentialWalk env (i + 1) rules q
      | .exchange last => exchangeResult env last
      | .done result => result
    else sequentialWalk env (i + 1) rules q

/-- The sequential walk of a query. -/
def sequential (env : Env) : Result := sequentialWalk env 0 env.rules { options := env.options }

/-! ### What is left to compute -/

/-- The answer that a future has or will have. -/
def WalkState.evaluated (s : WalkState) (f : ℕ) : Option Evaluated :=
  s.futures[f]?.map fun future => ⟨future.transport, future.outcome⟩

/-- The sequential state, with the answers of all futures. -/
def WalkState.sequential (s : WalkState) : SequentialState where
  options := s.effectiveOptions
  anonymous := s.anonymousFuture.bind s.evaluated
  named tag := (s.namedFutures tag).bind s.evaluated

/-- The result of the sequential walk from the current rule on. -/
def WalkState.remaining (env : Env) (s : WalkState) : Result :=
  sequentialWalk env s.ruleIndex (env.rules.drop s.ruleIndex) s.sequential

/-- The result that is left to compute for a suspended walk. -/
def Suspension.target (env : Env) (s : WalkState) : Suspension → Result
  | .pending exchange => exchangeResult env exchange
  | _ => s.remaining env

/-- The result that is left to compute. -/
def Config.target (env : Env) (c : Config) : Result :=
  match c.pc with
  | .settle _ (.resume suspension) => suspension.target env c.state
  | .sweep _ (.resume suspension) => suspension.target env c.state
  | .resumed suspension => suspension.target env c.state
  | .blocked suspension => suspension.target env c.state
  | .finishing exchange => exchangeResult env exchange
  | .done result => result
  | _ => c.state.remaining env

/-- What a verdict leaves to compute after rule `i`. -/
def Verdict.target (env : Env) (i : ℕ) : Verdict → Result
  | .next q => sequentialWalk env (i + 1) (env.rules.drop (i + 1)) q
  | .exchange last => exchangeResult env last
  | .done result => result

section Remaining

variable {env : Env} {s s' : WalkState}

theorem SequentialState.clean_metadata (env : Env) (q : SequentialState) : Clean (q.metadata env) :=
  env.clean_matchMetadata _ _

theorem WalkState.remaining_of_rule {rule : Rule} (hr : env.rules[s.ruleIndex]? = some rule) :
    s.remaining env = if rule.tree.value (s.sequential.metadata env) = true then
        (s.sequential.act env s.ruleIndex rule).target env s.ruleIndex
      else sequentialWalk env (s.ruleIndex + 1) (env.rules.drop (s.ruleIndex + 1))
        s.sequential := by
  obtain ⟨hlt, rfl⟩ := List.getElem?_eq_some_iff.mp hr
  have hm := matcher_computes env.rules[s.ruleIndex].tree _ (s.sequential.clean_metadata env)
  unfold remaining
  rw [drop_eq_getElem_cons hlt, sequentialWalk]
  simp only [matcher, hm]
  split_ifs
  · cases s.sequential.act env s.ruleIndex env.rules[s.ruleIndex] <;> rfl
  · rfl

theorem WalkState.remaining_of_end (he : env.rules[s.ruleIndex]? = none) :
    s.remaining env = exchangeResult env
      { rule := none, transport := env.defaultTransport, options := s.effectiveOptions } := by
  unfold remaining
  rw [drop_eq_nil_of_le (getElem?_eq_none_iff.mp he)]
  rfl

end Remaining

/-! ### What the walker has seen -/

open Evaluated SequentialState

section Seen

variable {env : Env} {s s' : WalkState} {future : Future}

theorem WalkState.evaluated_of_getElem? {f : ℕ} (hf : s.futures[f]? = some future) :
    s.evaluated f = some ⟨future.transport, future.outcome⟩ := by
  simp [evaluated, hf]

/-- A tag that the walker has seen has the response and the server of the sequential walk. -/
theorem WalkState.Plain.named_eq (hwf : s.WF env) (h : s.Plain env) {rule : Rule}
    (hfi : s.Files rule [] []) {tag : String} (ht : tag ∈ rule.tree.matchResponseTags) :
    s.namedResponses tag = (s.sequential.named tag).bind Evaluated.view ∧
      s.namedTransports tag = (s.sequential.named tag).map transport := by
  cases hnm : s.namedFutures tag with
  | none => simpa [sequential, hnm] using h.unfiled tag hnm
  | some f =>
    have ha := (hfi tag ht).resolve_left not_mem_nil
    obtain ⟨future, hg, hs⟩ := (ha f hnm).resolve_right not_mem_nil
    obtain ⟨x, hx, rfl, hne⟩ := hwf.named hnm
    obtain rfl := some.inj (hx.symm.trans hg)
    obtain ⟨hd, hf⟩ := hwf.settled hg hs
    obtain ⟨hr, htr⟩ := hf hne
    simp only [sequential, hnm, bind_some, evaluated_of_getElem? hg, map_some]
    exact ⟨by rw [hr, Future.view, if_pos hd]; rfl, htr⟩

theorem WalkState.anonymousResponse_eq
    (h : ∀ f, s.anonymousFuture = some f → s.resolved f = true) :
    s.anonymousResponse = s.sequential.anonymous.bind Evaluated.view := by
  unfold anonymousResponse sequential
  cases hf : s.anonymousFuture with
  | none => rfl
  | some f =>
    obtain ⟨future, hg, hd⟩ := resolved_iff.mp (h f hf)
    simp only [bind_some, view, hg, evaluated_of_getElem? hg, Future.view, if_pos hd]
    rfl

theorem WalkState.anonymousTransport_eq :
    s.anonymousFuture.bind s.transportOf = s.sequential.anonymous.map transport := by
  unfold sequential evaluated transportOf
  cases s.anonymousFuture with
  | none => rfl
  | some f =>
    simp only [bind_some]
    cases s.futures[f]? <;> rfl

/-- A rule that has seen what it is bound to has the value that it has in the sequential walk. -/
theorem WalkState.Plain.value_eq (hwf : s.WF env) (h : s.Plain env) {rule : Rule}
    (hu : rule.tree.ForallDefault Unread) (ha : s.Anonymous rule) (hf : s.Files rule [] []) :
    rule.tree.value (env.matchMetadata s.anonymousResponse s.namedResponses) =
      rule.tree.value (s.sequential.metadata env) := by
  refine value_congr ⟨rfl, fun hfl => absurd hfl Bool.false_ne_true⟩ rule.tree hu
    ⟨fun tag ht => (h.named_eq hwf hf ht).1, fun hb => ?_⟩
  exact anonymousResponse_eq (ha hb)

/-- The sequential state depends on what the futures are, not on whether they are done. -/
theorem WalkState.sequential_congr (ho : s'.effectiveOptions = s.effectiveOptions)
    (ha : s'.anonymousFuture = s.anonymousFuture) (hnm : s'.namedFutures = s.namedFutures)
    (he : ∀ f, s'.evaluated f = s.evaluated f) : s'.sequential = s.sequential := by
  unfold sequential
  rw [ho, ha, hnm, funext he]

theorem WalkState.evaluated_set {k : ℕ} (f' : Future) (hk : s.futures[k]? = some future)
    (hf : s'.futures = s.futures.set k f') (htr : f'.transport = future.transport)
    (ho : f'.outcome = future.outcome) (f : ℕ) : s'.evaluated f = s.evaluated f := by
  unfold evaluated
  rw [hf]
  by_cases hfk : f = k
  · subst hfk
    rw [getElem?_set_self (List.getElem?_eq_some_iff.mp hk).1, hk]
    simp [htr, ho]
  · rw [getElem?_set_ne (Ne.symm hfk)]

theorem WalkState.sequential_settleFuture {k : ℕ} (hk : s.futures[k]? = some future) :
    (s.settleFuture k future).sequential = s.sequential := by
  have he : ∀ f, (s.settleFuture k future).evaluated f = s.evaluated f :=
    evaluated_set _ hk (settleFuture_futures hk) rfl rfl
  refine sequential_congr ?_ ?_ (by simp) he
  · unfold settleFuture
    split_ifs <;> rfl
  · unfold settleFuture
    split_ifs <;> rfl

theorem WalkState.sequential_complete (f : ℕ) : (s.complete f).sequential = s.sequential := by
  unfold complete
  cases hf : s.futures[f]? with
  | none => rfl
  | some future =>
    simp only
    split_ifs
    · rfl
    · refine sequential_congr rfl rfl rfl fun g => ?_
      exact evaluated_set { future with done := true } hf rfl rfl rfl g

theorem WalkState.evaluated_append (hfut : s'.futures = s.futures ++ [future]) {f : ℕ}
    (hf : f < s.futures.length) : s'.evaluated f = s.evaluated f := by
  unfold evaluated
  rw [hfut, getElem?_append_left hf]

theorem WalkState.evaluated_append_self (hf : s'.futures = s.futures ++ [future]) :
    s'.evaluated s.futures.length = some ⟨future.transport, future.outcome⟩ := by
  simp [evaluated, hf]

theorem WalkState.named_append (hwf : s.WF env) (hfut : s'.futures = s.futures ++ [future])
    (tag : String) : (s.namedFutures tag).bind s'.evaluated = s.sequential.named tag := by
  cases hf : s.namedFutures tag with
  | none => simp [sequential, hf]
  | some f =>
    obtain ⟨x, hx, -⟩ := hwf.named hf
    have hlt := (List.getElem?_eq_some_iff.mp hx).1
    simp [sequential, hf, evaluated_append hfut hlt]

theorem WalkState.anonymous_append (h : s.Plain env) (hfut : s'.futures = s.futures ++ [future]) :
    s.anonymousFuture.bind s'.evaluated = s.sequential.anonymous := by
  cases hf : s.anonymousFuture with
  | none => simp [sequential, hf]
  | some f =>
    simp [sequential, hf, evaluated_append hfut (h.anonymous f hf)]

theorem WalkState.sequential_launch_anonymous (hwf : s.WF env) (future : Future) :
    sequential { s.launch future with anonymousFuture := some s.futures.length } =
      { s.sequential with anonymous := some ⟨future.transport, future.outcome⟩ } :=
  SequentialState.ext rfl (evaluated_append_self rfl)
    (funext (named_append hwf rfl))

theorem WalkState.sequential_launch_tagged (hwf : s.WF env) (h : s.Plain env) (future : Future) :
    sequential { s.launch future with
      namedFutures := Function.update s.namedFutures future.tag (some s.futures.length) } =
    { s.sequential with
      named := Function.update s.sequential.named future.tag
        (some ⟨future.transport, future.outcome⟩) } := by
  refine SequentialState.ext rfl (anonymous_append h rfl) (funext fun tag => ?_)
  by_cases hs : tag = future.tag
  · subst hs
    simp only [sequential, Function.update_self, bind_some]
    exact evaluated_append_self rfl
  · simp only [sequential, Function.update_of_ne hs]
    exact named_append hwf rfl tag

end Seen

/-! ### Steps -/

section Steps

variable {env : Env} {s : WalkState}

theorem matchResponseTag_mem {tree : DNSRule} (h : tree.matchResponseTag ≠ "") :
    tree.matchResponseTag ∈ tree.matchResponseTags := by
  cases tree with
  | default binding groups item invert =>
    simpa [matchResponseTag, matchResponseTags] using h
  | logical mode rules invert => simp [matchResponseTag] at h

section

variable {rule : Rule} (hrules : Validated env.rules) (hwf : Config.WF env ⟨.acting rule, s⟩)
  (h : Config.Plain env ⟨.acting rule, s⟩)

include hrules hwf h

/-- The action `respond` waits for the anonymous response, or returns what the sequential walk
returns. -/
theorem Config.Plain.target_respond (hre : rule.isRespond) :
    (s.actRespond rule).target env = s.remaining env ∨ (s.actRespond rule).target env =
        s.sequential.respond s.ruleIndex rule.tree.matchResponseTag := by
  have hs : s.Plain env := h.state
  have hru : rule ∈ env.rules := mem_of_getElem? (hwf.rule rule rfl)
  obtain ⟨ha, hfi⟩ := h.ready
  unfold actRespond respond
  rw [if_neg (not_not.mpr hs.armed)]
  by_cases ht : rule.tree.matchResponseTag = ""
  · simp only [ht, ne_eq, not_true_eq_false, if_false]
    have hr : (∀ f, s.anonymousFuture = some f → s.resolved f = true) →
        respondResult s.ruleIndex s.anonymousResponse (s.anonymousFuture.bind s.transportOf) =
          respondResult s.ruleIndex (s.sequential.anonymous.bind view)
            (s.sequential.anonymous.map Evaluated.transport) := by
      intro hal
      rw [anonymousResponse_eq hal, anonymousTransport_eq]
    by_cases hb : rule.hasBindings = true
    · -- A rule with bindings and without a tag of its own is bound to the anonymous response.
      have hn := hrules.respond rule hru hre ht
      have hbi : rule.tree.matchResponseAnonymous = true := by
        simpa [Rule.hasBindings, hn] using hb
      simp only [hb, if_true]
      exact .inr (hr (ha hbi))
    · simp only [hb, Bool.false_eq_true, if_false]
      cases hw : s.anonymousFuture.filter fun f => !s.resolved f with
      | some f => exact .inl rfl
      | none =>
        refine .inr (hr fun f hf => ?_)
        simpa [hf] using hw
  · obtain ⟨hrs, htr⟩ := hs.named_eq hwf.state hfi (matchResponseTag_mem ht)
    simp only [ne_eq, ht, not_false_eq_true, if_true]
    exact .inr (by rw [← hrs, ← htr]; rfl)

/-- The action of a rule that matches in the sequential walk leaves what is left to compute. -/
theorem Config.Plain.target_act (hm : rule.tree.value (s.sequential.metadata env)) :
    (s.act env rule).target env = s.remaining env := by
  have hs : s.Plain env := h.state
  have hr : s.remaining env =
      (s.sequential.act env s.ruleIndex rule).target env s.ruleIndex := by
    rw [remaining_of_rule (hwf.rule rule rfl), if_pos hm]
  unfold WalkState.act
  unfold SequentialState.act at hr
  cases ha : rule.action with
  | routeOptions options =>
    rw [ha] at hr
    exact hr.symm
  | evaluate server tag speculative options =>
    rw [ha] at hr
    simp only [actEvaluate]
    simp only [SequentialState.evaluate] at hr
    rw [hr]
    cases env.transport server with
    | none =>
      by_cases he : tag = ""
      · simp only [he, if_true]
        rfl
      · simp only [he, if_false]
        rfl
    | some tr =>
      simp only
      rw [if_neg (by simp [hs.armed])]
      by_cases he : tag = ""
      · rw [if_pos he, if_pos he]
        exact congrArg (sequentialWalk env (s.ruleIndex + 1) (env.rules.drop (s.ruleIndex + 1)))
          (sequential_launch_anonymous hwf.state _)
      · rw [if_neg he, if_neg he]
        exact congrArg (sequentialWalk env (s.ruleIndex + 1) (env.rules.drop (s.ruleIndex + 1)))
          (sequential_launch_tagged hwf.state hs _)
  | respond =>
    rw [ha] at hr
    rcases h.target_respond hrules hwf (by simp [Rule.isRespond, ha]) with hw | hd
    · exact hw
    · exact hd.trans hr.symm
  | route server speculative options =>
    rw [ha] at hr
    simp only [actRoute]
    rw [hr]
    have ho : s.sequential.options = s.effectiveOptions := rfl
    simp only [ho]
    cases env.resolveDNSRoute server options s.effectiveOptions with
    | none => rfl
    | some r =>
      simp only
      rw [if_neg (not_not.mpr hs.armed), hs.terminal]
      rfl
  | reject act =>
    rw [ha] at hr
    simp only at hr ⊢
    rw [if_neg (not_not.mpr hs.armed), hr]
    cases rejectResult env s.ruleIndex act <;> rfl
  | predefined response =>
    rw [ha] at hr
    simp only
    rw [if_neg (not_not.mpr hs.armed), hr]
    rfl

end

/-- Where the walk is about to act, the rule matches in the sequential walk. -/
def Config.Matched (env : Env) (c : Config) : Prop :=
  ∀ rule, c.pc = .acting rule → rule.tree.value (c.state.sequential.metadata env) = true

theorem Config.Plain.target_walk (hrules : Validated env.rules)
    (hrace : ∀ rule ∈ env.rules, rule.race = false) {c : Config} (hwf : c.WF env)
    (hnew : c.Fresh) (h : c.Plain env) (hma : c.Matched env) :
    (c.walk env).target env = c.target env ∧ (c.walk env).Matched env := by
  obtain ⟨pc, s⟩ := c
  have hs : s.Plain env := h.state
  have ho : ∀ {c : Config}, (∀ rule, c.pc ≠ .acting rule) → c.Matched env :=
    fun hne rule ha => absurd ha (hne rule)
  revert hwf hnew h hma
  apply walk_cases (Q := fun pc c => Config.WF env ⟨pc, s⟩ → Config.Fresh ⟨pc, s⟩ →
    Config.Plain env ⟨pc, s⟩ → Config.Matched env ⟨pc, s⟩ →
      c.target env = Config.target env ⟨pc, s⟩ ∧ c.Matched env)
  case headEnd =>
    intro sus hg hp _ _ _ _
    obtain rfl := hp hs.armed
    exact ⟨(remaining_of_end hg).symm, ho (by simp [suspend])⟩
  case settle =>
    intro k caller future hk _ _ _ _
    refine ⟨?_, ho (by simp)⟩
    have hrem : (s.settleFuture k future).remaining env = s.remaining env := by
      unfold remaining
      rw [sequential_settleFuture hk, settleFuture_ruleIndex]
    cases caller with
    | walk rule => exact hrem
    | resume sus => cases sus <;> first | exact hrem | rfl
  case matching =>
    intro rule hwf hnew h _
    have hr : env.rules[s.ruleIndex]? = some rule := hwf.rule rule rfl
    have hv := hs.value_eq hwf.state (hrules.unread rule (mem_of_getElem? hr)) h.ready
      hnew.covered
    change (s.matching rule).target env = s.remaining env ∧ (s.matching rule).Matched env
    rw [hs.matching_eq, hv]
    split_ifs with hm
    · refine ⟨rfl, fun rule' ha => ?_⟩
      obtain rfl := PC.acting.inj ha
      exact hm
    · refine ⟨?_, ho (by simp [WalkState.next])⟩
      rw [remaining_of_rule hr, if_neg hm]
      rfl
  case acting =>
    intro rule hwf _ h hma
    refine ⟨h.target_act hrules hwf (hma rule rfl), ho fun rule' => ?_⟩
    apply act_cases (P := fun c => c.pc ≠ .acting rule')
    all_goals intros; simp [WalkState.next, suspend]
  case walkOn =>
    intro sus hp _ _ _ h _
    cases sus with
    | pending exchange => exact absurd rfl (hp exchange)
    | await f => exact ⟨rfl, ho (by simp)⟩
    | drain => exact absurd h.pc id
  case wake =>
    intro sus _ _ _ h _
    obtain ⟨f, rfl⟩ := h.pc
    exact ⟨rfl, ho (by simp [suspend])⟩
  case finished =>
    intro exchange result hre _ _ h _
    have hn : exchange.future = none := h.pc
    rw [← hre hn]
    simp only [finishing, hn]
    exact ⟨rfl, ho (by simp)⟩
  -- A plain walk has no race rules and no armed rules.
  case race =>
    intro k rule _ hr hwf _ _ _
    rw [hrace rule (mem_of_getElem? (hwf.rule rule rfl))] at hr
    exact absurd hr Bool.false_ne_true
  case sweep =>
    intro index armed caller hg _ _ _ _
    rw [hs.armed] at hg
    cases hg
  all_goals
    intros
    rename_i h _
    first
      | exact ⟨rfl, ho (by simp [suspend])⟩
      | exact absurd h.pc id

/-- A completion shows an answer that the sequential state has from the launch on. -/
theorem Config.target_complete (c : Config) (f : ℕ) :
    Config.target env { c with state := c.state.complete f } = c.target env := by
  have hr : (c.state.complete f).remaining env = c.state.remaining env := by
    unfold remaining
    rw [sequential_complete, complete_ruleIndex]
  have hs : ∀ sus : Suspension,
      sus.target env (c.state.complete f) = sus.target env c.state := by
    intro sus
    cases sus <;> first | exact hr | rfl
  unfold Config.target
  simp only [hr, hs]

variable (hrules : Validated env.rules) (hrace : ∀ rule ∈ env.rules, rule.race = false)

include hrules hrace

theorem step_target {c : Config} (hwf : c.WF env) (hn : c.Fresh) (h : c.Plain env)
    (hm : c.Matched env) {event : Event} (hev : ∀ err, event ≠ .cancel err) :
    (step env c event).target env = c.target env ∧ (step env c event).Matched env := by
  cases event with
  | walk => exact h.target_walk hrules hrace hwf hn hm
  | complete f =>
    refine ⟨Config.target_complete c f, fun rule ha => ?_⟩
    simpa only [step, sequential_complete] using hm rule ha
  | cancel err => exact absurd rfl (hev err)

theorem exec_target {events : ℕ → Event} (ho : ∀ n, ¬ Overtaken (exec env events n) (events n))
    (hc : ∀ n err, events n ≠ .cancel err) (n : ℕ) :
    (exec env events n).target env = sequential env := by
  suffices h : (exec env events n).target env = sequential env ∧
      (exec env events n).Matched env from
    h.1
  refine run_preserved
    (P := fun _ (c : Config) => c.target env = sequential env ∧ c.Matched env) (Nat.zero_le n) ?_
    fun m _ _ h => ?_
  · exact ⟨rfl, fun rule ha => absurd ha (by simp [start])⟩
  · have hstep := step_target hrules hrace (exec_wf hrules events m) (exec_fresh hrules ho m)
      (exec_plain hrules hrace ho m) h.2 (hc m)
    exact ⟨hstep.1.trans h.1, hstep.2⟩

end Steps

end SingBox.DNS.Walk
