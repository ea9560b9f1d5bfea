import SingBox.DNS.Walk.Armed
import SingBox.DNS.Walk.Binding

/-!
# Walks over lists without race rules

Without race rules nothing is armed, and the walk waits only for the future that the current rule
reads. Where the walker matches a rule it has seen the futures that the rule is bound to.
-/

namespace SingBox.DNS.Walk

open SingBox.Adapter SingBox.Rule Foundation WalkState

/-! ### The invariant -/

/-- The metadata that a rule is matched against, for a query and given responses. -/
def Env.matchMetadata (env : Env) (response : Option Msg) (named : String → Option Msg) :
    InboundContext :=
  { env.metadata.resetRuleCache with
    dnsResponse := response
    namedDNSResponses := named
    destinationAddressMatchFromResponse := false }

/-- The walk waits for one future, or for its last exchange, which is not a future. -/
def Suspension.Plain : Suspension → Prop
  | .await _ => True
  | .drain => False
  | .pending exchange => exchange.future = none

/-- The places that a walk without race rules reaches. -/
def PC.Plain : PC → Prop
  | .head => True
  | .settle _ (.walk _) => True
  | .settle _ (.resume suspension) => suspension.Plain
  | .awaitTags _ _ => True
  | .matching _ => True
  | .acting _ => True
  | .sweep _ (.resume suspension) => suspension.Plain
  | .resumed suspension => suspension.Plain
  | .blocked suspension => ∃ f, suspension = .await f
  | .finishing exchange => exchange.future = none
  | .done _ => True
  | _ => False

/-- The anonymous response that the rule reads has arrived. -/
def WalkState.Anonymous (s : WalkState) (rule : Rule) : Prop :=
  rule.tree.matchResponseAnonymous = true → ∀ f, s.anonymousFuture = some f → s.resolved f = true

/-- The future that the walk waits for has been launched. -/
def Suspension.Launched (s : WalkState) : Suspension → Prop
  | .await f => f < s.futures.length
  | _ => True

/-- The walker has seen what the rule is bound to, or waits for a future that has been launched and
will wake it. -/
def Config.Ready (c : Config) : Prop :=
  match c.pc with
  | .matching rule => c.state.Anonymous rule
  | .acting rule => c.state.Anonymous rule ∧ c.state.Files rule [] []
  | .settle _ (.resume suspension) => suspension.Launched c.state
  | .sweep _ (.resume suspension) => suspension.Launched c.state
  | .resumed suspension => suspension.Launched c.state
  | .blocked suspension => suspension.Launched c.state ∧
      ∀ f, suspension = .await f → c.state.resolved f = true → c.state.wake = true
  | _ => True

/-- Nothing is armed, the metadata are those of the query, and only launched futures have
responses. -/
structure WalkState.Plain (env : Env) (s : WalkState) : Prop where
  armed : s.armedRules = []
  terminal : s.terminalFuture = none
  anonymous : ∀ f, s.anonymousFuture = some f → f < s.futures.length
  metadata : ∀ response named, { s.metadata.resetRuleCache with
    dnsResponse := response
    namedDNSResponses := named
    destinationAddressMatchFromResponse := false } = env.matchMetadata response named
  unfiled : ∀ tag, s.namedFutures tag = none →
    s.namedResponses tag = none ∧ s.namedTransports tag = none

/-- The same for the walker. -/
structure Config.Plain (env : Env) (c : Config) : Prop where
  state : c.state.Plain env
  pc : c.pc.Plain
  ready : c.Ready

/-! ### Steps -/

open List Nat Suspension.Launched WalkState

section Steps

variable {env : Env} {s s' : WalkState}

theorem Suspension.Launched.mono {sus : Suspension} (h : sus.Launched s)
    (hl : s.futures.length ≤ s'.futures.length) : sus.Launched s' := by
  cases sus with
  | await f => exact lt_of_lt_of_le h hl
  | _ => trivial

theorem WalkState.Plain.frame (h : s.Plain env) (harm : s'.armedRules = s.armedRules)
    (ht : s'.terminalFuture = s.terminalFuture)
    (ha : ∀ f, s'.anonymousFuture = some f → f < s'.futures.length)
    (hm : s'.metadata = s.metadata) (hr : s'.namedResponses = s.namedResponses)
    (hu : ∀ tag, s'.namedFutures tag = none →
      s.namedFutures tag = none ∧ s'.namedTransports tag = s.namedTransports tag) :
    s'.Plain env where
  armed := harm.trans h.armed
  terminal := ht.trans h.terminal
  anonymous := ha
  metadata := by
    rw [hm]
    exact h.metadata
  unfiled tag htag := by
    obtain ⟨hn, htr⟩ := hu tag htag
    rw [hr, htr]
    exact h.unfiled tag hn

theorem WalkState.Plain.next (h : s.Plain env) : s.next.Plain env where
  state := h.frame rfl rfl h.anonymous rfl rfl fun _ ht => ⟨ht, rfl⟩
  pc := trivial
  ready := trivial

theorem Config.Plain.act {rule : Rule} (h : Config.Plain env ⟨.acting rule, s⟩) :
    (s.act env rule).Plain env := by
  have hs : s.Plain env := h.state
  apply act_cases
  · intro options anonymous han
    refine ⟨hs.frame rfl rfl (fun f hf => ?_) rfl rfl fun _ ht => ⟨ht, rfl⟩, trivial, trivial⟩
    rcases han with rfl | rfl
    · exact hs.anonymous f hf
    · exact absurd hf (by simp [WalkState.next])
  · exact fun ha => absurd hs.armed ha
  · intro f hf _
    exact ⟨hs, trivial, hs.anonymous f hf⟩
  · intro _ exchange he
    exact ⟨hs, he hs.terminal, trivial⟩
  · intro _ result
    exact ⟨hs, trivial, trivial⟩
  · intro future _ _
    refine ⟨hs.frame rfl rfl (fun f hf => ?_) rfl rfl fun _ ht => ⟨ht, rfl⟩, trivial, trivial⟩
    obtain rfl : s.futures.length = f := by simpa [WalkState.next] using hf
    simp [WalkState.next, launch]
  · intro future _ _ _
    refine ⟨hs.frame rfl rfl (fun f hf => ?_) rfl rfl fun tag ht => ⟨?_, rfl⟩, trivial, trivial⟩
    · have hlt := hs.anonymous f hf
      simp only [WalkState.next, launch, List.length_append]
      omega
    · by_cases hsa : tag = future.tag
      · subst hsa
        simp [WalkState.next] at ht
      · simpa [WalkState.next, Function.update_of_ne hsa] using ht
  · exact fun ha => absurd hs.armed ha

theorem WalkState.Plain.settleFuture (hwf : s.WF env) (h : s.Plain env) {k : ℕ} {future : Future}
    (hk : s.futures[k]? = some future) : (s.settleFuture k future).Plain env := by
  have hl : (s.settleFuture k future).futures.length = s.futures.length := by
    rw [settleFuture_futures hk, length_set]
  unfold WalkState.settleFuture at hl ⊢
  split_ifs at hl ⊢ with hs ht
  · exact h
  · refine h.frame rfl rfl (fun f hf => ?_) rfl rfl fun _ ht => ⟨ht, rfl⟩
    exact lt_of_lt_of_eq (h.anonymous f hf) hl.symm
  · refine ⟨h.armed, h.terminal, fun f hf => ?_, h.metadata, fun tag hn => ?_⟩
    · exact lt_of_lt_of_eq (h.anonymous f hf) hl.symm
    · have ho : tag ≠ future.tag := by
        rintro rfl
        exact absurd (hn.symm.trans (hwf.tagged hk ht)) (by simp)
      simpa [Function.update_of_ne ho] using h.unfiled tag hn

theorem Env.clean_matchMetadata (env : Env) (response : Option Msg) (named : String → Option Msg) :
    Clean (env.matchMetadata response named) where
  ignore := env.metadata_ignore
  reset := rfl

theorem WalkState.Plain.matchMetadata_eq (h : s.Plain env) (response : Option Msg) :
    s.matchMetadata response = env.matchMetadata response s.namedResponses :=
  h.metadata response s.namedResponses

/-- `Match` leaves the metadata of the query. -/
theorem WalkState.Plain.matching_eq (h : s.Plain env) (rule : Rule) : s.matching rule =
      if rule.tree.value (env.matchMetadata s.anonymousResponse s.namedResponses) = true then
        ⟨.acting rule, { s with
          metadata := env.matchMetadata s.anonymousResponse s.namedResponses }⟩
      else WalkState.next { s with
        metadata := env.matchMetadata s.anonymousResponse s.namedResponses } := by
  have hm := DNSRule.matcher_computes rule.tree _
    (env.clean_matchMetadata s.anonymousResponse s.namedResponses)
  simp only [matching, h.matchMetadata_eq, DNSRule.matcher, hm]

theorem WalkState.Plain.withMetadata (h : s.Plain env) (response : Option Msg)
    (named : String → Option Msg) :
    WalkState.Plain env { s with metadata := env.matchMetadata response named } :=
  { armed := h.armed
    terminal := h.terminal
    anonymous := h.anonymous
    metadata := fun response' named' => by
      simp [Env.matchMetadata, InboundContext.resetRuleCache, InboundContext.resetRuleMatchCache]
    unfiled := h.unfiled }

theorem Config.Plain.walk (hra : ∀ rule ∈ env.rules, rule.race = false) {c : Config}
    (hwf : c.WF env) (hn : c.Fresh) (h : c.Plain env) : (c.walk env).Plain env := by
  obtain ⟨pc, s⟩ := c
  have hs : s.Plain env := h.state
  revert hwf hn h
  apply walk_cases (Q := fun pc c => Config.WF env ⟨pc, s⟩ → Config.Fresh ⟨pc, s⟩ →
    Config.Plain env ⟨pc, s⟩ → c.Plain env)
  case headEnd =>
    intro sus _ hp _ _ _
    obtain rfl := hp hs.armed
    exact ⟨hs, rfl, trivial⟩
  case headMatch =>
    intro rule _ hb _ _ _
    refine ⟨hs, trivial, fun ha => ?_⟩
    simp [Rule.hasBindings, ha] at hb
  case settle =>
    intro k cl future hk hwf _ h
    cases cl with
    | walk rule => exact ⟨hs.settleFuture hwf.state hk, trivial, trivial⟩
    | resume sus =>
      refine ⟨hs.settleFuture hwf.state hk, h.pc, mono h.ready ?_⟩
      rw [settleFuture_futures hk, length_set]
  case resume =>
    intro k sus _ _ _ h
    have hrd : sus.Launched s := h.ready
    exact ⟨hs, h.pc, hrd⟩
  case awaitTags =>
    intro rule tags f _ hf hwf _ _
    refine ⟨hs, trivial, ?_⟩
    rcases hf with hf | ⟨tag, hf⟩
    · exact hs.anonymous f hf
    · obtain ⟨future, hge, -⟩ := hwf.state.named hf
      exact (List.getElem?_eq_some_iff.mp hge).1
  case awaited => exact fun _ hre _ _ _ => ⟨hs, trivial, hre⟩
  case matching =>
    intro rule _ hn h
    rw [hs.matching_eq]
    split_ifs
    · exact ⟨hs.withMetadata _ _, trivial, h.ready, hn.covered⟩
    · exact (hs.withMetadata _ _).next
  case acting => exact fun _ _ _ h => h.act
  case sweepEnd => exact fun _ _ _ _ h => ⟨hs, h.pc, h.ready⟩
  case finish => exact fun _ _ _ h => ⟨hs, h.pc, trivial⟩
  case block =>
    intro sus hp ho _ _ h
    cases sus with
    | pending exchange => exact absurd rfl (hp exchange)
    | await f =>
      refine ⟨hs, ⟨f, rfl⟩, h.ready, fun g hg hd => ?_⟩
      rw [ho g hg] at hd
      exact absurd hd Bool.false_ne_true
    | drain => exact absurd h.pc id
  case wake =>
    intro sus _ _ _ h
    obtain ⟨f, rfl⟩ := h.pc
    refine ⟨?_, trivial, h.ready.1⟩
    exact hs.frame rfl rfl hs.anonymous rfl rfl fun _ ht => ⟨ht, rfl⟩
  case asleep => exact fun _ _ _ _ h => h
  case finishing => exact fun _ hfu _ _ h => absurd h.pc hfu
  case headBinds | await | awaitNext | walkOn | finished | done =>
    intros
    exact ⟨hs, trivial, trivial⟩
  -- A plain walk has no race rules and no armed rules.
  case race =>
    intro k rule _ hr hwf _ _
    rw [hra rule (mem_of_getElem? (hwf.rule rule rfl))] at hr
    exact absurd hr Bool.false_ne_true
  case sweep =>
    intro ix ar cl hge _ _ _
    rw [hs.armed] at hge
    cases hge
  all_goals
    intros
    rename_i h
    exact absurd h.pc id

theorem WalkState.Plain.complete (h : s.Plain env) (f : ℕ) : (s.complete f).Plain env := by
  unfold WalkState.complete
  cases s.futures[f]? with
  | none => exact h
  | some future =>
    simp only
    split_ifs
    · exact h
    · refine h.frame rfl rfl (fun g hg => ?_) rfl rfl fun _ ht => ⟨ht, rfl⟩
      simpa using h.anonymous g hg

theorem WalkState.wake_complete {f g : ℕ} (h : s.resolved g = true → s.wake = true)
    (hg : (s.complete f).resolved g) : (s.complete f).wake := by
  unfold complete at hg ⊢
  cases hf : s.futures[f]? with
  | none =>
    rw [hf] at hg
    exact h hg
  | some future =>
    rw [hf] at hg
    simp only at hg ⊢
    split_ifs at hg ⊢
    · exact h hg
    · rfl

theorem Config.Ready.complete {pc : PC} (h : Config.Ready ⟨pc, s⟩) (f : ℕ) :
    Config.Ready ⟨pc, s.complete f⟩ := by
  have hs : (s.complete f).anonymousFuture = s.anonymousFuture := by
    unfold WalkState.complete
    split
    · split_ifs <;> rfl
    · rfl
  have ha : ∀ {rule}, s.Anonymous rule → (s.complete f).Anonymous rule := by
    intro rule hr hb g hg
    rw [hs] at hg
    exact resolved_complete (hr hb g hg)
  have hl : s.futures.length ≤ (s.complete f).futures.length := by
    unfold WalkState.complete
    split
    · split_ifs
      · exact le_refl _
      · exact le_of_eq length_set.symm
    · exact le_refl _
  cases pc with
  | matching rule => exact ha h
  | acting rule =>
    exact ⟨ha h.1, Covers.mono h.2 (fun _ _ => by rw [complete_namedFutures])
      (fun _ hg => hg.complete f) fun _ hg => hg⟩
  | settle _ cl | sweep _ cl =>
    cases cl with
    | walk rule => trivial
    | resume sus => exact mono h hl
  | resumed sus => exact mono h hl
  | blocked sus =>
    exact ⟨h.1.mono hl, fun g hg => wake_complete (h.2 g hg)⟩
  | _ => trivial

theorem step_plain (hr : ∀ rule ∈ env.rules, rule.race = false) {c : Config} (hwf : c.WF env)
    (hn : c.Fresh) (h : c.Plain env) (event : Event) : (step env c event).Plain env := by
  cases event with
  | walk => exact h.walk hr hwf hn
  | complete f => exact ⟨h.state.complete f, h.pc, h.ready.complete f⟩
  | cancel err =>
    simp only [step, Config.cancel]
    split
    · exact ⟨h.state, trivial, trivial⟩
    · split_ifs
      · exact ⟨h.state, trivial, trivial⟩
      · exact h
    · exact h

theorem exec_plain (hrs : Validated env.rules) (hr : ∀ rule ∈ env.rules, rule.race = false)
    {es : ℕ → Event} (ho : ∀ n, ¬ Overtaken (exec env es n) (es n)) (n : ℕ) :
    (exec env es n).Plain env := by
  refine run_preserved (P := fun _ => Config.Plain env) (zero_le n) ?_ fun m _ _ h => ?_
  · exact ⟨⟨rfl, rfl, by simp [start], fun _ _ => rfl, by simp [start]⟩, trivial, trivial⟩
  · exact step_plain hr (exec_wf hrs es m) (exec_fresh hrs ho m) h (es m)

end Steps

end SingBox.DNS.Walk
