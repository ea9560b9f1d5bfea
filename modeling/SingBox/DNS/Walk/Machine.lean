import SingBox.DNS.Walk.Rules
import SingBox.Foundation.Run

/-!
# The walk over the DNS rules

`exchangeWithRules` walks the rules of the DNS router. An `evaluate` rule launches a query in the
background, a future; later rules read its response, and wait for it where they need it. A `race`
rule does not wait: it is armed and evaluated once its futures are resolved, before any later rule
may end the walk.

The walker is a machine whose steps test at most one future; futures complete between any two of its
steps. The program counter is the place in `walkDNSRules`, `settleDNSFutures`, `sweepArmedDNSRules`,
`resumeExchangeWithRules` or `finishPendingExchange`, with the local variables that are live there.
A pointer to a future is its index in `futures`.

The answer of the client to a query is fixed by the rule that asks for it, the server, the message
and the options; a future has it from the start and shows it when it is done. `close(future.done)`
and the wake-up that follows are one event.
-/

namespace SingBox.DNS.Walk

open SingBox.Net SingBox.Adapter SingBox.Rule Foundation

/-! ### Servers and queries -/

/-- `adapter.DNSTransport`. -/
structure DNSTransport where
  tag : String
  type : String
deriving DecidableEq

/-- `C.DNSTypeFakeIP`. -/
def dnsTypeFakeIP : String := "fakeip"

/-- What the client delivers for a query. -/
structure Outcome where
  response : Option Msg
  err : Option String
deriving DecidableEq

/-- The response that a rule may read. -/
def Outcome.view (o : Outcome) : Option Msg := if o.err.isSome then none else o.response

/-- The router, its client, and the query. `exchange i` answers the query that rule `i` asks for,
and `exchange none` the one to the default server. Outside `LegacyPreMatch`, which sets and resets
it, the flag `IgnoreDestinationIPCIDRMatch` of a query is not set. -/
structure Env where
  rules : List Rule
  transport : String → Option DNSTransport
  defaultTransport : DNSTransport
  defaultDomainStrategy : ℕ := 0
  exchange : Option ℕ → DNSTransport → Msg → DNSQueryOptions → Outcome
  message : Msg
  options : DNSQueryOptions := {}
  allowFakeIP : Bool := true
  metadata : InboundContext := {}
  metadata_ignore : metadata.ignoreDestinationIPCIDRMatch = false := by rfl

namespace Env

variable (env : Env)

/-- `Router.finalizeExchangeOptions`. -/
def finalizeExchangeOptions (options : DNSQueryOptions) : DNSQueryOptions :=
  if options.strategy = 0 then { options with strategy := env.defaultDomainStrategy } else options

/-- The client's answer to the query of a rule. -/
def ask (rule : Option ℕ) (transport : DNSTransport) (options : DNSQueryOptions) : Outcome :=
  env.exchange rule transport env.message (env.finalizeExchangeOptions options)

/-- `Router.resolveDNSRoute`: the server and the options, or `none` for a server that is missing or
skipped. -/
def resolveDNSRoute (server : String) (routeOptions : DNSRouteOptions) (options : DNSQueryOptions) :
    Option (DNSTransport × DNSQueryOptions) :=
  match env.transport server with
  | none => none
  | some transport =>
    let isFakeIP := decide (transport.type = dnsTypeFakeIP)
    if isFakeIP && !env.allowFakeIP then none
    else
      let options := applyDNSRouteOptions options routeOptions
      some (transport, if isFakeIP then { options with disableCache := true } else options)

end Env

def dnsRefusedResponse (message : Msg) : Msg where
  id := message.id
  rcode := rcodeRefused
  response := true
  question := message.question.take 1

def dnsRespondMissingResponseMessage : String :=
  "respond action requires an evaluated response from a preceding evaluate action"

/-- `R.ErrDrop`. -/
def errDrop : String := "packet dropped"

/-- `exchangeWithRulesResult`, with the rule that the walk committed to and the options of its
exchange. -/
structure Result where
  response : Option Msg := none
  transport : Option DNSTransport := none
  rejectAction : Option RejectAction := none
  err : Option String := none
  rule : Option ℕ := none
  options : Option DNSQueryOptions := none
deriving DecidableEq

/-! ### The state of a walk -/

/-- `dnsEvaluatedFuture`. -/
structure Future where
  tag : String
  terminal : Bool := false
  transport : DNSTransport
  outcome : Outcome
  done : Bool := false
  settled : Bool := false
deriving DecidableEq

/-- `dnsEvaluatedFuture.view`. -/
def Future.view (f : Future) : Option Msg := if f.done then f.outcome.view else none

/-- `dnsArmedRule`. -/
structure ArmedRule where
  ruleIndex : ℕ
  rule : Rule
  futures : List ℕ
  anonymousFuture : Option ℕ
  bindsAnonymous : Bool
  options : DNSQueryOptions

/-- `dnsRuleWalkState`, less the index that keeps a match from being logged twice, with the metadata
of the query. -/
structure WalkState where
  ruleIndex : ℕ := 0
  effectiveOptions : DNSQueryOptions
  anonymousFuture : Option ℕ := none
  namedFutures : String → Option ℕ := fun _ => none
  namedResponses : String → Option Msg := fun _ => none
  namedTransports : String → Option DNSTransport := fun _ => none
  futures : List Future := []
  armedRules : List ArmedRule := []
  terminalFuture : Option ℕ := none
  terminalIndex : ℕ := 0
  wake : Bool := false
  metadata : InboundContext

namespace WalkState

variable (s : WalkState)

/-- `dnsEvaluatedFuture.resolved`. -/
def resolved (f : ℕ) : Bool := s.futures[f]?.any Future.done

/-- `dnsEvaluatedFuture.view`, through a pointer. -/
def view (f : ℕ) : Option Msg := s.futures[f]?.bind Future.view

/-- The server that a future asks. -/
def transportOf (f : ℕ) : Option DNSTransport := s.futures[f]?.map Future.transport

/-- `dnsRuleWalkState.anonymousResponse`. -/
def anonymousResponse : Option Msg := s.anonymousFuture.bind s.view

/-- The metadata that a rule is matched against. -/
def matchMetadata (dnsResponse : Option Msg) : InboundContext :=
  { s.metadata.resetRuleCache with
    dnsResponse := dnsResponse
    namedDNSResponses := s.namedResponses
    destinationAddressMatchFromResponse := false }

/-- One round of the loop of `settleDNSFutures`, for future `k`. -/
def settleFuture (k : ℕ) (future : Future) : WalkState :=
  if future.settled || !future.done then s
  else
    let s := { s with futures := s.futures.set k { future with settled := true } }
    if future.tag = "" then s
    else { s with
      namedResponses := Function.update s.namedResponses future.tag future.view
      namedTransports := Function.update s.namedTransports future.tag (some future.transport) }

@[simp] theorem settleFuture_ruleIndex (k : ℕ) (future : Future) :
    (s.settleFuture k future).ruleIndex = s.ruleIndex := by
  unfold settleFuture
  split_ifs <;> rfl

@[simp] theorem settleFuture_namedFutures (k : ℕ) (future : Future) :
    (s.settleFuture k future).namedFutures = s.namedFutures := by
  unfold settleFuture
  split_ifs <;> rfl

@[simp] theorem settleFuture_armedRules (k : ℕ) (future : Future) :
    (s.settleFuture k future).armedRules = s.armedRules := by
  unfold settleFuture
  split_ifs <;> rfl

/-- `launchDNSEvaluate`; the new future is the last one. -/
def launch (future : Future) : WalkState := { s with futures := s.futures ++ [future] }

end WalkState

/-- `dnsPendingExchange`, with the rule that asks for it. -/
structure PendingExchange where
  rule : Option ℕ
  transport : DNSTransport
  options : DNSQueryOptions := {}
  future : Option ℕ := none
deriving DecidableEq

/-- `dnsWalkSuspension`. -/
inductive Suspension where
  | await (future : ℕ)
  | drain
  | pending (exchange : PendingExchange)
deriving DecidableEq

/-- Who has called `settleDNSFutures` or `sweepArmedDNSRules`: `walkDNSRules` at a rule, or
`resumeExchangeWithRules` with a suspension. -/
inductive Caller where
  | walk (rule : Rule)
  | resume (suspension : Suspension)

/-- Where the walker is. -/
inductive PC where
  /-- The head of the loop of `walkDNSRules`. -/
  | head
  /-- `settleDNSFutures` at future `k`. -/
  | settle (k : ℕ) (caller : Caller)
  /-- The tags of a race rule that have not been tested, and its pending futures. -/
  | raceTags (rule : Rule) (tags : List String) (pending : List ℕ)
  /-- The tags of another rule that have not been tested. -/
  | awaitTags (rule : Rule) (tags : List String)
  /-- `walkDNSRules` at `Match`. -/
  | matching (rule : Rule)
  /-- `walkDNSRules` at the action of a rule that matches. -/
  | acting (rule : Rule)
  /-- The head of the loop of `sweepArmedDNSRules`. -/
  | sweep (index : ℕ) (caller : Caller)
  /-- The futures of an armed rule that have not been tested. -/
  | sweepReady (index : ℕ) (armed : ArmedRule) (futures : List ℕ) (caller : Caller)
  /-- `sweepArmedDNSRules` at `Match` of an armed rule that it has taken from the list. -/
  | sweepMatch (index : ℕ) (armed : ArmedRule) (caller : Caller)
  /-- `sweepArmedDNSRules` at the action of an armed rule that matches. -/
  | sweepAct (index : ℕ) (armed : ArmedRule) (caller : Caller)
  /-- `resumeExchangeWithRules` after the sweep. -/
  | resumed (suspension : Suspension)
  /-- `resumeExchangeWithRules` waits for a completion. -/
  | blocked (suspension : Suspension)
  | finishing (exchange : PendingExchange)
  | done (result : Result)

/-- The walker between two steps. -/
structure Config where
  pc : PC
  state : WalkState

/-! ### Steps of the walker -/

/-- The walk goes on with the next rule. -/
def WalkState.next (s : WalkState) : Config := ⟨.head, { s with ruleIndex := s.ruleIndex + 1 }⟩

/-- `walkDNSRules` returns a suspension, and `resumeExchangeWithRules` begins a round. -/
def WalkState.suspend (s : WalkState) (suspension : Suspension) : Config :=
  ⟨.settle 0 (.resume suspension), s⟩

/-- The result of a `respond` action. -/
def respondResult (rule : ℕ) (response : Option Msg) (transport : Option DNSTransport) : Result :=
  if response.isNone then { err := some dnsRespondMissingResponseMessage, rule := some rule }
  else { response := response, transport := transport, rule := some rule }

/-- The result of a `reject` action; a method that DNS rules do not have is passed over. -/
def rejectResult (env : Env) (rule : ℕ) (action : RejectAction) : Option Result :=
  match action.method with
  | .default => some {
      response := some (dnsRefusedResponse env.message)
      rejectAction := some action
      rule := some rule }
  | .drop => some { rejectAction := some action, err := some errDrop, rule := some rule }
  | .reply => none

/-- The result of a `predefined` action. -/
def predefinedResult (env : Env) (rule : ℕ) (response : Msg → Msg) : Result :=
  { response := some (response env.message), rule := some rule }

section Walk

variable (env : Env)

/-- The head of the loop of `walkDNSRules`. -/
def WalkState.head (s : WalkState) : Config :=
  match env.rules[s.ruleIndex]? with
  | some rule =>
    if rule.hasBindings then ⟨.settle 0 (.walk rule), s⟩ else ⟨.matching rule, s⟩
  | none =>
    if s.armedRules ≠ [] then s.suspend .drain
    else s.suspend (.pending {
      rule := none
      transport := env.defaultTransport
      options := s.effectiveOptions })

/-- `settleDNSFutures` at future `k`, or its end. -/
def WalkState.settle (s : WalkState) (k : ℕ) (caller : Caller) : Config :=
  match s.futures[k]? with
  | some future => ⟨.settle (k + 1) caller, s.settleFuture k future⟩
  | none =>
    match caller with
    | .walk rule =>
      if rule.race then ⟨.raceTags rule rule.tree.matchResponseTags [], s⟩
      else ⟨.awaitTags rule rule.tree.matchResponseTags, s⟩
    | .resume _ => ⟨.sweep 0 caller, s⟩

/-- A race rule tests the futures of its tags, at last the anonymous one, and is armed. -/
def WalkState.raceTags (s : WalkState) (rule : Rule) (tags : List String) (pending : List ℕ) :
    Config :=
  match tags with
  | tag :: tags =>
    ⟨.raceTags rule tags (pending ++ (s.namedFutures tag).toList.filter fun f => !s.resolved f), s⟩
  | [] =>
    let bindsAnonymous := rule.tree.matchResponseAnonymous
    let anonymousFuture := if bindsAnonymous then s.anonymousFuture else none
    let pending := pending ++ anonymousFuture.toList.filter fun f => !s.resolved f
    let s := { s with armedRules := s.armedRules ++ [{
      ruleIndex := s.ruleIndex
      rule := rule
      futures := pending
      anonymousFuture := anonymousFuture
      bindsAnonymous := bindsAnonymous
      options := s.effectiveOptions }] }
    if pending = [] then ⟨.sweep 0 (.walk rule), s⟩ else s.next

/-- Another rule tests the futures of its tags, at last the anonymous one, and waits for the first
that is not resolved. -/
def WalkState.awaitTags (s : WalkState) (rule : Rule) (tags : List String) : Config :=
  match tags with
  | tag :: tags =>
    match (s.namedFutures tag).filter fun f => !s.resolved f with
    | some future => s.suspend (.await future)
    | none => ⟨.awaitTags rule tags, s⟩
  | [] =>
    match if rule.tree.matchResponseAnonymous then
        s.anonymousFuture.filter fun f => !s.resolved f
      else none with
    | some future => s.suspend (.await future)
    | none => ⟨.matching rule, s⟩

/-- `Match` in `walkDNSRules`. -/
def WalkState.matching (s : WalkState) (rule : Rule) : Config :=
  let (matched, metadata) := rule.tree.matcher (s.matchMetadata s.anonymousResponse)
  let s := { s with metadata := metadata }
  if matched then ⟨.acting rule, s⟩ else s.next

/-- The action `evaluate`. -/
def WalkState.actEvaluate (s : WalkState) (server tag : String) (speculative : Bool)
    (options : DNSRouteOptions) : Config :=
  match env.transport server with
  | none =>
    WalkState.next { s with anonymousFuture := if tag = "" then none else s.anonymousFuture }
  | some transport =>
    if !speculative && !s.armedRules.isEmpty then s.suspend .drain
    else
      let future := s.futures.length
      let s := s.launch {
        tag := tag
        transport := transport
        outcome := env.ask (some s.ruleIndex) transport
          (applyDNSRouteOptions s.effectiveOptions options) }
      WalkState.next <|
        if tag = "" then { s with anonymousFuture := some future }
        else { s with namedFutures := Function.update s.namedFutures tag (some future) }

/-- The action `respond`. -/
def WalkState.actRespond (s : WalkState) (rule : Rule) : Config :=
  if s.armedRules ≠ [] then s.suspend .drain
  else
    let responseTag := rule.tree.matchResponseTag
    if responseTag ≠ "" then
      ⟨.done (respondResult s.ruleIndex (s.namedResponses responseTag)
        (s.namedTransports responseTag)), s⟩
    else
      match if rule.hasBindings then none else s.anonymousFuture.filter fun f => !s.resolved f with
      | some future => s.suspend (.await future)
      | none =>
        ⟨.done (respondResult s.ruleIndex s.anonymousResponse
          (s.anonymousFuture.bind s.transportOf)), s⟩

/-- The action `route`. -/
def WalkState.actRoute (s : WalkState) (server : String) (speculative : Bool)
    (options : DNSRouteOptions) : Config :=
  match env.resolveDNSRoute server options s.effectiveOptions with
  | none => s.next
  | some (transport, queryOptions) =>
    if s.armedRules ≠ [] then
      if speculative && s.terminalFuture.isNone then
        let future := s.futures.length
        let s := s.launch {
          tag := ""
          terminal := true
          transport := transport
          outcome := env.ask (some s.ruleIndex) transport queryOptions }
        WalkState.suspend { s with
          terminalFuture := some future
          terminalIndex := s.ruleIndex } .drain
      else s.suspend .drain
    else
      match s.terminalFuture.filter fun _ => decide (s.terminalIndex = s.ruleIndex) with
      | some future => s.suspend (.pending {
          rule := some s.ruleIndex
          transport := (s.transportOf future).getD transport
          future := some future })
      | none => s.suspend (.pending {
          rule := some s.ruleIndex
          transport := transport
          options := queryOptions })

/-- The action of a rule that matches, in `walkDNSRules`. -/
def WalkState.act (s : WalkState) (rule : Rule) : Config :=
  match rule.action with
  | .routeOptions options =>
    WalkState.next { s with effectiveOptions := applyDNSRouteOptions s.effectiveOptions options }
  | .evaluate server tag speculative options => s.actEvaluate env server tag speculative options
  | .respond => s.actRespond rule
  | .route server speculative options => s.actRoute env server speculative options
  | .reject action =>
    if s.armedRules ≠ [] then s.suspend .drain
    else
      match rejectResult env s.ruleIndex action with
      | some result => ⟨.done result, s⟩
      | none => s.next
  | .predefined response =>
    if s.armedRules ≠ [] then s.suspend .drain
    else ⟨.done (predefinedResult env s.ruleIndex response), s⟩

/-- The head of the loop of `sweepArmedDNSRules`, or its end. -/
def WalkState.sweep (s : WalkState) (index : ℕ) (caller : Caller) : Config :=
  match s.armedRules[index]? with
  | some armed => ⟨.sweepReady index armed armed.futures caller, s⟩
  | none =>
    match caller with
    | .walk _ => s.next
    | .resume suspension => ⟨.resumed suspension, s⟩

/-- An armed rule tests its futures, and leaves the list when all are resolved. -/
def WalkState.sweepReady (s : WalkState) (index : ℕ) (armed : ArmedRule) (futures : List ℕ)
    (caller : Caller) : Config :=
  match futures with
  | future :: futures =>
    if s.resolved future then ⟨.sweepReady index armed futures caller, s⟩
    else ⟨.sweep (index + 1) caller, s⟩
  | [] => ⟨.sweepMatch index armed caller, { s with armedRules := s.armedRules.eraseIdx index }⟩

/-- The anonymous response that an armed rule is matched against. -/
def WalkState.armedResponse (s : WalkState) (armed : ArmedRule) : Option Msg :=
  if armed.bindsAnonymous then armed.anonymousFuture.bind s.view else s.anonymousResponse

/-- `Match` in `sweepArmedDNSRules`. -/
def WalkState.sweepMatch (s : WalkState) (index : ℕ) (armed : ArmedRule) (caller : Caller) :
    Config :=
  let (matched, metadata) := armed.rule.tree.matcher (s.matchMetadata (s.armedResponse armed))
  let s := { s with metadata := metadata }
  if matched then ⟨.sweepAct index armed caller, s⟩ else ⟨.sweep index caller, s⟩

/-- The result of a `respond` action of an armed rule. -/
def WalkState.armedRespond (s : WalkState) (armed : ArmedRule) : Result :=
  let responseTag := armed.rule.tree.matchResponseTag
  if responseTag ≠ "" then
    respondResult armed.ruleIndex (s.namedResponses responseTag) (s.namedTransports responseTag)
  else
    match armed.anonymousFuture with
    | some future => respondResult armed.ruleIndex (s.view future) (s.transportOf future)
    | none =>
      respondResult armed.ruleIndex s.anonymousResponse (s.anonymousFuture.bind s.transportOf)

/-- The action of an armed rule that matches: the sweep ends, or it goes on. -/
def WalkState.sweepAct (s : WalkState) (index : ℕ) (armed : ArmedRule) (caller : Caller) :
    Config :=
  match armed.rule.action with
  | .respond => ⟨.done (s.armedRespond armed), s⟩
  | .route server _ options =>
    match env.resolveDNSRoute server options armed.options with
    | none => ⟨.sweep index caller, s⟩
    | some (transport, queryOptions) =>
      let pending : PendingExchange := {
        rule := some armed.ruleIndex
        transport := transport
        options := queryOptions }
      match caller with
      | .walk _ => WalkState.suspend { s with armedRules := [] } (.pending pending)
      | .resume _ => ⟨.finishing pending, s⟩
  | .reject action =>
    match rejectResult env armed.ruleIndex action with
    | some result => ⟨.done result, s⟩
    | none => ⟨.sweep index caller, s⟩
  | .predefined response => ⟨.done (predefinedResult env armed.ruleIndex response), s⟩
  | .routeOptions _ => ⟨.sweep index caller, s⟩
  | .evaluate _ _ _ _ => ⟨.sweep index caller, s⟩

/-- `resumeExchangeWithRules` after the sweep. -/
def WalkState.resumed (s : WalkState) (suspension : Suspension) : Config :=
  match suspension with
  | .pending exchange => ⟨.finishing exchange, s⟩
  | .await future => if s.resolved future then ⟨.head, s⟩ else ⟨.blocked suspension, s⟩
  | .drain => if s.armedRules = [] then ⟨.head, s⟩ else ⟨.blocked suspension, s⟩

/-- A receive from the wake channel. -/
def WalkState.blocked (s : WalkState) (suspension : Suspension) : Config :=
  if s.wake then WalkState.suspend { s with wake := false } suspension
  else ⟨.blocked suspension, s⟩

/-- `finishPendingExchange`. -/
def WalkState.finishing (s : WalkState) (exchange : PendingExchange) : Config :=
  match exchange.future with
  | some f =>
    match s.futures[f]?.filter Future.done with
    | some future => ⟨.done {
        response := future.view
        transport := some future.transport
        err := future.outcome.err
        rule := exchange.rule }, s⟩
    | none => ⟨.finishing exchange, s⟩
  | none =>
    let outcome := env.ask exchange.rule exchange.transport exchange.options
    ⟨.done {
      response := outcome.response
      transport := some exchange.transport
      err := outcome.err
      rule := exchange.rule
      options := some (env.finalizeExchangeOptions exchange.options) }, s⟩

/-- One step of the walker. -/
def Config.walk (c : Config) : Config :=
  match c.pc with
  | .head => c.state.head env
  | .settle k caller => c.state.settle k caller
  | .raceTags rule tags pending => c.state.raceTags rule tags pending
  | .awaitTags rule tags => c.state.awaitTags rule tags
  | .matching rule => c.state.matching rule
  | .acting rule => c.state.act env rule
  | .sweep index caller => c.state.sweep index caller
  | .sweepReady index armed futures caller => c.state.sweepReady index armed futures caller
  | .sweepMatch index armed caller => c.state.sweepMatch index armed caller
  | .sweepAct index armed caller => c.state.sweepAct env index armed caller
  | .resumed suspension => c.state.resumed suspension
  | .blocked suspension => c.state.blocked suspension
  | .finishing exchange => c.state.finishing env exchange
  | .done _ => c

/-- A future completes, unless it has completed before. -/
def WalkState.complete (s : WalkState) (f : ℕ) : WalkState :=
  match s.futures[f]? with
  | some future =>
    if future.done then s
    else { s with futures := s.futures.set f { future with done := true }, wake := true }
  | none => s

@[simp] theorem WalkState.complete_ruleIndex (s : WalkState) (f : ℕ) :
    (s.complete f).ruleIndex = s.ruleIndex := by
  unfold WalkState.complete
  split
  · split_ifs <;> rfl
  · rfl

@[simp] theorem WalkState.complete_namedFutures (s : WalkState) (f : ℕ) :
    (s.complete f).namedFutures = s.namedFutures := by
  unfold WalkState.complete
  split
  · split_ifs <;> rfl
  · rfl

@[simp] theorem WalkState.complete_armedRules (s : WalkState) (f : ℕ) :
    (s.complete f).armedRules = s.armedRules := by
  unfold WalkState.complete
  split
  · split_ifs <;> rfl
  · rfl

/-- The context of the query ends while the walker waits. -/
def Config.cancel (c : Config) (err : String) : Config :=
  match c.pc with
  | .blocked _ => { c with pc := .done { err := some err } }
  | .finishing exchange =>
    if exchange.future.isSome then { c with pc := .done { err := some err } } else c
  | _ => c

/-- The walker makes a step, a future completes, or the context of the query ends. -/
inductive Event where
  | walk
  | complete (future : ℕ)
  | cancel (err : String)
deriving DecidableEq

/-- One step of the system. -/
def step (c : Config) : Event → Config
  | .walk => c.walk env
  | .complete f => { c with state := c.state.complete f }
  | .cancel err => c.cancel err

/-- The beginning of `exchangeWithRules`. -/
def start : Config :=
  ⟨.head, { effectiveOptions := env.options, metadata := env.metadata }⟩

/-- The walker after the first `n` events. -/
def exec (events : ℕ → Event) (n : ℕ) : Config := run (step env) (start env) events n

theorem exec_succ (events : ℕ → Event) (n : ℕ) :
    exec env events (n + 1) = step env (exec env events n) (events n) := rfl

end Walk

/-! ### An environment for examples -/

/-- Queries for addresses are evaluated as `a`. -/
def evaluateAddresses : Rule where
  tree := .default {} { items := [.queryType [1]] } none false
  action := .evaluate "local" "a" false {}

/-- The response `a` is successful. -/
def successful : DNSRule :=
  .default { enabled := true, tag := "a" } { items := [.responseRcode 0] } none false

def exampleEnv (rules : List Rule) : Env where
  rules := rules
  transport := fun tag => if tag = "local" then some ⟨"local", "udp"⟩ else none
  defaultTransport := ⟨"final", "udp"⟩
  exchange := fun _ _ message _ => ⟨some { id := message.id, response := true }, none⟩
  message := { id := 7 }
  metadata := { queryType := 1 }

end SingBox.DNS.Walk
