import SingBox.DNS.Walk.Machine

/-!
# Futures, tags and armed rules of a walk

Facts that hold in every run over an accepted list: a tag belongs to one future at most, which a
rule before the current one has launched; what is settled is done and filed under its tag; the rule
at the program counter is the current one; armed rules are rules of the list, not behind the current
one.
-/

namespace SingBox.DNS.Walk

open SingBox.Adapter SingBox.Rule Foundation WalkState List Function Option

/-! ### The invariant -/

/-- The current rule, for a caller that walks. -/
def Caller.rule? : Caller → Option Rule
  | .walk rule => some rule
  | .resume _ => none

/-- The rule at the program counter. -/
def PC.rule? : PC → Option Rule
  | .settle _ caller => caller.rule?
  | .raceTags rule _ _ => some rule
  | .awaitTags rule _ => some rule
  | .matching rule => some rule
  | .acting rule => some rule
  | .sweep _ caller => caller.rule?
  | .sweepReady _ _ _ caller => caller.rule?
  | .sweepMatch _ _ caller => caller.rule?
  | .sweepAct _ _ caller => caller.rule?
  | _ => none

/-- The armed rule at the program counter. -/
def PC.armed? : PC → Option ArmedRule
  | .sweepReady _ armed _ _ => some armed
  | .sweepMatch _ armed _ => some armed
  | .sweepAct _ armed _ => some armed
  | _ => none

/-- An armed rule is a rule of the list, not behind the current one. -/
structure ArmedRule.Placed (env : Env) (ruleIndex : ℕ) (armed : ArmedRule) : Prop where
  rule : env.rules[armed.ruleIndex]? = some armed.rule
  le : armed.ruleIndex ≤ ruleIndex

/-- The future is the query of an `evaluate` rule: it has the tag and the server of the rule, and
the outcome of asking that server. -/
def Future.Asks (env : Env) (future : Future) (j : ℕ) (rule : Rule) : Prop :=
  ∃ server speculative options queryOptions,
    rule.action = .evaluate server future.tag speculative options ∧
      env.transport server = some future.transport ∧
      future.outcome =
        env.ask (some j) future.transport (applyDNSRouteOptions queryOptions options)

theorem Future.Asks.evaluateTag {env : Env} {future : Future} {j : ℕ} {rule : Rule}
    (h : future.Asks env j rule) : rule.evaluateTag? = some future.tag := by
  obtain ⟨server, speculative, options, queryOptions, haction, -⟩ := h
  rw [Rule.evaluateTag?, haction]

/-- The tags, the futures and the armed rules of a walk. -/
structure WalkState.WF (env : Env) (s : WalkState) : Prop where
  named : ∀ {tag : String} {f : ℕ}, s.namedFutures tag = some f →
    ∃ future, s.futures[f]? = some future ∧ future.tag = tag ∧ tag ≠ ""
  tagged : ∀ {f : ℕ} {future : Future}, s.futures[f]? = some future → future.tag ≠ "" →
    s.namedFutures future.tag = some f
  launched : ∀ {f : ℕ} {future : Future}, s.futures[f]? = some future → future.tag ≠ "" →
    ∃ (j : ℕ) (rule : Rule), env.rules[j]? = some rule ∧ future.Asks env j rule ∧
      j < s.ruleIndex
  settled : ∀ {f : ℕ} {future : Future}, s.futures[f]? = some future → future.settled = true →
    future.done = true ∧ (future.tag ≠ "" → s.namedResponses future.tag = future.view ∧
      s.namedTransports future.tag = some future.transport)
  armed : ∀ armed ∈ s.armedRules, armed.Placed env s.ruleIndex

/-- The same for the walker. -/
structure Config.WF (env : Env) (c : Config) : Prop where
  state : c.state.WF env
  rule : ∀ rule ∈ c.pc.rule?, env.rules[c.state.ruleIndex]? = some rule
  armed : ∀ armed ∈ c.pc.armed?, armed.Placed env c.state.ruleIndex

/-- The futures of the tags have the property `P`, up to the tags of `rest` and the futures of
`futures`. -/
def Covers (named : String → Option ℕ) (P : ℕ → Prop) (tags rest : List String)
    (futures : List ℕ) : Prop :=
  ∀ tag ∈ tags, tag ∈ rest ∨ ∀ f, named tag = some f → P f ∨ f ∈ futures

variable {futures futures' : List ℕ} {tags rest : List String}

theorem Covers.mono {named named' : String → Option ℕ} {P P' : ℕ → Prop}
    (h : Covers named P tags rest futures) (hnm : ∀ tag ∈ tags, named' tag = named tag)
    (hP : ∀ f, P f → P' f) (hfut : ∀ f ∈ futures, f ∈ futures') :
    Covers named' P' tags rest futures' := by
  intro tag ht
  refine (h tag ht).imp_right fun hc f hf => ?_
  rw [hnm tag ht] at hf
  exact (hc f hf).imp (hP f) (hfut f)

theorem Covers.tested {named : String → Option ℕ} {P : ℕ → Prop} {tag : String}
    (h : Covers named P tags (tag :: rest) futures)
    (ht : ∀ f, named tag = some f → P f ∨ f ∈ futures') (hfut : ∀ f ∈ futures, f ∈ futures') :
    Covers named P tags rest futures' := by
  intro x hx
  rcases h x hx with hr | hc
  · rcases mem_cons.mp hr with rfl | hr
    · exact .inr ht
    · exact .inl hr
  · exact .inr fun f hf => (hc f hf).imp_right (hfut f)

/-! ### Changes of the state -/

variable {armed : ArmedRule}

theorem ArmedRule.Placed.mono {env : Env} {i j : ℕ} (h : armed.Placed env i) (hij : i ≤ j) :
    armed.Placed env j :=
  ⟨h.rule, h.le.trans hij⟩

namespace WalkState.WF

variable {env : Env} {s : WalkState}

open Nat WalkState WalkState.WF

section

variable (h : s.WF env)

include h

theorem of_armed {armedRules : List ArmedRule}
    (ha : ∀ armed ∈ armedRules, armed.Placed env s.ruleIndex) :
    WalkState.WF env { s with armedRules := armedRules } :=
  { h with armed := ha }

theorem next : (s.next).WF env where
  state := ⟨h.named, h.tagged, fun hf ht => by
    obtain ⟨j, rule, hj, hr, hlt⟩ := h.launched hf ht
    exact ⟨j, rule, hj, hr, lt_succ_of_lt hlt⟩, h.settled,
    fun armed ha => (h.armed armed ha).mono (le_succ _)⟩
  rule := by simp [WalkState.next, PC.rule?]
  armed := by simp [WalkState.next, PC.armed?]

theorem suspend (sus : Suspension) : (s.suspend sus).WF env where
  state := h
  rule := by simp [WalkState.suspend, PC.rule?, Caller.rule?]
  armed := by simp [WalkState.suspend, PC.armed?]

/-- A future is replaced by one that differs in `done` and `settled`. -/
theorem set {k : ℕ} {future f' : Future} (hk : s.futures[k]? = some future)
    (hf' : f' = { future with done := f'.done, settled := f'.settled })
    (hs : f'.settled = true → f'.done = true ∧
      (future.tag ≠ "" → s.namedResponses future.tag = f'.view ∧
        s.namedTransports future.tag = some f'.transport)) :
    WalkState.WF env { s with futures := s.futures.set k f' } := by
  have ht : f'.tag = future.tag := by rw [hf']
  have hg : ∀ {f : ℕ} {x : Future}, (s.futures.set k f')[f]? = some x →
      f = k ∧ x = f' ∨ f ≠ k ∧ s.futures[f]? = some x := by
    intro f x hx
    by_cases hfk : f = k
    · subst hfk
      have hlt := (List.getElem?_eq_some_iff.mp hk).1
      rw [getElem?_set_self hlt] at hx
      exact .inl ⟨rfl, (some.inj hx).symm⟩
    · rw [getElem?_set_ne (Ne.symm hfk)] at hx
      exact .inr ⟨hfk, hx⟩
  refine ⟨fun {tag f} hnm => ?_, fun {f x} hx hne => ?_, fun {f x} hx hne => ?_,
    fun {f x} hx hse => ?_, h.armed⟩
  · obtain ⟨x, hx, hxt, hne⟩ := h.named hnm
    by_cases hfk : f = k
    · subst hfk
      obtain rfl := some.inj (hx.symm.trans hk)
      have hlt := (List.getElem?_eq_some_iff.mp hk).1
      exact ⟨f', getElem?_set_self hlt, ht.trans hxt, hne⟩
    · exact ⟨x, by simpa [getElem?_set_ne (Ne.symm hfk)] using hx, hxt, hne⟩
  · rcases hg hx with ⟨rfl, rfl⟩ | ⟨-, hx⟩
    · rw [ht] at hne ⊢
      exact h.tagged hk hne
    · exact h.tagged hx hne
  · rcases hg hx with ⟨rfl, rfl⟩ | ⟨-, hx⟩
    · rw [ht] at hne
      obtain ⟨j, rule, hj, hasks, hlt⟩ := h.launched hk hne
      refine ⟨j, rule, hj, ?_, hlt⟩
      rw [hf']
      exact hasks
    · exact h.launched hx hne
  · rcases hg hx with ⟨rfl, rfl⟩ | ⟨-, hx⟩
    · refine ⟨(hs hse).1, fun hne => ?_⟩
      rw [ht] at hne ⊢
      exact (hs hse).2 hne
    · exact h.settled hx hse

/-- A response is filed under the tag of its future; the other tags are not touched. -/
theorem settleFuture {k : ℕ} {future : Future} (hk : s.futures[k]? = some future) :
    (s.settleFuture k future).WF env := by
  unfold WalkState.settleFuture
  by_cases hs : (future.settled || !future.done) = true
  · rw [if_pos hs]
    exact h
  rw [if_neg hs]
  simp only [Bool.or_eq_true, Bool.not_eq_eq_eq_not, Bool.not_true, not_or, Bool.not_eq_false] at hs
  by_cases ht : future.tag = ""
  · rw [if_pos ht]
    exact h.set hk rfl fun _ => ⟨hs.2, fun hne => absurd ht hne⟩
  rw [if_neg ht]
  -- The state with the new responses is well formed before the future is marked as settled.
  have hfi : WalkState.WF env { s with
      namedResponses := update s.namedResponses future.tag future.view
      namedTransports :=
        update s.namedTransports future.tag (some future.transport) } := by
    refine { h with settled := fun {f x} hx hset => ?_ }
    refine ⟨(h.settled hx hset).1, fun hne => ?_⟩
    have ho : x.tag ≠ future.tag := by
      intro heq
      have hfk : f = k := by
        have hf := h.tagged hx hne
        rw [heq, h.tagged hk ht] at hf
        exact (some.inj hf).symm
      subst hfk
      obtain rfl := some.inj (hx.symm.trans hk)
      exact hs.1 hset
    simpa [update_of_ne ho] using (h.settled hx hset).2 hne
  refine hfi.set hk rfl fun _ => ⟨hs.2, fun _ => ?_⟩
  simp [Future.view]

theorem complete (f : ℕ) : (s.complete f).WF env := by
  unfold WalkState.complete
  cases hf : s.futures[f]? with
  | none => exact h
  | some future =>
    simp only
    split_ifs with hd
    · exact h
    · have hset : WalkState.WF env
          { s with futures := s.futures.set f { future with done := true } } :=
        h.set hf rfl fun hs => absurd (h.settled hf hs).1 hd
      exact { hset with }

theorem launch_untagged (future : Future) (ht : future.tag = "")
    (hs : future.settled = false) : (s.launch future).WF env := by
  have hg : ∀ {f : ℕ} {x : Future}, (s.futures ++ [future])[f]? = some x →
      s.futures[f]? = some x ∨ x = future := by
    intro f x hx
    rcases mem_append.mp (mem_of_getElem? hx) with hm | hm
    · by_cases hlt : f < s.futures.length
      · rw [getElem?_append_left hlt] at hx
        exact .inl hx
      · rw [getElem?_append_right (Nat.le_of_not_lt hlt)] at hx
        exact .inr (mem_singleton.mp (mem_of_getElem? hx))
    · exact .inr (mem_singleton.mp hm)
  refine ⟨fun {tag f} hnm => ?_, fun {f x} hx hne => ?_, fun {f x} hx hne => ?_,
    fun {f x} hx hset => ?_, h.armed⟩
  · obtain ⟨x, hx, hxt⟩ := h.named hnm
    have hlt := (List.getElem?_eq_some_iff.mp hx).1
    exact ⟨x, by simpa [launch, getElem?_append_left hlt] using hx, hxt⟩
  · rcases hg hx with hx | rfl
    · exact h.tagged hx hne
    · exact absurd ht hne
  · rcases hg hx with hx | rfl
    · exact h.launched hx hne
    · exact absurd ht hne
  · rcases hg hx with hx | rfl
    · exact h.settled hx hset
    · exact absurd hset (by simp [hs])

end

/-- The current rule launches the future of its tag, and the walk goes on. No future has the tag
yet, since no rule before the current one defines it. -/
theorem next_launch_tagged (hru : Validated env.rules) (h : s.WF env) {rule : Rule}
    (hr : env.rules[s.ruleIndex]? = some rule) {future : Future}
    (hasks : future.Asks env s.ruleIndex rule) (hne : future.tag ≠ "")
    (hs : future.settled = false) : (WalkState.next { s.launch future with
      namedFutures :=
        update s.namedFutures future.tag (some s.futures.length) }).WF env := by
  have hn : ∀ {f : ℕ} {x : Future}, s.futures[f]? = some x → x.tag ≠ future.tag := by
    intro f x hx heq
    obtain ⟨j, r', hj, hr', hlt⟩ := h.launched hx (heq ▸ hne)
    have hsa := hru.unique hj hr hr'.evaluateTag (heq ▸ hasks.evaluateTag) (heq ▸ hne)
    omega
  have hg : ∀ {f : ℕ} {x : Future}, (s.futures ++ [future])[f]? = some x →
      s.futures[f]? = some x ∨ f = s.futures.length ∧ x = future := by
    intro f x hx
    by_cases hlt : f < s.futures.length
    · rw [getElem?_append_left hlt] at hx
      exact .inl hx
    · have hle := (List.getElem?_eq_some_iff.mp hx).1
      rw [length_append, length_singleton] at hle
      obtain rfl : f = s.futures.length := by omega
      rw [getElem?_concat_length] at hx
      exact .inr ⟨rfl, (some.inj hx).symm⟩
  refine ⟨⟨fun {tag f} hnm => ?_, fun {f x} hx hxn => ?_, fun {f x} hx hxn => ?_,
    fun {f x} hx hse => ?_, fun armed ha => (h.armed armed ha).mono (Nat.le_succ _)⟩,
    by simp [WalkState.next, PC.rule?], by simp [WalkState.next, PC.armed?]⟩
  · by_cases hsa : tag = future.tag
    · subst hsa
      obtain rfl : s.futures.length = f := by simpa [WalkState.next] using hnm
      exact ⟨future, getElem?_concat_length, rfl, hne⟩
    · have ho : s.namedFutures tag = some f := by
        simpa [WalkState.next, update_of_ne hsa] using hnm
      obtain ⟨x, hx, hxt⟩ := h.named ho
      have hlt := (List.getElem?_eq_some_iff.mp hx).1
      exact ⟨x, (getElem?_append_left hlt).trans hx, hxt⟩
  · rcases hg hx with hx | ⟨rfl, rfl⟩
    · simpa [WalkState.next, update_of_ne (hn hx)] using h.tagged hx hxn
    · simp [WalkState.next]
  · rcases hg hx with hx | ⟨rfl, rfl⟩
    · obtain ⟨j, r', hj, hr', hlt⟩ := h.launched hx hxn
      exact ⟨j, r', hj, hr', Nat.lt_succ_of_lt hlt⟩
    · exact ⟨s.ruleIndex, rule, hr, hasks, Nat.lt_succ_self _⟩
  · rcases hg hx with hx | ⟨rfl, rfl⟩
    · exact h.settled hx hse
    · exact absurd hse (by simp [hs])

end WalkState.WF

/-! ### What the actions do -/

section Actions

variable {env : Env} {s : WalkState} {P : Config → Prop}

/-- What the action of a rule can do: pass on to the next rule, wait, end the walk when no rule is
armed, or launch a future. -/
theorem WalkState.act_cases {rule : Rule}
    (next : ∀ op anon, (anon = s.anonymousFuture ∨ anon = none) →
      P (WalkState.next { s with effectiveOptions := op, anonymousFuture := anon }))
    (drain : s.armedRules ≠ [] → P (s.suspend .drain))
    (await : ∀ f, s.anonymousFuture = some f → s.resolved f = false → P (s.suspend (.await f)))
    (pend : s.armedRules = [] → ∀ exchange,
      (s.terminalFuture = none → exchange.future = none) → P (s.suspend (.pending exchange)))
    (done : s.armedRules = [] → ∀ result, P ⟨.done result, s⟩)
    (anon : ∀ fut : Future, fut.tag = "" → fut.settled = false →
      P (WalkState.next { s.launch fut with anonymousFuture := some s.futures.length }))
    (tagged : ∀ fut : Future, fut.Asks env s.ruleIndex rule → fut.tag ≠ "" →
      fut.settled = false → P (WalkState.next { s.launch fut with
        namedFutures := update s.namedFutures fut.tag (some s.futures.length) }))
    (terminal : s.armedRules ≠ [] → ∀ fut : Future, fut.tag = "" → fut.settled = false →
      P (WalkState.suspend { s.launch fut with
        terminalFuture := some s.futures.length
        terminalIndex := s.ruleIndex } .drain)) :
    P (s.act env rule) := by
  have hs : P s.next := next s.effectiveOptions s.anonymousFuture (.inl rfl)
  unfold act
  cases hac : rule.action with
  | routeOptions op => exact next _ s.anonymousFuture (.inl rfl)
  | evaluate server tag speculative op =>
    simp only [actEvaluate]
    cases htransport : env.transport server with
    | none => exact next s.effectiveOptions _ (by split_ifs <;> simp)
    | some tr =>
      simp only
      split_ifs with ha he
      · exact drain (by simpa using (Bool.and_eq_true_iff.mp ha).2)
      · exact anon _ he rfl
      · exact tagged _ ⟨_, _, _, _, hac, htransport, rfl⟩ he rfl
  | respond =>
    simp only [actRespond]
    by_cases ha : s.armedRules = []
    · rw [if_neg (by simpa using ha)]
      split_ifs
      · exact done ha _
      · exact done ha _
      · cases haw : s.anonymousFuture.filter fun f => !s.resolved f with
        | none => exact done ha _
        | some f =>
          obtain ⟨hf, hr⟩ := filter_eq_some_iff.mp haw
          exact await f hf (by simpa using hr)
    · rw [if_pos ha]
      exact drain ha
  | route server speculative op =>
    simp only [actRoute]
    cases env.resolveDNSRoute server op s.effectiveOptions with
    | none => exact hs
    | some r =>
      obtain ⟨tr, queryOptions⟩ := r
      simp only
      by_cases ha : s.armedRules = []
      · rw [if_neg (by simpa using ha)]
        split
        · exact pend ha _ fun hn => by simp_all
        · exact pend ha _ fun _ => rfl
      · rw [if_pos ha]
        split_ifs
        · exact terminal ha _ rfl rfl
        · exact drain ha
  | reject action =>
    simp only
    by_cases ha : s.armedRules = []
    · rw [if_neg (by simpa using ha)]
      split
      · exact done ha _
      · exact hs
    · rw [if_pos ha]
      exact drain ha
  | predefined response =>
    simp only
    by_cases ha : s.armedRules = []
    · rw [if_neg (by simpa using ha)]
      exact done ha _
    · rw [if_pos ha]
      exact drain ha

/-- The action of an armed rule has no effect: a route to a server that is missing or skipped, or an
action that `NewDNSRule` does not accept for a `race` rule. -/
def ArmedRule.Declines (env : Env) (armed : ArmedRule) : Prop :=
  match armed.rule.action with
  | .route server _ options => env.resolveDNSRoute server options armed.options = none
  | .reject action => rejectResult env armed.ruleIndex action = none
  | .respond => False
  | .predefined _ => False
  | .routeOptions _ => True
  | .evaluate _ _ _ _ => True

theorem WalkState.sweepAct_cases {index : ℕ} {caller : Caller}
    (sweep : armed.Declines env → P ⟨.sweep index caller, s⟩)
    (done : ¬ armed.Declines env → ∀ result, P ⟨.done result, s⟩)
    (pend : ¬ armed.Declines env → ∀ rule exchange, caller = .walk rule →
      P (suspend { s with armedRules := [] } (.pending exchange)))
    (fin : ¬ armed.Declines env → ∀ sus exchange, caller = .resume sus →
      P ⟨.finishing exchange, s⟩) : P (s.sweepAct env index armed caller) := by
  unfold ArmedRule.Declines at sweep done pend fin
  unfold sweepAct
  cases ha : armed.rule.action with
  | routeOptions op => exact sweep (by simp [ha])
  | evaluate server tag speculative op => exact sweep (by simp [ha])
  | respond => exact done (by simp [ha]) _
  | route server speculative op =>
    simp only [ha] at sweep done pend fin ⊢
    cases hr : env.resolveDNSRoute server op armed.options with
    | none => exact sweep hr
    | some r =>
      obtain ⟨tr, queryOptions⟩ := r
      cases caller with
      | walk rule => exact pend (by simp [hr]) rule _ rfl
      | resume sus => exact fin (by simp [hr]) sus _ rfl
  | reject act =>
    simp only [ha] at sweep done ⊢
    cases hre : rejectResult env armed.ruleIndex act with
    | none => exact sweep hre
    | some result => exact done (by simp [hre]) _
  | predefined response => exact done (by simp [ha]) _

/-- What a step of the walker can do. The tests of a race rule and the actions have rules of their
own. -/
theorem WalkState.walk_cases {Q : PC → Config → Prop}
    (headEnd : ∀ sus, env.rules[s.ruleIndex]? = none → (s.armedRules = [] → sus = .pending {
        rule := none, transport := env.defaultTransport, options := s.effectiveOptions }) →
      Q .head (s.suspend sus))
    (headBinds : ∀ rule, env.rules[s.ruleIndex]? = some rule → Q .head ⟨.settle 0 (.walk rule), s⟩)
    (headMatch : ∀ rule, env.rules[s.ruleIndex]? = some rule → rule.hasBindings = false →
      Q .head ⟨.matching rule, s⟩)
    (settle : ∀ k caller fut, s.futures[k]? = some fut →
      Q (.settle k caller) ⟨.settle (k + 1) caller, s.settleFuture k fut⟩)
    (race : ∀ k rule, s.futures[k]? = none → rule.race = true →
      Q (.settle k (.walk rule)) ⟨.raceTags rule rule.tree.matchResponseTags [], s⟩)
    (await : ∀ k rule, s.futures[k]? = none → rule.race = false →
      Q (.settle k (.walk rule)) ⟨.awaitTags rule rule.tree.matchResponseTags, s⟩)
    (resume : ∀ k sus, s.futures[k]? = none →
      Q (.settle k (.resume sus)) ⟨.sweep 0 (.resume sus), s⟩)
    (raceTags : ∀ rule tags pending, Q (.raceTags rule tags pending) (s.raceTags rule tags pending))
    (awaitTags : ∀ rule tags f, s.resolved f = false →
      (s.anonymousFuture = some f ∨ ∃ tag, s.namedFutures tag = some f) →
      Q (.awaitTags rule tags) (s.suspend (.await f)))
    (awaitNext : ∀ rule tag tags, (∀ f, s.namedFutures tag = some f → s.resolved f = true) →
      Q (.awaitTags rule (tag :: tags)) ⟨.awaitTags rule tags, s⟩)
    (awaited : ∀ rule, (rule.tree.matchResponseAnonymous = true →
      ∀ f, s.anonymousFuture = some f → s.resolved f = true) →
      Q (.awaitTags rule []) ⟨.matching rule, s⟩)
    (matching : ∀ rule, Q (.matching rule) (s.matching rule))
    (acting : ∀ rule, Q (.acting rule) (s.act env rule))
    (sweep : ∀ index armed caller, s.armedRules[index]? = some armed →
      Q (.sweep index caller) ⟨.sweepReady index armed armed.futures caller, s⟩)
    (sweepNext : ∀ index rule, Q (.sweep index (.walk rule)) s.next)
    (sweepEnd : ∀ index sus, Q (.sweep index (.resume sus)) ⟨.resumed sus, s⟩)
    (ready : ∀ index armed f fu caller, s.resolved f = true →
      Q (.sweepReady index armed (f :: fu) caller) ⟨.sweepReady index armed fu caller, s⟩)
    (notReady : ∀ index armed f fu caller, s.resolved f ≠ true →
      Q (.sweepReady index armed (f :: fu) caller) ⟨.sweep (index + 1) caller, s⟩)
    (take : ∀ index armed caller, Q (.sweepReady index armed [] caller)
      ⟨.sweepMatch index armed caller, { s with armedRules := s.armedRules.eraseIdx index }⟩)
    (sweepMatch : ∀ index armed caller md, Q (.sweepMatch index armed caller)
      ⟨.sweepAct index armed caller, { s with metadata := md }⟩)
    (sweepMismatch : ∀ index armed caller md, Q (.sweepMatch index armed caller)
      ⟨.sweep index caller, { s with metadata := md }⟩)
    (sweepAct : ∀ index armed caller,
      Q (.sweepAct index armed caller) (s.sweepAct env index armed caller))
    (finish : ∀ exchange, Q (.resumed (.pending exchange)) ⟨.finishing exchange, s⟩)
    (walkOn : ∀ sus, (∀ exchange, sus ≠ .pending exchange) →
      (∀ f, sus = .await f → s.resolved f = true) → Q (.resumed sus) ⟨.head, s⟩)
    (block : ∀ sus, (∀ exchange, sus ≠ .pending exchange) →
      (∀ f, sus = .await f → s.resolved f = false) → Q (.resumed sus) ⟨.blocked sus, s⟩)
    (asleep : ∀ sus, s.wake = false → Q (.blocked sus) ⟨.blocked sus, s⟩)
    (wake : ∀ sus, s.wake = true →
      Q (.blocked sus) (WalkState.suspend { s with wake := false } sus))
    (finishing : ∀ exchange, exchange.future ≠ none →
      Q (.finishing exchange) ⟨.finishing exchange, s⟩)
    (finished : ∀ exchange result,
      (exchange.future = none → s.finishing env exchange = ⟨.done result, s⟩) →
      Q (.finishing exchange) ⟨.done result, s⟩)
    (done : ∀ result, Q (.done result) ⟨.done result, s⟩) (pc : PC) :
    Q pc (Config.walk env ⟨pc, s⟩) := by
  simp only [Config.walk]
  cases pc with
  | head =>
    simp only [head]
    cases hg : env.rules[s.ruleIndex]? with
    | none =>
      simp only
      split_ifs with har
      · exact headEnd _ hg fun h => absurd h har
      · exact headEnd _ hg fun _ => rfl
    | some rule =>
      simp only
      split_ifs with hb
      · exact headBinds rule hg
      · exact headMatch rule hg (by simpa using hb)
  | settle k caller =>
    simp only [WalkState.settle]
    cases hk : s.futures[k]? with
    | some fut => exact settle k caller fut hk
    | none =>
      cases caller with
      | walk rule =>
        simp only
        split_ifs with hra
        · exact race k rule hk hra
        · exact await k rule hk (by simpa using hra)
      | resume sus => exact resume k sus hk
  | raceTags rule tags pending => exact raceTags rule tags pending
  | awaitTags rule tags =>
    cases tags with
    | cons tag tags =>
      simp only [WalkState.awaitTags]
      split
      case h_1 f hw =>
        obtain ⟨hf, ho⟩ := filter_eq_some_iff.mp hw
        exact awaitTags rule _ f (by simpa using ho) (.inr ⟨tag, hf⟩)
      case h_2 hw => exact awaitNext rule tag tags fun f hf => by simpa [hf] using hw
    | nil =>
      simp only [WalkState.awaitTags]
      split
      case h_1 f hw =>
        split_ifs at hw
        obtain ⟨hf, ho⟩ := filter_eq_some_iff.mp hw
        exact awaitTags rule _ f (by simpa using ho) (.inl hf)
      case h_2 hw =>
        exact awaited rule fun ha f hf => by simpa [ha, hf] using hw
  | matching rule => exact matching rule
  | acting rule => exact acting rule
  | sweep index caller =>
    simp only [WalkState.sweep]
    cases hg : s.armedRules[index]? with
    | some armed => exact sweep index armed caller hg
    | none =>
      cases caller with
      | walk rule => exact sweepNext index rule
      | resume sus => exact sweepEnd index sus
  | sweepReady index armed fu caller =>
    cases fu with
    | cons f fu =>
      simp only [sweepReady]
      split_ifs with hr
      · exact ready index armed f fu caller hr
      · exact notReady index armed f fu caller hr
    | nil => exact take index armed caller
  | sweepMatch index armed caller =>
    simp only [WalkState.sweepMatch]
    split_ifs
    · exact sweepMatch index armed caller _
    · exact sweepMismatch index armed caller _
  | sweepAct index armed caller => exact sweepAct index armed caller
  | resumed sus =>
    cases sus with
    | pending exchange => exact finish exchange
    | await f =>
      simp only [resumed]
      split_ifs with hr
      · exact walkOn _ (by simp) (by simp [hr])
      · exact block _ (by simp) (by simpa using hr)
    | drain =>
      simp only [resumed]
      split_ifs
      · exact walkOn _ (by simp) (by simp)
      · exact block _ (by simp) (by simp)
  | blocked sus =>
    simp only [blocked]
    split_ifs with hwa
    · exact wake sus hwa
    · exact asleep sus (by simpa using hwa)
  | finishing exchange =>
    simp only [WalkState.finishing]
    split
    case h_1 f hfu =>
      split
      · exact finished exchange _ (by simp [hfu])
      · exact finishing exchange (by simp [hfu])
    case h_2 hn => exact finished exchange _ fun _ => by simp only [WalkState.finishing, hn]
  | done result => exact done result

end Actions

/-! ### Steps -/

section Steps

variable {env : Env} {s : WalkState}

theorem WalkState.WF.act (hru : Validated env.rules) (h : s.WF env) {rule : Rule}
    (hr : env.rules[s.ruleIndex]? = some rule) : (s.act env rule).WF env := by
  apply act_cases
  · intro op anon _
    exact next { h with }
  · exact fun _ => h.suspend _
  · exact fun _ _ _ => h.suspend _
  · exact fun _ _ _ => h.suspend _
  · intro _ result
    exact ⟨h, by simp [PC.rule?], by simp [PC.armed?]⟩
  · intro future ht hs
    have hl := h.launch_untagged future ht hs
    refine next ?_
    exact { hl with }
  · intro future hasks hne hs
    exact h.next_launch_tagged hru hr hasks hne hs
  · intro _ future ht hs
    have hl := h.launch_untagged future ht hs
    refine suspend ?_ _
    exact { hl with }

theorem Config.WF.sweepAct {index : ℕ} {caller : Caller}
    (h : Config.WF env ⟨.sweepAct index armed caller, s⟩) :
    (s.sweepAct env index armed caller).WF env := by
  apply sweepAct_cases
  · intro _
    exact ⟨h.state, h.rule, by simp [PC.armed?]⟩
  · intro _ result
    exact ⟨h.state, by simp [PC.rule?], by simp [PC.armed?]⟩
  · intro _ rule exchange _
    exact WalkState.WF.suspend (h.state.of_armed (by simp)) _
  · intro _ sus exchange _
    exact ⟨h.state, by simp [PC.rule?], by simp [PC.armed?]⟩

variable (hrules : Validated env.rules)

include hrules

theorem Config.WF.walk {c : Config} (h : c.WF env) : (c.walk env).WF env := by
  obtain ⟨pc, s⟩ := c
  have hs : s.WF env := h.state
  have hm : ∀ metadata, WalkState.WF env { s with metadata := metadata } := fun _ =>
    { hs with }
  revert h
  apply walk_cases (Q := fun pc c => Config.WF env ⟨pc, s⟩ → c.WF env)
  case headEnd => exact fun _ _ _ _ => hs.suspend _
  case awaitTags => exact fun _ _ _ _ _ _ => hs.suspend _
  case headBinds =>
    intro rule hg _
    exact ⟨hs, by simpa [PC.rule?, Caller.rule?] using hg, by simp [PC.armed?]⟩
  case headMatch =>
    intro rule hg _ _
    exact ⟨hs, by simpa [PC.rule?] using hg, by simp [PC.armed?]⟩
  case settle =>
    intro k caller future hk h
    refine ⟨hs.settleFuture hk, ?_, by simp [PC.armed?]⟩
    rw [settleFuture_ruleIndex]
    exact h.rule
  case raceTags =>
    intro rule tags pending h
    cases tags with
    | cons tag tags => exact ⟨hs, h.rule, by simp [raceTags, PC.armed?]⟩
    | nil =>
      have ha : ∀ armed : ArmedRule, armed.ruleIndex = s.ruleIndex → armed.rule = rule →
          ∀ x ∈ s.armedRules ++ [armed], x.Placed env s.ruleIndex := by
        intro armed hi hsa x hx
        rcases mem_append.mp hx with hx | hx
        · exact hs.armed x hx
        · obtain rfl := mem_singleton.mp hx
          exact ⟨by rw [hi, hsa]; exact h.rule rule rfl, Nat.le_of_eq hi⟩
      simp only [raceTags]
      split_ifs
      · exact ⟨hs.of_armed (ha _ rfl rfl), h.rule, by simp [PC.armed?]⟩
      · exact WalkState.WF.next (hs.of_armed (ha _ rfl rfl))
      · exact ⟨hs.of_armed (ha _ rfl rfl), h.rule, by simp [PC.armed?]⟩
      · exact WalkState.WF.next (hs.of_armed (ha _ rfl rfl))
  case matching =>
    intro rule h
    simp only [matching]
    split_ifs
    · exact ⟨hm _, h.rule, by simp [PC.armed?]⟩
    · exact (hm _).next
  case acting => exact fun rule h => hs.act hrules (h.rule rule rfl)
  case sweep =>
    intro index armed caller hg h
    refine ⟨hs, h.rule, ?_⟩
    rintro x ⟨⟩
    exact hs.armed armed (mem_of_getElem? hg)
  case sweepNext => exact fun _ _ _ => hs.next
  case ready => exact fun _ _ _ _ _ _ h => ⟨hs, h.rule, h.armed⟩
  case take =>
    exact fun _ _ _ h =>
      ⟨hs.of_armed fun x hx => hs.armed x (mem_of_mem_eraseIdx hx), h.rule, h.armed⟩
  case sweepMatch => exact fun _ _ _ _ h => ⟨hm _, h.rule, h.armed⟩
  case sweepMismatch => exact fun _ _ _ _ h => ⟨hm _, h.rule, by simp [PC.armed?]⟩
  case sweepAct => exact fun _ _ _ h => h.sweepAct
  case wake =>
    refine fun _ _ _ => WalkState.WF.suspend ?_ _
    exact { hs with }
  -- The other steps keep the state, and the current rule if there is one.
  all_goals
    intros
    rename_i h
    exact ⟨hs, h.rule, by simp [PC.armed?]⟩

theorem step_wf {c : Config} (h : c.WF env) (event : Event) : (step env c event).WF env := by
  cases event with
  | walk => exact h.walk hrules
  | complete f =>
    refine ⟨h.state.complete f, ?_, ?_⟩
    · simpa only [step, complete_ruleIndex] using h.rule
    · simpa only [step, complete_ruleIndex] using h.armed
  | cancel err =>
    simp only [step, Config.cancel]
    split
    · exact ⟨h.state, by simp [PC.rule?], by simp [PC.armed?]⟩
    · split_ifs
      · exact ⟨h.state, by simp [PC.rule?], by simp [PC.armed?]⟩
      · exact h
    · exact h

theorem exec_wf (events : ℕ → Event) (n : ℕ) : (exec env events n).WF env := by
  refine run_invariant (P := Config.WF env) ?_ (fun c event h => step_wf hrules h event) n
  refine ⟨⟨by simp [start], by simp [start], by simp [start], by simp [start], by simp [start]⟩, ?_,
    ?_⟩
  · simp [start, PC.rule?]
  · simp [start, PC.armed?]

end Steps

end SingBox.DNS.Walk
