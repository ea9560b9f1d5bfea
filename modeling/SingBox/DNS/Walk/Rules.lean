import SingBox.Rule.Matcher

/-!
# DNS rules with actions, and their validation

The DNS router walks a list of rules. A rule is a tree that is matched against the query and against
the responses of earlier `evaluate` rules, an action, and the `race` flag. A list is accepted by
`validateLegacyDNSModeDisabledRules`: a rule may only use responses that a preceding rule asks for.

Options and rule objects are one thing here: `NewDNSRule` copies the fields that validation reads.
-/

namespace SingBox.Rule.DNSRule

open SingBox.Adapter

mutual

/-- `MatchResponseTags` of `DefaultDNSRule` and `LogicalDNSRule`. -/
def matchResponseTags : DNSRule → List String
  | .default binding _ _ _ => if binding.tag = "" then [] else [binding.tag]
  | .logical _ rules _ => (matchResponseTagsOf rules).eraseDups

/-- The tags of the rules of a list, in order. -/
def matchResponseTagsOf : List DNSRule → List String
  | [] => []
  | rule :: rules => matchResponseTags rule ++ matchResponseTagsOf rules

end

mutual

/-- `MatchResponseAnonymous` of `DefaultDNSRule` and `LogicalDNSRule`. -/
def matchResponseAnonymous : DNSRule → Bool
  | .default binding _ _ _ => binding.enabled && decide (binding.tag = "")
  | .logical _ rules _ => matchResponseAnonymousOf rules

/-- Whether a rule of a list reads the anonymous response. -/
def matchResponseAnonymousOf : List DNSRule → Bool
  | [] => false
  | rule :: rules => matchResponseAnonymous rule || matchResponseAnonymousOf rules

end

/-- `MatchResponseTag` of `DefaultDNSRule` and `LogicalDNSRule`. -/
def matchResponseTag : DNSRule → String
  | .default binding _ _ _ => binding.tag
  | .logical _ _ _ => ""

end SingBox.Rule.DNSRule

namespace SingBox.DNS.Walk

open SingBox.Net SingBox.Adapter SingBox.Rule

/-! ### Options and actions -/

/-- `adapter.DNSQueryOptions`, less the fields that the walk neither reads nor sets. -/
structure DNSQueryOptions where
  strategy : ℕ := 0
  disableCache : Bool := false
  disableOptimisticCache : Bool := false
  rewriteTTL : Option ℕ := none
  timeout : ℤ := 0
  clientSubnet : Prefix := Prefix.zero
  removeClientSubnet : Bool := false
deriving DecidableEq

/-- `RuleActionDNSRouteOptions`, less the strategy, which the walk skips. -/
structure DNSRouteOptions where
  disableCache : Bool := false
  disableOptimisticCache : Bool := false
  rewriteTTL : Option ℕ := none
  timeout : ℤ := 0
  clientSubnet : Prefix := Prefix.zero
  removeClientSubnet : Bool := false
deriving DecidableEq

/-- `Router.applyDNSRouteOptions`. -/
def applyDNSRouteOptions (options : DNSQueryOptions) (routeOptions : DNSRouteOptions) :
    DNSQueryOptions :=
  let options :=
    if routeOptions.disableCache then { options with disableCache := true } else options
  let options := if routeOptions.disableOptimisticCache then
      { options with disableOptimisticCache := true }
    else options
  let options := if routeOptions.rewriteTTL.isSome then
      { options with rewriteTTL := routeOptions.rewriteTTL }
    else options
  let options := if routeOptions.timeout > 0 then
      { options with timeout := routeOptions.timeout }
    else options
  let options := if routeOptions.clientSubnet.isValid then
      { options with clientSubnet := routeOptions.clientSubnet, removeClientSubnet := false }
    else options
  if routeOptions.removeClientSubnet then
    { options with clientSubnet := Prefix.zero, removeClientSubnet := true }
  else options

/-- The methods of `RuleActionReject`. -/
inductive RejectMethod where
  | default
  | drop
  | reply
deriving DecidableEq

/-- `RuleActionReject`. -/
structure RejectAction where
  method : RejectMethod
  noDrop : Bool := false
deriving DecidableEq

/-- The actions of DNS rules. `RuleActionPredefined` is given by its `Response` method. -/
inductive DNSAction where
  | routeOptions (options : DNSRouteOptions)
  | evaluate (server tag : String) (speculative : Bool) (options : DNSRouteOptions)
  | respond
  | route (server : String) (speculative : Bool) (options : DNSRouteOptions)
  | reject (action : RejectAction)
  | predefined (response : Msg → Msg)

/-- The actions that `NewDNSRule` accepts for a `race` rule. -/
def DNSAction.isFinal : DNSAction → Bool
  | .route _ speculative _ => !speculative
  | .respond => true
  | .reject action => decide (action.method ≠ .reply)
  | .predefined _ => true
  | .routeOptions _ => false
  | .evaluate _ _ _ _ => false

/-- A DNS rule of the router. `NewDNSRule` wants a final action and a response to wait for from a
`race` rule. -/
structure Rule where
  tree : DNSRule
  action : DNSAction
  race : Bool := false
  race_final : race = true → action.isFinal = true ∧
    (tree.matchResponseTags ≠ [] ∨ tree.matchResponseAnonymous = true) := by simp

namespace Rule

/-- The tag of an `evaluate` action. -/
def evaluateTag? (rule : Rule) : Option String :=
  match rule.action with
  | .evaluate _ tag _ _ => some tag
  | _ => none

/-- Whether the action is `respond`. -/
def isRespond (rule : Rule) : Bool :=
  match rule.action with
  | .respond => true
  | _ => false

/-- `dnsRuleActionSpeculative`. -/
def isSpeculative (rule : Rule) : Bool :=
  match rule.action with
  | .evaluate _ _ speculative _ => speculative
  | .route _ speculative _ => speculative
  | _ => false

/-- The variable `hasBindings` of `walkDNSRules`. -/
def hasBindings (rule : Rule) : Bool :=
  !rule.tree.matchResponseTags.isEmpty || rule.tree.matchResponseAnonymous

end Rule

/-! ### Validation -/

/-- `adapter.RuleSetMetadata`, less the fields that this validation does not read. -/
structure RuleSetMetadata where
  containsIPCIDRRule : Bool
  containsNonIPCIDRRule : Bool

/-- `dnsRuleResponseUse`. -/
structure ResponseUse where
  needsAnonymous : Bool := false
  referencedTags : List String := []

/-- `Note.MessageWithLink` of `OptionLegacyDNSAddressFilter`. -/
def legacyDNSAddressFilterMessage : String :=
  "Legacy Address Filter Fields in DNS rules is deprecated in sing-box 1.14.0 and will be removed " ++
    "in sing-box 1.16.0, checkout documentation for migration: https://sing-box.sagernet.org/" ++
    "migration/#migrate-address-filter-fields-to-response-matching"

/-- `Note.MessageWithLink` of `OptionRuleSetIPCIDRAcceptEmpty`. -/
def ruleSetIPCIDRAcceptEmptyMessage : String :=
  "Legacy `rule_set_ip_cidr_accept_empty` DNS rule item is deprecated in sing-box 1.14.0 and will " ++
    "be removed in sing-box 1.16.0, checkout documentation for migration: https://sing-box." ++
    "sagernet.org/migration/#migrate-address-filter-fields-to-response-matching"

section Validate

-- `lookupDNSRuleSetMetadata`
variable (lookup : RuleSet → Except String RuleSetMetadata)

/-- The loop over the referenced rule-sets. -/
def validateRuleSets : List RuleSet → Except String Unit
  | [] => .ok ()
  | ruleSet :: ruleSets =>
    match lookup ruleSet with
    | .error err => .error err
    | .ok metadata =>
      if metadata.containsIPCIDRRule && !metadata.containsNonIPCIDRRule then
        .error legacyDNSAddressFilterMessage
      else validateRuleSets ruleSets

/-- `validateLegacyDNSModeDisabledDefaultRule`; `respond` says whether the rule has that action. -/
def validateDefaultRule (binding : MatchResponse) (groups : ItemGroups)
    (ruleSetItem : Option RuleSetItem) (respond : Bool) : Except String ResponseUse :=
  if (groups.items.any PlainItem.readsResponse || !groups.destinationIPCIDRItems.isEmpty) &&
      !binding.enabled then
    .error ("Response Match Fields (ip_cidr, ip_is_private, ip_accept_any, response_rcode, " ++
      "response_answer, response_ns, response_extra) require match_response to be enabled")
  else
    match if binding.enabled then .ok () else
        validateRuleSets lookup (ruleSetItem.elim [] RuleSetItem.setList) with
    | .error err => .error err
    | .ok () =>
      if ruleSetItem.any RuleSetItem.ipCidrAcceptEmpty then .error ruleSetIPCIDRAcceptEmptyMessage
      else
        .ok {
          needsAnonymous := decide (binding.tag = "") && (binding.enabled || respond)
          referencedTags := if binding.enabled && decide (binding.tag ≠ "") then [binding.tag]
            else [] }

mutual

/-- `validateLegacyDNSModeDisabledRuleTree`; `respond` says whether the rule has that action, which
a rule below another one has not. -/
def validateRuleTree (respond : Bool) : DNSRule → Except String ResponseUse
  | .default binding groups ruleSetItem _ =>
    validateDefaultRule lookup binding groups ruleSetItem respond
  | .logical _ rules _ =>
    match validateRuleTrees 0 {} rules with
    | .error err => .error err
    | .ok use =>
      if respond then
        if use.referencedTags ≠ [] then
          .error ("respond on a logical rule cannot bind a `match_response` tag from its sub " ++
            "rules; use a non-logical rule")
        else .ok { use with needsAnonymous := true }
      else .ok use

/-- The loop over the rules of a logical rule; `i` and `use` are the loop's variables. -/
def validateRuleTrees (i : ℕ) (use : ResponseUse) : List DNSRule → Except String ResponseUse
  | [] => .ok use
  | rule :: rules =>
    match validateRuleTree false rule with
    | .error err => .error ("sub rule[" ++ toString i ++ "]: " ++ err)
    | .ok subUse =>
      validateRuleTrees (i + 1)
        { needsAnonymous := use.needsAnonymous || subUse.needsAnonymous
          referencedTags := use.referencedTags ++ subUse.referencedTags } rules

end

/-- The variables of the loop of `validateLegacyDNSModeDisabledRules`. The map `definedTags` has the
elements of `definedTagOrder`. -/
structure Validation where
  warnings : List String := []
  seenAnonymousEvaluate : Bool := false
  seenRace : Bool := false
  definedTagOrder : List String := []
  referencedTags : List String := []
  lastAnonymousEvaluate : Option ℕ := none
  anonymousReadSinceLast : Bool := false

/-- The first use of a tag that is not defined. -/
def Validation.undefinedTag (v : Validation) (use : ResponseUse) : Option String :=
  use.referencedTags.find? fun tag => !v.definedTagOrder.contains tag

/-- What the loop does with the action of rule `i`. -/
def Validation.define (v : Validation) (i : ℕ) : Option String → Except String Validation
  | none => .ok v
  | some tag =>
    if tag = "" then
      .ok { v with
        warnings := match v.lastAnonymousEvaluate with
          | some last => if v.anonymousReadSinceLast then v.warnings else
            v.warnings ++ ["dns rule[" ++ toString last ++
              "]: evaluated response is overwritten by dns rule[" ++ toString i ++
              "] before any use"]
          | none => v.warnings
        seenAnonymousEvaluate := true
        lastAnonymousEvaluate := some i
        anonymousReadSinceLast := false }
    else if v.definedTagOrder.contains tag then
      .error ("dns rule[" ++ toString i ++ "]: duplicate evaluate tag: " ++ tag)
    else .ok { v with definedTagOrder := v.definedTagOrder ++ [tag] }

/-- One round of the loop of `validateLegacyDNSModeDisabledRules`. -/
def validateRule (i : ℕ) (v : Validation) (rule : Rule) : Except String Validation :=
  match validateRuleTree lookup rule.isRespond rule.tree with
  | .error err => .error ("validate dns rule[" ++ toString i ++ "]: " ++ err)
  | .ok use =>
    let v := if rule.isSpeculative && !v.seenRace then
        { v with warnings := v.warnings ++ ["dns rule[" ++ toString i ++
          "]: `speculative` has no effect without a preceding `race` rule"] }
      else v
    let v := { v with seenRace := v.seenRace || rule.race }
    if use.needsAnonymous && !v.seenAnonymousEvaluate then
      if v.definedTagOrder ≠ [] then
        .error ("dns rule[" ++ toString i ++ "]: response-based matching requires a preceding " ++
          "evaluate action without `tag`; use `match_response` with an evaluate tag to " ++
          "reference a tagged result")
      else .error ("dns rule[" ++ toString i ++
        "]: response-based matching requires a preceding evaluate action")
    else
      match v.undefinedTag use with
      | some tag => .error ("dns rule[" ++ toString i ++ "]: undefined evaluate tag: " ++ tag)
      | none =>
        Validation.define { v with
          anonymousReadSinceLast := v.anonymousReadSinceLast || use.needsAnonymous
          referencedTags := v.referencedTags ++ use.referencedTags } i rule.evaluateTag?

/-- The loop of `validateLegacyDNSModeDisabledRules`. -/
def validateRules (i : ℕ) (v : Validation) : List Rule → Except String Validation
  | [] => .ok v
  | rule :: rules =>
    match validateRule lookup i v rule with
    | .error err => .error err
    | .ok v => validateRules (i + 1) v rules

/-- `validateLegacyDNSModeDisabledRules`: the warnings, or the error that refuses the list. -/
def validateLegacyDNSModeDisabledRules (rules : List Rule) : Except String (List String) :=
  match validateRules lookup 0 {} rules with
  | .error err => .error err
  | .ok v => .ok (v.warnings ++ (v.definedTagOrder.filter fun tag =>
      !v.referencedTags.contains tag).map fun tag => "evaluate tag is never referenced: " ++ tag)

end Validate

/-! ### Accepted lists -/

/-- A default rule that is not bound to a response has no items that read one. -/
def Unread (binding : MatchResponse) (groups : ItemGroups) (_ : Option RuleSetItem) : Prop :=
  binding.enabled = false →
    groups.items.all (fun item => !item.readsResponse) = true ∧ groups.destinationIPCIDRItems = []

/-- What the walk relies on in an accepted list. -/
structure Validated (rules : List Rule) : Prop where
  unique : ∀ {i j : ℕ} {rule rule' : Rule} {tag : String}, rules[i]? = some rule →
    rules[j]? = some rule' → rule.evaluateTag? = some tag → rule'.evaluateTag? = some tag →
    tag ≠ "" → i = j
  defined : ∀ {i j : ℕ} {rule rule' : Rule} {tag : String}, rules[i]? = some rule →
    rules[j]? = some rule' → tag ∈ rule.tree.matchResponseTags → rule'.evaluateTag? = some tag →
    j < i
  unread : ∀ rule ∈ rules, rule.tree.ForallDefault Unread
  respond : ∀ rule ∈ rules, rule.isRespond = true → rule.tree.matchResponseTag = "" →
    rule.tree.matchResponseTags = []

open DNSRule Except List Rule

section Accepted

variable {lookup : RuleSet → Except String RuleSetMetadata}

theorem validateDefaultRule_eq_ok {bd : MatchResponse} {gs : ItemGroups}
    {item : Option RuleSetItem} {respond : Bool} {use : ResponseUse}
    (h : validateDefaultRule lookup bd gs item respond = .ok use) :
    Unread bd gs item ∧ ∀ tag, tag = bd.tag → tag ≠ "" → tag ∈ use.referencedTags := by
  unfold validateDefaultRule at h
  by_cases hi : ((gs.items.any PlainItem.readsResponse ||
      !gs.destinationIPCIDRItems.isEmpty) && !bd.enabled) = true
  · rw [if_pos hi] at h
    exact absurd h (by simp)
  rw [if_neg hi] at h
  split at h
  · exact absurd h (by simp)
  by_cases he : item.any RuleSetItem.ipCidrAcceptEmpty = true
  · rw [if_pos he] at h
    exact absurd h (by simp)
  rw [if_neg he] at h
  obtain rfl := ok.inj h
  refine ⟨fun hd => ?_, ?_⟩
  · simpa [hd] using hi
  · rintro tag rfl ht
    simp [bd.enabled_of_tag ht, ht]

mutual

theorem validateRuleTree_eq_ok {respond : Bool} {use : ResponseUse} : (rule : DNSRule) →
    validateRuleTree lookup respond rule = .ok use →
      rule.ForallDefault Unread ∧ (∀ tag ∈ rule.matchResponseTags, tag ∈ use.referencedTags) ∧
        (respond = true → rule.matchResponseTag = "" → rule.matchResponseTags = [])
  | .default binding groups item invert, h => by
    obtain ⟨hu, ht⟩ := validateDefaultRule_eq_ok h
    refine ⟨hu, fun tag hm => ?_, fun _ hn => by
      simpa [matchResponseTags, matchResponseTag] using hn⟩
    simp only [matchResponseTags] at hm
    split_ifs at hm with he
    · exact absurd hm not_mem_nil
    · obtain rfl := mem_singleton.mp hm
      exact ht _ rfl he
  | .logical mode rs invert, h => by
    rw [validateRuleTree] at h
    cases hrs : validateRuleTrees lookup 0 {} rs with
    | error err =>
      rw [hrs] at h
      exact absurd h (by simp)
    | ok subUse =>
      obtain ⟨hu, -, hta⟩ := validateRuleTrees_eq_ok rs hrs
      have hta : ∀ tag ∈ (matchResponseTagsOf rs).eraseDups,
          tag ∈ subUse.referencedTags := fun tag ht => hta tag (mem_eraseDups.mp ht)
      rw [hrs] at h
      simp only at h
      split_ifs at h with hr hn
      · obtain rfl := ok.inj h
        refine ⟨hu, hta, fun _ _ => eq_nil_iff_forall_not_mem.mpr fun tag ht => ?_⟩
        have hm := hta tag ht
        rw [not_not.mp hn] at hm
        exact absurd hm not_mem_nil
      · obtain rfl := ok.inj h
        exact ⟨hu, hta, fun h => absurd h hr⟩

theorem validateRuleTrees_eq_ok {i : ℕ} {use use' : ResponseUse} : (rs : List DNSRule) →
    validateRuleTrees lookup i use rs = .ok use' →
      RuleTree.ForallDefaults Unread rs ∧
        (∀ tag ∈ use.referencedTags, tag ∈ use'.referencedTags) ∧
        ∀ tag ∈ matchResponseTagsOf rs, tag ∈ use'.referencedTags
  | [], h => by
    obtain rfl := ok.inj h
    exact ⟨trivial, fun _ ht => ht, fun _ ht => absurd ht not_mem_nil⟩
  | rule :: rs, h => by
    rw [validateRuleTrees] at h
    cases hr : validateRuleTree lookup false rule with
    | error err =>
      rw [hr] at h
      exact absurd h (by simp)
    | ok subUse =>
      rw [hr] at h
      obtain ⟨hu, hta, -⟩ := validateRuleTree_eq_ok rule hr
      obtain ⟨hu', hk, ht'⟩ := validateRuleTrees_eq_ok rs h
      refine ⟨⟨hu, hu'⟩, fun tag ht => hk tag (mem_append_left _ ht), ?_⟩
      intro tag ht
      rcases mem_append.mp ht with ht | ht
      · exact hk tag (mem_append_right _ (hta tag ht))
      · exact ht' tag ht

end

/-- The tag that a rule defines. -/
def Rule.definedTags (rule : Rule) : List String :=
  match rule.evaluateTag? with
  | some tag => if tag = "" then [] else [tag]
  | none => []

variable {rule : Rule}

theorem Rule.mem_definedTags {tag : String} :
    tag ∈ rule.definedTags ↔ rule.evaluateTag? = some tag ∧ tag ≠ "" := by
  unfold definedTags
  cases rule.evaluateTag? with
  | none => simp
  | some x =>
    by_cases hx : x = ""
    · simp only [hx, if_true, not_mem_nil, Option.some.injEq, false_iff]
      rintro ⟨rfl, hne⟩
      exact hne rfl
    · simp only [hx, if_false, mem_singleton, Option.some.injEq]
      constructor
      · rintro rfl
        exact ⟨rfl, hx⟩
      · exact fun h => h.1.symm

theorem Validation.define_eq_ok {v v' : Validation} {i : ℕ}
    (h : v.define i rule.evaluateTag? = .ok v') :
    v'.definedTagOrder = v.definedTagOrder ++ rule.definedTags ∧
      ∀ tag ∈ rule.definedTags, tag ∉ v.definedTagOrder := by
  unfold definedTags
  cases ht : rule.evaluateTag? with
  | none =>
    rw [ht] at h
    obtain rfl := ok.inj h
    simp
  | some tag =>
    rw [ht, Validation.define] at h
    by_cases he : tag = ""
    · rw [if_pos he] at h
      obtain rfl := ok.inj h
      simp [he]
    · rw [if_neg he] at h
      split_ifs at h with hm
      obtain rfl := ok.inj h
      simpa [he] using hm

theorem validateRule_eq_ok {i : ℕ} {v v' : Validation} (h : validateRule lookup i v rule = .ok v') :
    (∃ use, validateRuleTree lookup rule.isRespond rule.tree = .ok use ∧
      ∀ tag ∈ use.referencedTags, tag ∈ v.definedTagOrder) ∧
    v'.definedTagOrder = v.definedTagOrder ++ rule.definedTags ∧
      ∀ tag ∈ rule.definedTags, tag ∉ v.definedTagOrder := by
  unfold validateRule at h
  cases ht : validateRuleTree lookup rule.isRespond rule.tree with
  | error err =>
    rw [ht] at h
    exact absurd h (by simp)
  | ok use =>
    rw [ht] at h
    simp only at h
    generalize hw : (if (rule.isSpeculative && !v.seenRace) = true then
      { v with warnings := v.warnings ++ ["dns rule[" ++ toString i ++
          "]: `speculative` has no effect without a preceding `race` rule"] }
      else v) = w at h
    have hd : w.definedTagOrder = v.definedTagOrder := by
      rw [← hw]
      split_ifs <;> rfl
    by_cases ha : (use.needsAnonymous && !w.seenAnonymousEvaluate) = true
    · rw [if_pos ha] at h
      split_ifs at h
    rw [if_neg ha] at h
    split at h
    · exact absurd h (by simp)
    · rename_i hu
      refine ⟨⟨use, rfl, fun tag hta => ?_⟩, ?_⟩
      · have hf := find?_eq_none.mp hu tag hta
        simpa [hd] using hf
      · simpa [hd] using Validation.define_eq_ok h

/-- What the loop checks: rule `k` of the list is accepted, uses tags that are defined before it,
and defines new ones. -/
theorem validateRules_eq_ok : ∀ (rs : List Rule) (i : ℕ) (v v' : Validation),
    v.definedTagOrder.Nodup → validateRules lookup i v rs = .ok v' →
      (v.definedTagOrder ++ rs.flatMap definedTags).Nodup ∧
        ∀ k rule, rs[k]? = some rule →
          ∃ use, validateRuleTree lookup rule.isRespond rule.tree = .ok use ∧
            ∀ tag ∈ use.referencedTags,
              tag ∈ v.definedTagOrder ++ (rs.take k).flatMap definedTags
  | [], _, v, _, hnd, _ => ⟨by simpa using hnd, by simp⟩
  | rule :: rs, i, v, v', hnd, h => by
    rw [validateRules] at h
    cases hr : validateRule lookup i v rule with
    | error err =>
      rw [hr] at h
      exact absurd h (by simp)
    | ok w =>
      rw [hr] at h
      obtain ⟨⟨use, ht, hu⟩, hd, hn⟩ := validateRule_eq_ok hr
      have hnd' : w.definedTagOrder.Nodup := by
        rw [hd, nodup_append]
        refine ⟨hnd, ?_, ?_⟩
        · unfold definedTags
          cases rule.evaluateTag? with
          | none => simp
          | some tag =>
            simp only
            split_ifs <;> simp
        · rintro a ha b hb rfl
          exact hn a hb ha
      obtain ⟨hal, hrs⟩ := validateRules_eq_ok rs (i + 1) w v' hnd' h
      rw [hd, append_assoc] at hal
      refine ⟨by simpa using hal, fun k rule' hk => ?_⟩
      cases k with
      | zero =>
        obtain rfl : rule = rule' := by simpa using hk
        exact ⟨use, ht, fun tag hta => mem_append_left _ (hu tag hta)⟩
      | succ k =>
        obtain ⟨use', ht', hu'⟩ := hrs k rule' (by simpa using hk)
        refine ⟨use', ht', fun tag hta => ?_⟩
        have hm := hu' tag hta
        rw [hd, append_assoc] at hm
        simpa using hm

private theorem eq_of_mem_of_nodup_flatMap {rs : List Rule}
    (h : (rs.flatMap definedTags).Nodup) {i j : ℕ} {rule r' : Rule} {tag : String}
    (hi : rs[i]? = some rule) (hj : rs[j]? = some r') (ht : tag ∈ rule.definedTags)
    (ht' : tag ∈ r'.definedTags) : i = j := by
  obtain ⟨hil, rfl⟩ := List.getElem?_eq_some_iff.mp hi
  obtain ⟨hjl, rfl⟩ := List.getElem?_eq_some_iff.mp hj
  have hpw := pairwise_iff_getElem.mp (nodup_flatMap.mp h).2
  rcases Nat.lt_trichotomy i j with hlt | heq | hgt
  · exact absurd ht' (hpw i j hil hjl hlt ht)
  · exact heq
  · exact absurd ht (hpw j i hjl hil hgt ht')

theorem Validated.of_validate {rules : List Rule} {warnings : List String}
    (h : validateLegacyDNSModeDisabledRules lookup rules = .ok warnings) : Validated rules := by
  unfold validateLegacyDNSModeDisabledRules at h
  cases hrs : validateRules lookup 0 {} rules with
  | error err =>
    rw [hrs] at h
    exact absurd h (by simp)
  | ok v =>
    obtain ⟨hnd, hus⟩ := validateRules_eq_ok rules 0 {} v nodup_nil hrs
    simp only [nil_append] at hnd hus
    have hu : ∀ {i j : ℕ} {rule r' : Rule} {tag : String}, rules[i]? = some rule →
        rules[j]? = some r' → rule.evaluateTag? = some tag → r'.evaluateTag? = some tag →
        tag ≠ "" → i = j := fun hi hj hta ht' hne =>
      eq_of_mem_of_nodup_flatMap hnd hi hj (mem_definedTags.mpr ⟨hta, hne⟩)
        (mem_definedTags.mpr ⟨ht', hne⟩)
    refine ⟨hu, ?_, fun rule hr => ?_, fun rule hr => ?_⟩
    · intro i j rule r' tag hi hj hta ht'
      obtain ⟨use, ht, hdf⟩ := hus i rule hi
      have hm := hdf tag ((validateRuleTree_eq_ok rule.tree ht).2.1 tag hta)
      obtain ⟨definer, hd, hde⟩ := mem_flatMap.mp hm
      obtain ⟨k, hk⟩ := mem_iff_getElem?.mp hd
      obtain ⟨he, hne⟩ := mem_definedTags.mp hde
      have hki : k < i := by
        have hlt := (List.getElem?_eq_some_iff.mp hk).1
        rw [length_take] at hlt
        omega
      rw [getElem?_take_of_lt hki] at hk
      rw [hu hj hk ht' he hne]
      exact hki
    · obtain ⟨i, hi⟩ := mem_iff_getElem?.mp hr
      obtain ⟨use, ht, -⟩ := hus i rule hi
      exact (validateRuleTree_eq_ok rule.tree ht).1
    · obtain ⟨i, hi⟩ := mem_iff_getElem?.mp hr
      obtain ⟨use, ht, -⟩ := hus i rule hi
      exact (validateRuleTree_eq_ok rule.tree ht).2.2

end Accepted

end SingBox.DNS.Walk
