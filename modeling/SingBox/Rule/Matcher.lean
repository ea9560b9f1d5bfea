import SingBox.Rule.MatchState

/-!
# Matching a rule

A rule is matched against the metadata object, which it also writes: the flags that say how IP
items are compared, and the deferred groups. A rule is therefore a function from a metadata object
to a Boolean and the metadata object it leaves behind. The functions below are the ones of
`rule_abstract.go`, `rule_item_rule_set.go` and `rule_dns.go`; loops are recursions over the list
they range over, with the loop's variables as arguments.
-/

namespace SingBox.Rule

open SingBox.Net SingBox.Adapter

/-- What `Match` does: the answer, and the metadata object afterwards. -/
abbrev Matcher := InboundContext → Bool × InboundContext

/-! ### The items of a default rule -/

namespace ItemGroups

/-- `abstractDefaultRule.destinationIPCIDRMatchesSource`. -/
def destinationIPCIDRMatchesSource (g : ItemGroups) (c : InboundContext) : Bool :=
  c.ipCIDRMatchSource && !g.destinationIPCIDRItems.isEmpty

/-- `abstractDefaultRule.destinationIPCIDRMatchesDestination`. -/
def destinationIPCIDRMatchesDestination (g : ItemGroups) (c : InboundContext) : Bool :=
  !c.ignoreDestinationIPCIDRMatch && !c.ipCIDRMatchSource && !g.destinationIPCIDRItems.isEmpty

/-- The masks of `abstractDefaultRule.evaluateGroups`. -/
def groupMatch (g : ItemGroups) (c : InboundContext) : RuleGroupMatch :=
  let groups : RuleGroupMatch := {}
  let groups := groups.add (!g.sourceAddressItems.isEmpty)
    (g.sourceAddressItems.any fun item => item.isMatch c) .sourceAddress
  let groups := groups.add (g.destinationIPCIDRMatchesSource c)
    (!has groups.satisfied Group.sourceAddress.mask &&
      g.destinationIPCIDRItems.any fun item => item.isMatch c) .sourceAddress
  let groups := groups.add (!g.sourcePortItems.isEmpty)
    (g.sourcePortItems.any fun item => item.isMatch true c) .sourcePort
  let groups := groups.add (!g.destinationAddressItems.isEmpty)
    (g.destinationAddressItems.any fun item => item.isMatch c) .destinationAddress
  let groups := groups.add (g.destinationIPCIDRMatchesDestination c)
    (!has groups.satisfied Group.destinationAddress.mask &&
      g.destinationIPCIDRItems.any fun item => item.isMatch c) .destinationAddress
  groups.add (!g.destinationPortItems.isEmpty)
    (g.destinationPortItems.any fun item => item.isMatch false c) .destinationPort

/-- Whether `evaluateGroups` leaves the destination address group to the DNS response. -/
def defersDestination (g : ItemGroups) (c : InboundContext) : Bool :=
  c.ignoreDestinationIPCIDRMatch && !c.ipCIDRMatchSource && !g.destinationIPCIDRItems.isEmpty &&
    g.destinationAddressItems.isEmpty

/-- `abstractDefaultRule.evaluateGroups`. -/
def evaluateGroups (g : ItemGroups) (c : InboundContext) : RuleGroupMatch × InboundContext :=
  (g.groupMatch c,
    if g.defersDestination c then
      { c with deferredIPCIDRMatchGroups :=
          c.deferredIPCIDRMatchGroups ||| Group.destinationAddress.mask }
    else c)

/-- The loop over `items`. -/
def plainItemsMatch (g : ItemGroups) (c : InboundContext) : Bool :=
  g.items.all fun item => item.isMatch c

/-- `abstractDefaultRule.evaluateForMerge`. -/
def evaluateForMerge (g : ItemGroups) (c : InboundContext) :
    (RuleGroupMatch × Bool) × InboundContext :=
  let (groups, c) := g.evaluateGroups c
  if g.plainItemsMatch c then ((groups, true), c) else (({}, false), c)

end ItemGroups

/-- A reference to rule-sets, seen from the default rule that holds it:
`RuleSetItem.matchWithOuterGroups`. -/
abbrev OuterMatcher := RuleGroupMatch → Matcher

/-- `abstractDefaultRule.matchInner`. -/
def matchInner (g : ItemGroups) (ruleSetItem : Option OuterMatcher) : Matcher := fun c =>
  let (groups, c) := g.evaluateGroups c
  if !g.plainItemsMatch c then (false, c)
  else
    let (matched, c) := match ruleSetItem with
      | some item => item groups c
      | none => (groups.done, c)
    (matched,
      if matched then
        { c with deferredIPCIDRMatchGroups := c.deferredIPCIDRMatchGroups &&& ~~~groups.satisfied }
      else c)

/-- `abstractDefaultRule.Match`: a rule without items matches, inverted or not. -/
def abstractDefaultRuleMatch (g : ItemGroups) (ruleSetItem : Option OuterMatcher) (invert : Bool) :
    Matcher := fun c =>
  -- `len(r.allItems) == 0`
  if g.length = 0 ∧ ruleSetItem.isNone then (true, c)
  else
    let (matched, c) := matchInner g ruleSetItem c
    if invert then
      if !matched then (true, { c with deferredIPCIDRMatchGroups := 0 })
      else (decide (c.deferredIPCIDRMatchGroups ≠ 0), c)
    else (matched, c)

/-! ### Logical rules -/

/-- `C.LogicalTypeAnd` and `C.LogicalTypeOr`. -/
inductive LogicalType where
  | and
  | or
deriving DecidableEq, Repr

/-- The loop of `abstractLogicalRule.Match` for `and`; `deferredGroups` is the loop's variable. -/
def matchAllRules : List Matcher → BitVec 8 → InboundContext → (Bool × BitVec 8) × InboundContext
  | [], deferredGroups, c => ((true, deferredGroups), c)
  | rule :: rules, deferredGroups, c =>
    let (matched, c) := rule c.resetRuleCache
    if !matched then ((false, 0), c)
    else matchAllRules rules (deferredGroups ||| c.deferredIPCIDRMatchGroups) c

/-- The loop of `abstractLogicalRule.Match` for `or`; `matched` and `deferredGroups` are the loop's
variables. -/
def matchAnyRule : List Matcher → Bool → BitVec 8 → InboundContext →
    (Bool × BitVec 8) × InboundContext
  | [], matched, deferredGroups, c => ((matched, deferredGroups), c)
  | rule :: rules, matched, deferredGroups, c =>
    let (ruleMatched, c) := rule c.resetRuleCache
    if ruleMatched then
      if c.deferredIPCIDRMatchGroups = 0 then ((true, 0), c)
      else matchAnyRule rules true (deferredGroups ||| c.deferredIPCIDRMatchGroups) c
    else matchAnyRule rules matched deferredGroups c

/-- The loop of `abstractLogicalRule.Match`. -/
def matchRules (mode : LogicalType) (rules : List Matcher) (c : InboundContext) :
    (Bool × BitVec 8) × InboundContext :=
  match mode with
  | .and => matchAllRules rules 0 c
  | .or => matchAnyRule rules false 0 c

/-- `abstractLogicalRule.Match`. -/
def abstractLogicalRuleMatch (mode : LogicalType) (rules : List Matcher) (invert : Bool) :
    Matcher := fun c =>
  let snapshot := snapshotRuleMatch c
  let ((matched, deferredGroups), c) := matchRules mode rules c
  let c := snapshot.restore c
  let c := if matched then
      { c with deferredIPCIDRMatchGroups := c.deferredIPCIDRMatchGroups ||| deferredGroups }
    else c
  if invert then
    if !matched then (true, c) else (decide (deferredGroups ≠ 0), c)
  else (matched, c)

/-! ### Rule-sets -/

theorem PlainItem.readsResponse_nil :
    ∀ item ∈ ([] : List PlainItem), item.readsResponse = false := by
  simp

/-- The items that `NewDefaultHeadlessRule` builds: of the destination IP items only IP sets. -/
structure HeadlessGroups where
  items : List PlainItem := []
  sourceAddressItems : List SourceAddressItem := []
  sourcePortItems : List PortItem := []
  destinationAddressItems : List DomainItem := []
  destinationIPSets : List (Addr → Bool) := []
  destinationPortItems : List PortItem := []
  items_readsResponse : ∀ item ∈ items, item.readsResponse = false := by
    first | exact PlainItem.readsResponse_nil | simp

/-- The item lists of a headless rule. -/
def HeadlessGroups.toItemGroups (g : HeadlessGroups) : ItemGroups where
  items := g.items
  sourceAddressItems := g.sourceAddressItems
  sourcePortItems := g.sourcePortItems
  destinationAddressItems := g.destinationAddressItems
  destinationIPCIDRItems := g.destinationIPSets.map AddressItem.ipCIDR
  destinationPortItems := g.destinationPortItems

/-- `DefaultHeadlessRule` and `LogicalHeadlessRule`. -/
inductive HeadlessRule where
  | default (groups : HeadlessGroups) (invert : Bool)
  | logical (mode : LogicalType) (rules : List HeadlessRule) (invert : Bool)

mutual

/-- `HeadlessRule.Match`. -/
def HeadlessRule.matcher : HeadlessRule → Matcher
  | .default groups invert => abstractDefaultRuleMatch groups.toItemGroups none invert
  | .logical mode rules invert =>
    abstractLogicalRuleMatch mode (HeadlessRule.matchers rules) invert

/-- The rules of a list, as matchers. -/
def HeadlessRule.matchers : List HeadlessRule → List Matcher
  | [] => []
  | rule :: rules => HeadlessRule.matcher rule :: HeadlessRule.matchers rules

end

/-- The rules of a `LocalRuleSet` or `RemoteRuleSet`. -/
abbrev RuleSet := List HeadlessRule

/-- `mergeableRuleIn`: a rule-set of one default rule that is not inverted. -/
def mergeableRuleIn : RuleSet → Option ItemGroups
  | [.default groups invert] => if invert then none else some groups.toItemGroups
  | _ => none

/-- The loop of `matchAnyHeadlessRule`; `matched` and `deferredGroups` are the loop's variables,
`snapshot` is taken before it. -/
def matchAnyHeadlessLoop (snapshot : RuleMatchSnapshot) :
    List Matcher → Bool → BitVec 8 → InboundContext → Bool × InboundContext
  | [], matched, deferredGroups, c =>
    let c := snapshot.restore c
    (matched,
      if matched then
        { c with deferredIPCIDRMatchGroups := c.deferredIPCIDRMatchGroups ||| deferredGroups }
      else c)
  | rule :: rules, matched, deferredGroups, c =>
    let (ruleMatched, c) := rule c.resetRuleMatchCache
    if ruleMatched then
      if c.deferredIPCIDRMatchGroups = 0 then (true, snapshot.restore c)
      else matchAnyHeadlessLoop snapshot rules true
        (deferredGroups ||| c.deferredIPCIDRMatchGroups) c
    else matchAnyHeadlessLoop snapshot rules matched deferredGroups c

/-- `matchAnyHeadlessRule`, which is `Match` of a rule-set. -/
def matchAnyHeadlessRule (rules : RuleSet) : Matcher := fun c =>
  matchAnyHeadlessLoop (snapshotRuleMatch c) (HeadlessRule.matchers rules) false 0 c

/-- `RuleSetItem`, started: the referenced rule-sets are in `setList`. -/
structure RuleSetItem where
  setList : List RuleSet
  ipCidrMatchSource : Bool := false
  ipCidrAcceptEmpty : Bool := false

namespace RuleSetItem

/-- `RuleSetItem.prepareNestedMatch`. -/
def prepareNestedMatch (item : RuleSetItem) (c : InboundContext) : InboundContext :=
  { c.resetRuleMatchCache with
    ipCIDRMatchSource := item.ipCidrMatchSource
    ipCIDRAcceptEmpty := item.ipCidrAcceptEmpty }

/-- The loop of `RuleSetItem.matchWithOuterGroups`; `matched` and `deferredGroups` are the loop's
variables, `snapshot` is taken before it. -/
def matchSets (item : RuleSetItem) (snapshot : RuleMatchSnapshot) (outerGroups : RuleGroupMatch) :
    List RuleSet → Bool → BitVec 8 → InboundContext → Bool × InboundContext
  | [], matched, deferredGroups, c =>
    let c := snapshot.restore c
    (matched,
      if matched then
        { c with deferredIPCIDRMatchGroups := c.deferredIPCIDRMatchGroups ||| deferredGroups }
      else c)
  | ruleSet :: ruleSets, matched, deferredGroups, c =>
    let c := item.prepareNestedMatch c
    match mergeableRuleIn ruleSet with
    | some branch =>
      let ((branchGroups, branchMatched), c) := branch.evaluateForMerge c
      let merged := outerGroups.mergeWith branchGroups
      if branchMatched && merged.done then
        let branchDeferredGroups := c.deferredIPCIDRMatchGroups &&& ~~~merged.satisfied
        if branchDeferredGroups = 0 then
          let c := snapshot.restore c
          (true,
            { c with
              deferredIPCIDRMatchGroups := c.deferredIPCIDRMatchGroups &&& ~~~merged.satisfied })
        else matchSets item snapshot outerGroups ruleSets true
          (deferredGroups ||| branchDeferredGroups) c
      else matchSets item snapshot outerGroups ruleSets matched deferredGroups c
    | none =>
      if outerGroups.done then
        let (ruleSetMatched, c) := matchAnyHeadlessRule ruleSet c
        if ruleSetMatched then
          if c.deferredIPCIDRMatchGroups = 0 then (true, snapshot.restore c)
          else matchSets item snapshot outerGroups ruleSets true
            (deferredGroups ||| c.deferredIPCIDRMatchGroups) c
        else matchSets item snapshot outerGroups ruleSets matched deferredGroups c
      else matchSets item snapshot outerGroups ruleSets matched deferredGroups c

/-- `RuleSetItem.matchWithOuterGroups`. -/
def matchWithOuterGroups (item : RuleSetItem) : OuterMatcher := fun outerGroups c =>
  item.matchSets (snapshotRuleMatch c) outerGroups item.setList false 0 c

end RuleSetItem

/-! ### Route and DNS rules -/

/-- The rule trees of the router (`β = Unit`) and of the DNS router (`β = MatchResponse`). -/
inductive RuleTree (β : Type) where
  | default (binding : β) (groups : ItemGroups) (ruleSetItem : Option RuleSetItem) (invert : Bool)
  | logical (mode : LogicalType) (rules : List (RuleTree β)) (invert : Bool)

section Tree

variable {β : Type} (wrap : β → Bool → Matcher → Matcher)

mutual

/-- `Match` of a tree; `wrap` is what the default rules of this kind of tree add to
`abstractDefaultRule.Match`. -/
def RuleTree.matcherWith : RuleTree β → Matcher
  | .default binding groups ruleSetItem invert =>
    wrap binding invert
      (abstractDefaultRuleMatch groups (ruleSetItem.map RuleSetItem.matchWithOuterGroups) invert)
  | .logical mode rules invert => abstractLogicalRuleMatch mode (RuleTree.matchersWith rules) invert

/-- The rules of a list, as matchers. -/
def RuleTree.matchersWith : List (RuleTree β) → List Matcher
  | [] => []
  | rule :: rules => RuleTree.matcherWith rule :: RuleTree.matchersWith rules

end

end Tree

mutual

/-- A property of every default rule of a tree. -/
def RuleTree.ForallDefault {β : Type} (P : β → ItemGroups → Option RuleSetItem → Prop) :
    RuleTree β → Prop
  | .default binding groups ruleSetItem _ => P binding groups ruleSetItem
  | .logical _ rules _ => RuleTree.ForallDefaults P rules

/-- A property of every default rule of the trees of a list. -/
def RuleTree.ForallDefaults {β : Type} (P : β → ItemGroups → Option RuleSetItem → Prop) :
    List (RuleTree β) → Prop
  | [] => True
  | rule :: rules => RuleTree.ForallDefault P rule ∧ RuleTree.ForallDefaults P rules

end

/-- Route rules: `DefaultRule` and `LogicalRule`. -/
abbrev RouteRule := RuleTree Unit

/-- `Match` of a route rule. -/
def RouteRule.matcher (rule : RouteRule) : Matcher :=
  rule.matcherWith fun _ _ m => m

/-- The fields `matchResponse` and `matchResponseTag` of `DefaultDNSRule`; `UnmarshalJSON` of
`DNSRuleMatchResponse` enables what it gives a tag. -/
structure MatchResponse where
  enabled : Bool := false
  tag : String := ""
  enabled_of_tag : tag ≠ "" → enabled = true := by decide
deriving DecidableEq, Repr

/-- DNS rules: `DefaultDNSRule` and `LogicalDNSRule`. -/
abbrev DNSRule := RuleTree MatchResponse

/-- `DefaultDNSRule.matchForMatch`: a rule that matches a response works on a copy of the metadata,
and is a plain miss while there is no response. -/
def matchForMatch (binding : MatchResponse) (invert : Bool) (m : Matcher) : Matcher := fun c =>
  if binding.enabled then
    let response := if binding.tag ≠ "" then c.namedDNSResponses binding.tag else c.dnsResponse
    match response with
    | none => (invert, c)
    | some response =>
      ((m { c with
            dnsResponse := some response
            destinationAddressMatchFromResponse := true }).1, c)
  else m c

namespace DNSRule

/-- `Match` of a DNS rule. -/
def matcher (rule : DNSRule) : Matcher := rule.matcherWith matchForMatch

end DNSRule

/-! ### The default rules of a tree -/

mutual

theorem RuleTree.forallDefault_true {β : Type} : (rule : RuleTree β) →
    rule.ForallDefault fun _ _ _ => True
  | .default _ _ _ _ => trivial
  | .logical _ rules _ => RuleTree.forallDefaults_true rules

theorem RuleTree.forallDefaults_true {β : Type} : (rules : List (RuleTree β)) →
    RuleTree.ForallDefaults (fun _ _ _ => True) rules
  | [] => trivial
  | rule :: rules => ⟨RuleTree.forallDefault_true rule, RuleTree.forallDefaults_true rules⟩

end

section Forall

variable {β : Type} {P Q : β → ItemGroups → Option RuleSetItem → Prop}

mutual

theorem RuleTree.ForallDefault.mono
    (h : ∀ binding groups item, P binding groups item → Q binding groups item) :
    (rule : RuleTree β) → rule.ForallDefault P → rule.ForallDefault Q
  | .default _ _ _ _, hr => h _ _ _ hr
  | .logical _ rules _, hrs => RuleTree.ForallDefaults.mono h rules hrs

theorem RuleTree.ForallDefaults.mono
    (h : ∀ binding groups item, P binding groups item → Q binding groups item) :
    (rules : List (RuleTree β)) → RuleTree.ForallDefaults P rules → RuleTree.ForallDefaults Q rules
  | [], _ => trivial
  | rule :: rules, hrs =>
    ⟨RuleTree.ForallDefault.mono h rule hrs.1, RuleTree.ForallDefaults.mono h rules hrs.2⟩

end

end Forall

end SingBox.Rule
