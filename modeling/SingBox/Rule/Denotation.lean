import SingBox.Rule.Matcher

/-!
# The meaning of a rule tree

Matching threads a mutable metadata object through the tree. This file gives the value that a
rule tree has without any such state, and proves that `Match` computes it: for route and headless
rules, when destination IP items are not ignored, starting from a clean rule cache.

A default rule without items holds. Otherwise all its plain items match, and

* without a rule-set, every group that has items has a matching item;
* with rule-sets, some referenced set holds. A set of one default rule that is not inverted is
  merged: its plain items match, and every group that has items on either side has a matching item
  on either side. Any other set needs the groups of the outer rule to be satisfied on their own
  and one of its rules to hold.

An IP item belongs to the destination address group, or to the source address group while the
enclosing reference says `rule_set_ip_cidr_match_source`; `abstractLogicalRule.Match` resets that
flag for the rules below it, and so does the definition here. Each level is inverted on demand.
-/

namespace SingBox.Rule

open SingBox.Net SingBox.Adapter HeadlessRule RuleTree RuleGroupMatch

/-! ### Groups -/

namespace ItemGroups

variable (g : ItemGroups) (c : InboundContext)

/-- Whether a group has items, when destination IP items are not ignored. -/
def requires : Group → Bool
  | .sourceAddress =>
    !g.sourceAddressItems.isEmpty || (c.ipCIDRMatchSource && !g.destinationIPCIDRItems.isEmpty)
  | .sourcePort => !g.sourcePortItems.isEmpty
  | .destinationAddress =>
    !g.destinationAddressItems.isEmpty ||
      (!c.ipCIDRMatchSource && !g.destinationIPCIDRItems.isEmpty)
  | .destinationPort => !g.destinationPortItems.isEmpty

/-- Whether an item of a group matches. -/
def satisfies : Group → Bool
  | .sourceAddress =>
    (g.sourceAddressItems.any fun item => item.isMatch c) ||
      (c.ipCIDRMatchSource && g.destinationIPCIDRItems.any fun item => item.isMatch c)
  | .sourcePort => g.sourcePortItems.any fun item => item.isMatch true c
  | .destinationAddress =>
    (g.destinationAddressItems.any fun item => item.isMatch c) ||
      (!c.ipCIDRMatchSource && g.destinationIPCIDRItems.any fun item => item.isMatch c)
  | .destinationPort => g.destinationPortItems.any fun item => item.isMatch false c

/-- Every group that has items has a matching item. -/
def groupsHold : Bool :=
  decide (g.requires c .sourceAddress → g.satisfies c .sourceAddress) &&
    decide (g.requires c .sourcePort → g.satisfies c .sourcePort) &&
    decide (g.requires c .destinationAddress → g.satisfies c .destinationAddress) &&
    decide (g.requires c .destinationPort → g.satisfies c .destinationPort)

theorem groupsHold_iff :
    g.groupsHold c = true ↔ ∀ G, g.requires c G = true → g.satisfies c G = true := by
  simp only [groupsHold, Bool.and_eq_true, decide_eq_true_eq]
  constructor
  · rintro ⟨⟨⟨h1, h2⟩, h3⟩, h4⟩ G
    cases G <;> assumption
  · intro h
    exact ⟨⟨⟨h _, h _⟩, h _⟩, h _⟩

/-- The items that count while destination IP items may be ignored. -/
def visible : ItemGroups :=
  if c.ignoreDestinationIPCIDRMatch && !c.ipCIDRMatchSource then
    { g with destinationIPCIDRItems := [] }
  else g

theorem any_eq_nonempty_and_any {α : Type} (l : List α) (p : α → Bool) :
    (!l.isEmpty && l.any p) = l.any p := by
  cases l <;> rfl

theorem or_nonempty_and_any {α : Type} (l : List α) (p : α → Bool) (b : Bool) :
    (b || (!l.isEmpty && (!b && l.any p))) = (b || l.any p) := by
  cases b <;> cases l <;> simp

/-- The masks of `evaluateGroups` are those of the groups that have items and a matching one. -/
theorem groupMatch_eq : g.groupMatch c =
    ofGroups ((g.visible c).requires c) ((g.visible c).satisfies c) := by
  have h0 : ({} : RuleGroupMatch) = .ofGroups (fun _ => false) (fun _ => false) := rfl
  simp only [groupMatch, h0, add_ofGroups]
  simp only [ofGroups, has_maskOf]
  congr 2
  · funext G
    cases G <;> simp only [visible, requires, destinationIPCIDRMatchesSource,
      destinationIPCIDRMatchesDestination] <;>
      cases c.ignoreDestinationIPCIDRMatch <;> cases c.ipCIDRMatchSource <;> simp
  · funext G
    cases G <;> simp only [visible, satisfies, destinationIPCIDRMatchesSource,
      destinationIPCIDRMatchesDestination, any_eq_nonempty_and_any] <;>
      cases c.ignoreDestinationIPCIDRMatch <;> cases c.ipCIDRMatchSource <;>
      simp [or_nonempty_and_any]

theorem visible_of_not_ignore (h : c.ignoreDestinationIPCIDRMatch = false) : g.visible c = g := by
  simp [visible, h]

end ItemGroups

/-! ### The value of a tree -/

/-- The groups of a default rule and of the rule it is merged with: every group that has items on
either side has a matching item on either side. -/
def mergedGroupsHold (outer : ItemGroups) (c : InboundContext) (inner : ItemGroups)
    (nested : InboundContext) : Bool :=
  decide (∀ G ∈ [Group.sourceAddress, .sourcePort, .destinationAddress, .destinationPort],
    (outer.requires c G || inner.requires nested G) = true →
      (outer.satisfies c G || inner.satisfies nested G) = true)

/-- The value of a default rule that has items, before it is inverted; `ruleSets` is the value of
its rule-set reference. -/
def innerDenote (g : ItemGroups) (ruleSets : Option (InboundContext → Bool)) (c : InboundContext) :
    Bool :=
  g.plainItemsMatch c && match ruleSets with
    | none => g.groupsHold c
    | some value => value c

/-- The value of a default rule. -/
def defaultDenote (g : ItemGroups) (ruleSets : Option (InboundContext → Bool)) (invert : Bool)
    (c : InboundContext) : Bool :=
  if g.length = 0 ∧ ruleSets.isNone then true else xor (innerDenote g ruleSets c) invert

/-- The metadata that the rules of a logical rule are matched against: IP items are compared with
the destination. -/
def below (c : InboundContext) : InboundContext :=
  { c with ipCIDRMatchSource := false, ipCIDRAcceptEmpty := false }

/-- The conjunction or disjunction of the rules of a logical rule. -/
def rulesDenote (mode : LogicalType) (rules : List (InboundContext → Bool)) (c : InboundContext) :
    Bool :=
  match mode with
  | .and => rules.all fun rule => rule (below c)
  | .or => rules.any fun rule => rule (below c)

/-- The value of a logical rule. -/
def logicalDenote (mode : LogicalType) (rules : List (InboundContext → Bool)) (invert : Bool)
    (c : InboundContext) : Bool :=
  xor (rulesDenote mode rules c) invert

mutual

/-- The value of a headless rule. -/
def HeadlessRule.denote : HeadlessRule → InboundContext → Bool
  | .default groups invert => defaultDenote groups.toItemGroups none invert
  | .logical mode rules invert => logicalDenote mode (HeadlessRule.denotes rules) invert

/-- The values of the rules of a list. -/
def HeadlessRule.denotes : List HeadlessRule → List (InboundContext → Bool)
  | [] => []
  | rule :: rules => HeadlessRule.denote rule :: HeadlessRule.denotes rules

end

namespace RuleSetItem

variable (item : RuleSetItem) (outer : ItemGroups) (c : InboundContext)

/-- The metadata that the rules of a referenced set are matched against. -/
def nested : InboundContext :=
  { c with
    ipCIDRMatchSource := item.ipCidrMatchSource
    ipCIDRAcceptEmpty := item.ipCidrAcceptEmpty }

/-- The value of one referenced set, for a default rule with the items `outer`. -/
def setDenote (ruleSet : RuleSet) : Bool :=
  match mergeableRuleIn ruleSet with
  | some inner =>
    inner.plainItemsMatch (item.nested c) && mergedGroupsHold outer c inner (item.nested c)
  | none =>
    outer.groupsHold c && (HeadlessRule.denotes ruleSet).any fun rule => rule (item.nested c)

/-- The value of a reference to rule-sets: some referenced set holds. -/
def denote : Bool := item.setList.any fun ruleSet => item.setDenote outer c ruleSet

end RuleSetItem

mutual

/-- The value of a route or DNS rule tree. -/
def RuleTree.denote {β : Type} : RuleTree β → InboundContext → Bool
  | .default _ groups ruleSetItem invert =>
    defaultDenote groups (ruleSetItem.map fun item => item.denote groups) invert
  | .logical mode rules invert => logicalDenote mode (RuleTree.denotes rules) invert

/-- The values of the rules of a list. -/
def RuleTree.denotes {β : Type} : List (RuleTree β) → List (InboundContext → Bool)
  | [] => []
  | rule :: rules => RuleTree.denote rule :: RuleTree.denotes rules

end

/-! ### Matchers that compute a value -/

/-- A clean metadata object: destination IP items count, and nothing is cached or deferred. -/
structure Clean (c : InboundContext) : Prop where
  ignore : c.ignoreDestinationIPCIDRMatch = false
  reset : c.resetRuleMatchCache = c

/-- A matcher *computes* a value when, on a clean metadata object, it returns the value there and
leaves the object as it was. -/
def Matcher.Computes (m : Matcher) (value : InboundContext → Bool) : Prop :=
  ∀ c, Clean c → m c = (value c, c)

namespace Clean

variable {c : InboundContext} (h : Clean c)

include h

theorem deferred : c.deferredIPCIDRMatchGroups = 0 :=
  (congrArg InboundContext.deferredIPCIDRMatchGroups h.reset).symm

theorem withDeferred {m : BitVec 8} (hm : m = 0) :
    { c with deferredIPCIDRMatchGroups := m } = c := by
  rw [hm, ← h.deferred]

theorem withFlags (matchSource acceptEmpty : Bool) :
    Clean { c with ipCIDRMatchSource := matchSource, ipCIDRAcceptEmpty := acceptEmpty } where
  ignore := h.ignore
  reset := by
    have hr := h.reset
    conv_rhs => rw [← hr]
    rfl

theorem resetRuleCache_eq : c.resetRuleCache = below c :=
  (h.withFlags false false).reset

/-- The metadata in the loop of a logical rule is `c`, or the one the rules are matched against. -/
theorem resetRuleCache_of_loop {d : InboundContext} (hd : d = c ∨ d = below c) :
    d.resetRuleCache = below c := by
  rcases hd with rfl | rfl
  · exact h.resetRuleCache_eq
  · exact (h.withFlags false false).resetRuleCache_eq

end Clean

variable {c : InboundContext}

theorem ItemGroups.evaluateGroups_of_clean (g : ItemGroups) (h : Clean c) :
    g.evaluateGroups c = (.ofGroups (g.requires c) (g.satisfies c), c) := by
  simp [evaluateGroups, defersDestination, h.ignore, groupMatch_eq, visible_of_not_ignore]

theorem ItemGroups.done_eq_groupsHold (g : ItemGroups) (c : InboundContext) :
    (ofGroups (g.requires c) (g.satisfies c)).done = g.groupsHold c := by
  rw [Bool.eq_iff_iff, done_ofGroups, groupsHold_iff]

theorem done_mergeWith_eq_mergedGroupsHold (outer inn : ItemGroups) (c nested : InboundContext) :
    ((ofGroups (outer.requires c) (outer.satisfies c)).mergeWith
      (.ofGroups (inn.requires nested) (inn.satisfies nested))).done =
      mergedGroupsHold outer c inn nested := by
  rw [Bool.eq_iff_iff, mergeWith_ofGroups, done_ofGroups]
  simp only [mergedGroupsHold, decide_eq_true_eq]
  refine forall_congr' fun G => ?_
  have hG : G ∈ [Group.sourceAddress, .sourcePort, .destinationAddress, .destinationPort] := by
    cases G <;> simp
  simp [hG]

/-! ### Default rules -/

section Default

variable {g : ItemGroups} {ruleSetItem : Option OuterMatcher}
  {ruleSets : Option (InboundContext → Bool)} (hnone : ruleSetItem.isNone = ruleSets.isNone)
  (hitem : ∀ item ∈ ruleSetItem, ∀ value ∈ ruleSets, ∀ c, Clean c →
    item (.ofGroups (g.requires c) (g.satisfies c)) c = (value c, c))

include hnone hitem

theorem matchInner_computes : (matchInner g ruleSetItem).Computes (innerDenote g ruleSets) := by
  intro c hc
  -- A mask is cleared from a mask that is zero.
  have hclr (m : BitVec 8) : { c with
      deferredIPCIDRMatchGroups := c.deferredIPCIDRMatchGroups &&& m } = c :=
    hc.withDeferred (by simp [hc.deferred])
  simp only [matchInner, innerDenote, g.evaluateGroups_of_clean hc]
  cases g.plainItemsMatch c with
  | false => rfl
  | true =>
    cases ruleSetItem with
    | none =>
      obtain rfl : ruleSets = none := by simpa using hnone.symm
      simp [hclr, g.done_eq_groupsHold]
    | some item =>
      obtain ⟨value, rfl⟩ : ∃ value, ruleSets = some value :=
        Option.isSome_iff_exists.mp (by simpa using hnone.symm)
      simp [hitem item rfl value rfl c hc, hclr]

/-- A default rule computes its value, whatever its rule-set reference computes. -/
theorem abstractDefaultRuleMatch_computes (invert : Bool) :
    (abstractDefaultRuleMatch g ruleSetItem invert).Computes (defaultDenote g ruleSets invert) := by
  intro c hc
  have h0 : { c with deferredIPCIDRMatchGroups := 0 } = c := hc.withDeferred rfl
  simp only [abstractDefaultRuleMatch, defaultDenote, hnone,
    matchInner_computes hnone hitem c hc, h0, hc.deferred]
  by_cases he : g.length = 0 ∧ ruleSets.isNone = true
  · rw [if_pos he, if_pos he]
  · rw [if_neg he, if_neg he]
    cases innerDenote g ruleSets c <;> cases invert <;> simp

end Default

/-! ### Logical rules -/

section Logical

variable {rules : List Matcher} {values : List (InboundContext → Bool)}
  (h : List.Forall₂ Matcher.Computes rules values) {c : InboundContext} (hc : Clean c)

include h hc

theorem matchAllRules_of_computes (d : InboundContext) (hd : d = c ∨ d = below c) :
    ∃ e, matchAllRules rules 0 d = ((values.all fun v => v (below c), 0), e) ∧
      (e = c ∨ e = below c) := by
  have hl : Clean (below c) := hc.withFlags false false
  induction h generalizing d with
  | nil => exact ⟨d, rfl, hd⟩
  | @cons rule value _ _ hr _ ih =>
    have hrst : d.resetRuleCache = below c := hc.resetRuleCache_of_loop hd
    simp only [matchAllRules, hrst, hr _ hl, hl.deferred, BitVec.or_self, List.all_cons]
    cases value (below c) with
    | false => exact ⟨below c, rfl, .inr rfl⟩
    | true => exact ih (below c) (.inr rfl)

theorem matchAnyRule_of_computes (d : InboundContext) (hd : d = c ∨ d = below c) :
    ∃ e, matchAnyRule rules false 0 d = ((values.any fun v => v (below c), 0), e) ∧
      (e = c ∨ e = below c) := by
  have hl : Clean (below c) := hc.withFlags false false
  induction h generalizing d with
  | nil => exact ⟨d, rfl, hd⟩
  | @cons rule value _ _ hr _ ih =>
    have hrst : d.resetRuleCache = below c := hc.resetRuleCache_of_loop hd
    simp only [matchAnyRule, hrst, hr _ hl, hl.deferred, List.any_cons]
    cases value (below c) with
    | false => exact ih (below c) (.inr rfl)
    | true => exact ⟨below c, rfl, .inr rfl⟩

theorem matchRules_of_computes (mode : LogicalType) :
    ∃ e, matchRules mode rules c = ((rulesDenote mode values c, 0), e) ∧ (e = c ∨ e = below c) := by
  cases mode with
  | and => exact matchAllRules_of_computes h hc c (.inl rfl)
  | or => exact matchAnyRule_of_computes h hc c (.inl rfl)

omit hc in
theorem abstractLogicalRuleMatch_computes (mode : LogicalType) (invert : Bool) :
    (abstractLogicalRuleMatch mode rules invert).Computes (logicalDenote mode values invert) := by
  intro c hc
  obtain ⟨e, hl, he⟩ := matchRules_of_computes h hc mode
  have hr : (snapshotRuleMatch c).restore e = c := by
    rcases he with rfl | rfl <;> rfl
  have hor : { c with
      deferredIPCIDRMatchGroups := c.deferredIPCIDRMatchGroups ||| 0 } = c :=
    hc.withDeferred (by simp [hc.deferred])
  simp only [abstractLogicalRuleMatch, logicalDenote, hl, hr, hor, ite_self]
  cases rulesDenote mode values c <;> cases invert <;> rfl

end Logical

/-! ### Rule-sets -/

theorem matchAnyHeadlessLoop_of_computes {rules : List Matcher}
    {values : List (InboundContext → Bool)} (h : List.Forall₂ Matcher.Computes rules values)
    (hc : Clean c) :
    matchAnyHeadlessLoop (snapshotRuleMatch c) rules false 0 c = (values.any fun v => v c, c) := by
  induction h with
  | nil => rfl
  | @cons rule value rules values hr _ ih =>
    simp only [matchAnyHeadlessLoop, hc.reset, hr c hc, hc.deferred, if_true, ih, List.any_cons]
    cases value c <;> rfl

mutual

theorem HeadlessRule.matcher_computes : (rule : HeadlessRule) → rule.matcher.Computes rule.denote
  | .default groups invert => by
    rw [matcher, denote]
    exact abstractDefaultRuleMatch_computes rfl (by simp) invert
  | .logical mode rules invert => by
    rw [matcher, denote]
    exact abstractLogicalRuleMatch_computes (matchers_computes rules) mode invert

theorem HeadlessRule.matchers_computes : (rules : List HeadlessRule) →
    List.Forall₂ Matcher.Computes (matchers rules) (denotes rules)
  | [] => .nil
  | rule :: rules =>
    .cons (matcher_computes rule) (matchers_computes rules)

end

theorem matchAnyHeadlessRule_computes (ruleSet : RuleSet) : (matchAnyHeadlessRule ruleSet).Computes
      fun c => (denotes ruleSet).any fun rule => rule c :=
  fun _ hc => matchAnyHeadlessLoop_of_computes (matchers_computes ruleSet) hc

namespace RuleSetItem

variable (item : RuleSetItem)

theorem prepareNestedMatch_of_clean (hc : Clean c) : item.prepareNestedMatch c = item.nested c := by
  rw [prepareNestedMatch, hc.reset, nested]

/-- The loop over the referenced sets: it restores the metadata from the snapshot, and finds a set
whose value holds. The metadata in the loop is `c`, or `c` with the flags of the reference. -/
theorem matchSets_of_clean (outer : ItemGroups) (hc : Clean c) :
    ∀ (sets : List RuleSet) (d : InboundContext), d = c ∨ d = item.nested c →
      item.matchSets (snapshotRuleMatch c) (.ofGroups (outer.requires c) (outer.satisfies c))
        sets false 0 d = (sets.any fun ruleSet => item.setDenote outer c ruleSet, c)
  | [], d, hd => by
    rcases hd with rfl | rfl <;> rfl
  | ruleSet :: sets, d, hd => by
    have hn : Clean (item.nested c) := hc.withFlags _ _
    have hp : item.prepareNestedMatch d = item.nested c := by
      rcases hd with rfl | rfl
      · exact item.prepareNestedMatch_of_clean hc
      · exact item.prepareNestedMatch_of_clean hn
    have ih := matchSets_of_clean outer hc sets (item.nested c) (.inr rfl)
    have hr : (snapshotRuleMatch c).restore (item.nested c) = c := rfl
    have hclr (m : BitVec 8) : { c with
        deferredIPCIDRMatchGroups := c.deferredIPCIDRMatchGroups &&& m } = c :=
      hc.withDeferred (by simp [hc.deferred])
    have h0 (m : BitVec 8) : 0 &&& m = 0 := by simp
    rw [matchSets, hp, List.any_cons, setDenote]
    cases mergeableRuleIn ruleSet with
    | none =>
      simp only [outer.done_eq_groupsHold, matchAnyHeadlessRule_computes ruleSet _ hn,
        hn.deferred, if_true, hr, ih]
      cases outer.groupsHold c <;>
        cases (denotes ruleSet).any fun rule => rule (item.nested c) <;> rfl
    | some inn =>
      simp only [ItemGroups.evaluateForMerge, inn.evaluateGroups_of_clean hn]
      cases inn.plainItemsMatch (item.nested c) with
      | false => simpa using ih
      | true =>
        simp only [if_true, done_mergeWith_eq_mergedGroupsHold, hn.deferred, hr, ih,
          Bool.true_and, h0, hclr]
        cases mergedGroupsHold outer c inn (item.nested c) <;> rfl

theorem matchWithOuterGroups_of_clean (outer : ItemGroups) (hc : Clean c) :
    item.matchWithOuterGroups (.ofGroups (outer.requires c) (outer.satisfies c)) c =
      (item.denote outer c, c) :=
  item.matchSets_of_clean outer hc item.setList c (.inl rfl)

end RuleSetItem

/-! ### Rule trees -/

section Tree

variable {β : Type} {wrap : β → Bool → Matcher → Matcher}

/-- Whether the default rules of a kind of tree add nothing to `abstractDefaultRule.Match`. -/
def Unwrapped (wrap : β → Bool → Matcher → Matcher) (binding : β) : Prop :=
  ∀ invert m, wrap binding invert m = m

mutual

theorem RuleTree.matcherWith_computes : (rule : RuleTree β) →
    rule.ForallDefault (fun binding _ _ => Unwrapped wrap binding) →
      (rule.matcherWith wrap).Computes rule.denote
  | .default binding groups ruleSetItem invert, h => by
    rw [matcherWith, denote, h invert]
    refine abstractDefaultRuleMatch_computes (by simp) ?_ invert
    intro item hitem value hv c hc
    obtain ⟨ref, rfl, rfl⟩ := Option.map_eq_some_iff.mp hitem
    obtain rfl : ref.denote groups = value := by simpa using hv
    exact ref.matchWithOuterGroups_of_clean groups hc
  | .logical mode rules invert, h => by
    rw [matcherWith, denote]
    exact abstractLogicalRuleMatch_computes (matchersWith_computes rules h) mode invert

theorem RuleTree.matchersWith_computes : (rules : List (RuleTree β)) →
    RuleTree.ForallDefaults (fun binding _ _ => Unwrapped wrap binding) rules →
      List.Forall₂ Matcher.Computes (matchersWith wrap rules) (denotes rules)
  | [], _ => .nil
  | rule :: rules, h =>
    .cons (matcherWith_computes rule h.1) (matchersWith_computes rules h.2)

end

end Tree

theorem Clean.of_resetRuleCache (hi : c.ignoreDestinationIPCIDRMatch = false)
    (hr : c.resetRuleCache = c) : Clean c where
  ignore := hi
  reset := by
    rw [← hr]
    rfl

/-- **Matching computes the meaning of a rule.** On a metadata object with a clean rule cache that
does not ignore destination IP items, `Match` of a route rule and of a headless rule return the
value of the rule, and leave the metadata as it was. -/
theorem match_eq_denote (c : InboundContext) (hignore : c.ignoreDestinationIPCIDRMatch = false)
    (hreset : c.resetRuleCache = c) :
    (∀ rule : RouteRule, rule.matcher c = (rule.denote c, c)) ∧
      ∀ rule : HeadlessRule, rule.matcher c = (rule.denote c, c) := by
  have hc := Clean.of_resetRuleCache hignore hreset
  exact ⟨fun rule => matcherWith_computes rule
      (.mono (fun _ _ _ _ _ _ => rfl) rule rule.forallDefault_true) c hc,
    fun rule => matcher_computes rule c hc⟩

/-- A query for `a.test` from a port that only the outer rule asks for, and an inverted logical rule
over a rule that is merged with the rule-set it references. -/
theorem match_eq_denote_merged :
    let c : InboundContext := { domain := "a.test", source := { port := 53 } }
    let set : RuleSet := [.default { destinationAddressItems := [.domain (· == "a.test")] } false]
    let rule : RouteRule := .logical .and
      [.default ()
        { sourcePortItems := [.port [53]], destinationAddressItems := [.domainKeyword []] }
        (some { setList := [set] }) false] true
    c.resetRuleCache = c ∧ rule.matcher c = (rule.denote c, c) ∧
      rule.denote c = false := by
  intro c set rule
  have hr : c.resetRuleCache = c := rfl
  exact ⟨hr, (match_eq_denote c rfl hr).1 rule, by decide +kernel⟩

end SingBox.Rule
