import SingBox.DNS.Walk.Rules
import SingBox.Rule.Denotation

/-!
# The responses that a DNS rule reads

`Match` of a DNS rule computes a value of the metadata and leaves the metadata as it was. In an
accepted rule the value depends on the responses that the rule is bound to and on no others: a
default rule with `match_response` works on the response of its tag, and the other default rules
have no items that read one.
-/

namespace SingBox.Rule

open SingBox.Net SingBox.Adapter HeadlessRule DNSRule ItemGroups List

/-! ### Metadata with other responses -/

/-- Two metadata objects that differ at most in the responses. The anonymous one is the same if
destination IP items read it. -/
structure Alike (c d : InboundContext) : Prop where
  eq : d = { c with
    dnsResponse := d.dnsResponse
    namedDNSResponses := d.namedDNSResponses }
  response : c.destinationAddressMatchFromResponse = true → d.dnsResponse = c.dnsResponse

section Alike

variable {c d : InboundContext} {g : ItemGroups}

section

variable (h : Alike c d)

include h

theorem Alike.sameQuery : SameQuery c d where
  eq := by
    rw [h.eq]

theorem Alike.flags : d.ipCIDRMatchSource = c.ipCIDRMatchSource ∧
    d.ipCIDRAcceptEmpty = c.ipCIDRAcceptEmpty ∧
    d.destinationAddressMatchFromResponse = c.destinationAddressMatchFromResponse := by
  rw [h.eq]
  exact ⟨rfl, rfl, rfl⟩

theorem Alike.withFlags (matchSource acceptEmpty : Bool) :
    Alike { c with ipCIDRMatchSource := matchSource, ipCIDRAcceptEmpty := acceptEmpty }
      { d with ipCIDRMatchSource := matchSource, ipCIDRAcceptEmpty := acceptEmpty } where
  eq := by
    conv_lhs => rw [h.eq]
  response := h.response

theorem AddressItem.isMatch_of_alike (item : AddressItem) : item.isMatch d = item.isMatch c := by
  obtain ⟨hs, he, hf⟩ := h.flags
  cases hc : c.destinationAddressMatchFromResponse with
  | false => exact AddressItem.isMatch_congr h.sameQuery hs he hc (hf.trans hc) item
  | true =>
    rw [h.eq, h.response hc]
    cases item <;> rfl

theorem ItemGroups.plainItemsMatch_of_alike
    (hi : ∀ item ∈ g.items, item.readsResponse = true → d.dnsResponse = c.dnsResponse) :
    g.plainItemsMatch d = g.plainItemsMatch c := by
  unfold plainItemsMatch
  rw [Bool.eq_iff_iff, all_eq_true, all_eq_true]
  refine forall₂_congr fun item hm => ?_
  cases hr : item.readsResponse with
  | false => rw [PlainItem.isMatch_congr h.sameQuery hr]
  | true =>
    have hs := hi item hm hr
    rw [h.eq, hs]
    cases item <;> simp [PlainItem.readsResponse] at hr <;> rfl

theorem ItemGroups.requires_of_alike (G : Group) : g.requires d G = g.requires c G := by
  cases G <;> simp only [requires, h.flags.1]

theorem ItemGroups.satisfies_of_alike (G : Group) : g.satisfies d G = g.satisfies c G := by
  cases G <;> simp only [satisfies, h.flags.1, AddressItem.isMatch_of_alike h,
    SourceAddressItem.isMatch_congr h.sameQuery, PortItem.isMatch_congr h.sameQuery,
    DomainItem.isMatch_congr h.sameQuery]

theorem ItemGroups.groupsHold_of_alike : g.groupsHold d = g.groupsHold c := by
  simp only [groupsHold, requires_of_alike h, satisfies_of_alike h]

/-- The value of a default rule, whose rule-sets do not tell the responses apart. -/
theorem defaultDenote_of_alike {ruleSets : Option (InboundContext → Bool)}
    (hi : ∀ item ∈ g.items, item.readsResponse = true → d.dnsResponse = c.dnsResponse)
    (hs : ∀ value ∈ ruleSets, value d = value c) (invert : Bool) :
    defaultDenote g ruleSets invert d = defaultDenote g ruleSets invert c := by
  unfold defaultDenote innerDenote
  rw [plainItemsMatch_of_alike h hi]
  cases ruleSets with
  | none => simp only [groupsHold_of_alike h]
  | some value => simp only [hs value rfl]

end

/-- The value of a logical rule whose rules do not tell the responses apart. -/
theorem logicalDenote_of_alike {values : List (InboundContext → Bool)} (mode : LogicalType)
    (invert : Bool) (h : ∀ value ∈ values, value (below d) = value (below c)) :
    logicalDenote mode values invert d = logicalDenote mode values invert c := by
  unfold logicalDenote rulesDenote
  cases mode with
  | and =>
    have ha : (values.all fun value => value (below d)) =
        values.all fun value => value (below c) := by
      rw [Bool.eq_iff_iff, all_eq_true, all_eq_true]
      exact forall₂_congr fun value hm => by rw [h value hm]
    simp only [ha]
  | or =>
    have hany : (values.any fun value => value (below d)) =
        values.any fun value => value (below c) := by
      rw [Bool.eq_iff_iff, any_eq_true, any_eq_true]
      exact exists_congr fun value => and_congr_right fun hm => by rw [h value hm]
    simp only [hany]

mutual

theorem HeadlessRule.denote_of_alike {c d : InboundContext} (h : Alike c d) :
    (rule : HeadlessRule) → rule.denote d = rule.denote c
  | .default groups invert => by
    rw [denote]
    refine defaultDenote_of_alike h (fun item hm hr => ?_) (by simp) invert
    exact absurd (groups.items_readsResponse item hm) (by simp [hr])
  | .logical mode rules invert => by
    rw [denote]
    exact logicalDenote_of_alike mode invert
      (denotes_of_alike (h.withFlags false false) rules)

theorem HeadlessRule.denotes_of_alike {c d : InboundContext} (h : Alike c d) :
    (rules : List HeadlessRule) → ∀ value ∈ denotes rules, value d = value c
  | [], value, hm => absurd hm not_mem_nil
  | rule :: rules, value, hm => by
    rcases mem_cons.mp hm with rfl | hm
    · exact denote_of_alike h rule
    · exact denotes_of_alike h rules value hm

end

theorem mergeableRuleIn_eq_some {ruleSet : RuleSet} {inner : ItemGroups}
    (h : mergeableRuleIn ruleSet = some inner) :
    ∃ groups : HeadlessGroups, inner = groups.toItemGroups := by
  unfold mergeableRuleIn at h
  split at h
  · split_ifs at h
    exact ⟨_, (Option.some.inj h).symm⟩
  · cases h

theorem RuleSetItem.setDenote_of_alike (item : RuleSetItem) (h : Alike c d) (ruleSet : RuleSet) :
    item.setDenote g d ruleSet = item.setDenote g c ruleSet := by
  have hn : Alike (item.nested c) (item.nested d) := h.withFlags _ _
  unfold RuleSetItem.setDenote
  cases hme : mergeableRuleIn ruleSet with
  | some inn =>
    obtain ⟨groups, rfl⟩ := mergeableRuleIn_eq_some hme
    have hp : groups.toItemGroups.plainItemsMatch (item.nested d) =
        groups.toItemGroups.plainItemsMatch (item.nested c) :=
      plainItemsMatch_of_alike hn fun x hm hr =>
        absurd (groups.items_readsResponse x hm) (by simp [hr])
    simp [hp, mergedGroupsHold, requires_of_alike h, satisfies_of_alike h,
      requires_of_alike hn, satisfies_of_alike hn]
  | none =>
    have ha : ((denotes ruleSet).any fun rule => rule (item.nested d)) =
        (denotes ruleSet).any fun rule => rule (item.nested c) := by
      rw [Bool.eq_iff_iff, any_eq_true, any_eq_true]
      refine exists_congr fun value => and_congr_right fun hm => ?_
      rw [denotes_of_alike hn ruleSet value hm]
    simp only [groupsHold_of_alike h, ha]

theorem RuleSetItem.denote_of_alike (item : RuleSetItem) (h : Alike c d) :
    item.denote g d = item.denote g c := by
  simp only [RuleSetItem.denote, item.setDenote_of_alike h]

end Alike

/-! ### The value of a DNS rule -/

/-- The value of a default rule of a DNS rule: a rule that matches a response has the value that it
has for the response, and the value `invert` while there is none. -/
def defaultValue (binding : MatchResponse) (invert : Bool) (value : InboundContext → Bool)
    (c : InboundContext) : Bool :=
  if binding.enabled then
    match if binding.tag ≠ "" then c.namedDNSResponses binding.tag else c.dnsResponse with
    | none => invert
    | some response => value { c with
        dnsResponse := some response
        destinationAddressMatchFromResponse := true }
  else value c

namespace DNSRule

mutual

/-- The value of a DNS rule. -/
def value : DNSRule → InboundContext → Bool
  | .default binding groups ruleSetItem invert =>
    defaultValue binding invert
      (defaultDenote groups (ruleSetItem.map fun item => item.denote groups) invert)
  | .logical mode rules invert => logicalDenote mode (values rules) invert

/-- The values of the rules of a list. -/
def values : List DNSRule → List (InboundContext → Bool)
  | [] => []
  | rule :: rules => value rule :: values rules

end

end DNSRule

theorem Clean.withResponse {c : InboundContext} (h : Clean c) (response : Option Msg) :
    Clean { c with dnsResponse := response, destinationAddressMatchFromResponse := true } where
  ignore := h.ignore
  reset := by
    have hr := h.reset
    conv_rhs => rw [← hr]
    rfl

variable {binding : MatchResponse}

theorem matchForMatch_computes {invert : Bool} {m : Matcher} {value : InboundContext → Bool}
    (h : m.Computes value) :
    (matchForMatch binding invert m).Computes (defaultValue binding invert value) := by
  intro c hc
  unfold matchForMatch defaultValue
  by_cases hen : binding.enabled = true
  · simp only [if_pos hen]
    cases (if binding.tag ≠ "" then c.namedDNSResponses binding.tag else c.dnsResponse) with
    | none => rfl
    | some response => simp only [h _ (hc.withResponse (some response))]
  · simp only [if_neg hen]
    exact h c hc

mutual

/-- `Match` of a DNS rule computes its value. -/
theorem DNSRule.matcher_computes : (rule : RuleTree MatchResponse) →
    (rule.matcherWith matchForMatch).Computes (value rule)
  | .default binding groups ruleSetItem invert => by
    rw [RuleTree.matcherWith, value]
    refine matchForMatch_computes (abstractDefaultRuleMatch_computes (by simp) ?_ invert)
    intro item hi value hv c hc
    obtain ⟨ref, rfl, rfl⟩ := Option.map_eq_some_iff.mp hi
    obtain rfl : ref.denote groups = value := by simpa using hv
    exact ref.matchWithOuterGroups_of_clean groups hc
  | .logical mode rules invert => by
    rw [RuleTree.matcherWith, value]
    exact abstractLogicalRuleMatch_computes (matchers_compute rules) mode invert

theorem DNSRule.matchers_compute : (rules : List (RuleTree MatchResponse)) →
    List.Forall₂ Matcher.Computes (RuleTree.matchersWith matchForMatch rules) (values rules)
  | [] => .nil
  | rule :: rules => .cons (matcher_computes rule) (matchers_compute rules)

end

/-! ### The bound responses -/

section Bound

open SingBox.DNS.Walk

variable {c d : InboundContext}

/-- Metadata that agree on the responses of a list of tags, and on the anonymous one if
`anonymous`. -/
structure SameResponses (tags : List String) (anonymous : Bool) (c d : InboundContext) : Prop where
  named : ∀ tag ∈ tags, d.namedDNSResponses tag = c.namedDNSResponses tag
  anonymous : anonymous = true → d.dnsResponse = c.dnsResponse

theorem SameResponses.mono {tags tags' : List String} {anonymous anonymous' : Bool}
    (h : SameResponses tags anonymous c d) (hta : ∀ tag ∈ tags', tag ∈ tags)
    (han : anonymous' = true → anonymous = true) : SameResponses tags' anonymous' c d where
  named tag ht := h.named tag (hta tag ht)
  anonymous ha := h.anonymous (han ha)

theorem Alike.withResponse (h : Alike c d) (response : Option Msg) :
    Alike { c with dnsResponse := response, destinationAddressMatchFromResponse := true }
      { d with dnsResponse := response, destinationAddressMatchFromResponse := true } where
  eq := by
    conv_lhs => rw [h.eq]
  response _ := rfl

theorem defaultValue_congr {groups : ItemGroups} {ruleSetItem : Option RuleSetItem} {invert : Bool}
    (hu : Unread binding groups ruleSetItem) (h : Alike c d) (hr : SameResponses
      (matchResponseTags (.default binding groups ruleSetItem invert))
      (matchResponseAnonymous (.default binding groups ruleSetItem invert)) c d) :
    value (.default binding groups ruleSetItem invert) d =
      value (.default binding groups ruleSetItem invert) c := by
  have hs : ∀ {c d}, Alike c d → ∀ value ∈ ruleSetItem.map fun item => item.denote groups,
      value d = value c := by
    intro c d h value hv
    obtain ⟨item, -, rfl⟩ := Option.map_eq_some_iff.mp hv
    exact item.denote_of_alike h
  rw [value]
  unfold defaultValue
  by_cases hen : binding.enabled = true
  · simp only [if_pos hen]
    have hsa : (if binding.tag ≠ "" then d.namedDNSResponses binding.tag else d.dnsResponse) =
        if binding.tag ≠ "" then c.namedDNSResponses binding.tag else c.dnsResponse := by
      by_cases ht : binding.tag = ""
      · simp only [ht, ne_eq, not_true_eq_false, if_false]
        exact hr.anonymous (by simp [matchResponseAnonymous, hen, ht])
      · simp only [ne_eq, ht, not_false_eq_true, if_true]
        exact hr.named _ (by simp [matchResponseTags, ht])
    rw [hsa]
    cases (if binding.tag ≠ "" then c.namedDNSResponses binding.tag else c.dnsResponse) with
    | none => rfl
    | some response =>
      have hrun := h.withResponse (some response)
      exact defaultDenote_of_alike hrun (fun _ _ _ => rfl) (hs hrun) invert
  · simp only [if_neg hen]
    refine defaultDenote_of_alike h (fun item hm hrds => ?_) (hs h) invert
    have ha := all_eq_true.mp (hu (by simpa using hen)).1 item hm
    exact absurd ha (by simp [hrds])

mutual

/-- The value of a DNS rule depends on the responses that the rule is bound to. -/
theorem DNSRule.value_congr {c d : InboundContext} (h : Alike c d) :
    (rule : RuleTree MatchResponse) → rule.ForallDefault Unread →
      SameResponses (matchResponseTags rule) (matchResponseAnonymous rule) c d →
      value rule d = value rule c
  | .default _ _ _ _, hu, hr => defaultValue_congr hu h hr
  | .logical mode rules invert, hu, hr => by
    rw [value]
    refine logicalDenote_of_alike mode invert
      (values_congr (h.withFlags false false) rules hu ?_)
    rw [matchResponseTags, matchResponseAnonymous] at hr
    exact ⟨fun tag ht => hr.named tag (mem_eraseDups.mpr ht), hr.anonymous⟩

theorem DNSRule.values_congr {c d : InboundContext} (h : Alike c d) :
    (rules : List (RuleTree MatchResponse)) → RuleTree.ForallDefaults Unread rules →
      SameResponses (matchResponseTagsOf rules) (matchResponseAnonymousOf rules)
        c d →
      ∀ value ∈ values rules, value d = value c
  | [], _, _, value, hm => absurd hm not_mem_nil
  | rule :: rules, hu, hr, value, hm => by
    rw [matchResponseTagsOf, matchResponseAnonymousOf] at hr
    rcases mem_cons.mp hm with rfl | hm
    · exact value_congr h rule hu.1 (hr.mono
        (fun tag ht => mem_append_left _ ht) fun ha => by simp [ha])
    · exact values_congr h rules hu.2 (hr.mono
        (fun tag ht => mem_append_right _ ht) fun ha => by simp [ha]) value hm

end

end Bound

end SingBox.Rule
