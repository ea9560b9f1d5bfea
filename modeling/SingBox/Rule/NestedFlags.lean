import SingBox.Rule.Denotation

/-!
# The flags of a rule-set reference below logical rules

A reference to rule-sets may ask that the `ip_cidr` items of the sets are compared with the source
address, and that they accept an empty list of addresses. It sets two flags of the metadata before
it matches a set, and the rules of a set are matched one after the other with these flags. A logical
rule, though, clears the whole rule cache before each of its rules, and the flags with it. Below a
logical rule the items are compared with the destination, whatever the reference says.

Whether that shows depends on the other items. It does for some items just if a logical rule of the
sets has a default rule with `ip_cidr` items below it.
-/

namespace SingBox.Rule

open SingBox.Net SingBox.Adapter HeadlessRule ItemGroups RuleSetItem Bool

/-! ### Two metadata objects -/

/-- The metadata with another destination address, other addresses and another response. -/
def redirect (c : InboundContext) (addr : Addr) (addresses : List Addr) (response : Option Msg) :
    InboundContext :=
  { c with
    destination := { c.destination with addr := addr }
    destinationAddresses := addresses
    dnsResponse := response }

/-- Whether `ip_cidr` items have an address to compare. -/
def hasAddress (c : InboundContext) : Bool :=
  if c.destinationAddressMatchFromResponse then !c.dnsResponseAddressesForMatch.isEmpty
  else c.destination.isIP || !c.destinationAddresses.isEmpty

/-- The plain items that read the destination address; a headless rule has none of them. -/
def PlainItem.readsDestination : PlainItem → Bool
  | ipVersion _ => true
  | preferredBy _ => true
  | _ => false

/-- The fields of the metadata that matching writes. -/
structure Cache where
  matchSource : Bool
  acceptEmpty : Bool
  sourceAddress : Bool
  sourcePort : Bool
  destinationAddress : Bool
  destinationPort : Bool
  deferred : BitVec 8

/-- The metadata with these fields. -/
def withCache (c : InboundContext) (v : Cache) : InboundContext :=
  { c with
    ipCIDRMatchSource := v.matchSource
    ipCIDRAcceptEmpty := v.acceptEmpty
    sourceAddressMatch := v.sourceAddress
    sourcePortMatch := v.sourcePort
    destinationAddressMatch := v.destinationAddress
    destinationPortMatch := v.destinationPort
    deferredIPCIDRMatchGroups := v.deferred }

/-- The fields as they are. -/
def cacheOf (c : InboundContext) : Cache :=
  ⟨c.ipCIDRMatchSource, c.ipCIDRAcceptEmpty, c.sourceAddressMatch, c.sourcePortMatch,
    c.destinationAddressMatch, c.destinationPortMatch, c.deferredIPCIDRMatchGroups⟩

/-! ### The sets of a rule -/

/-- The same items with other IP sets. -/
def HeadlessGroups.mapSets (f : (Addr → Bool) → Addr → Bool) (g : HeadlessGroups) :
    HeadlessGroups :=
  { g with destinationIPSets := g.destinationIPSets.map f }

mutual

/-- The same rule with other IP sets. -/
def HeadlessRule.mapSets (f : (Addr → Bool) → Addr → Bool) : HeadlessRule → HeadlessRule
  | .default groups invert => .default (groups.mapSets f) invert
  | .logical mode rules invert => .logical mode (HeadlessRule.mapSetsOf f rules) invert

/-- The rules of a list with other IP sets. -/
def HeadlessRule.mapSetsOf (f : (Addr → Bool) → Addr → Bool) : List HeadlessRule → List HeadlessRule
  | [] => []
  | rule :: rules => HeadlessRule.mapSets f rule :: HeadlessRule.mapSetsOf f rules

end

mutual

/-- Whether a rule has `ip_cidr` items. -/
def HeadlessRule.hasSets : HeadlessRule → Bool
  | .default groups _ => !groups.destinationIPSets.isEmpty
  | .logical _ rules _ => HeadlessRule.haveSets rules

/-- Whether a rule of a list has `ip_cidr` items. -/
def HeadlessRule.haveSets : List HeadlessRule → Bool
  | [] => false
  | rule :: rules => HeadlessRule.hasSets rule || HeadlessRule.haveSets rules

end

mutual

/-- The items of a rule are those that `NewDefaultHeadlessRule` builds. -/
def HeadlessRule.Ordinary : HeadlessRule → Prop
  | .default groups _ => ∀ item ∈ groups.items, item.readsDestination = false
  | .logical _ rules _ => HeadlessRule.AllOrdinary rules

/-- The same for the rules of a list. -/
def HeadlessRule.AllOrdinary : List HeadlessRule → Prop
  | [] => True
  | rule :: rules => HeadlessRule.Ordinary rule ∧ HeadlessRule.AllOrdinary rules

end

mutual

/-- Logical rules have rules below them, as `LogicalHeadlessRule.IsValid` asks. -/
def HeadlessRule.Populated : HeadlessRule → Prop
  | .default _ _ => True
  | .logical _ rules _ => rules ≠ [] ∧ HeadlessRule.AllPopulated rules

/-- The same for the rules of a list. -/
def HeadlessRule.AllPopulated : List HeadlessRule → Prop
  | [] => True
  | rule :: rules => HeadlessRule.Populated rule ∧ HeadlessRule.AllPopulated rules

end

/-- No `ip_cidr` items below a logical rule. -/
def HeadlessRule.Flat : HeadlessRule → Prop
  | .default _ _ => True
  | .logical _ rules _ => HeadlessRule.haveSets rules = false

/-! ### The flags reach every `ip_cidr` item -/

namespace RuleSetItem

/-- The same reference to sets with other IP sets. -/
def mapSets (f : (Addr → Bool) → Addr → Bool) (item : RuleSetItem) : RuleSetItem :=
  { item with setList := item.setList.map (HeadlessRule.mapSetsOf f) }

/-- Two matches have the same answer and leave the same groups to the response. -/
def Agrees (r r' : Bool × InboundContext) : Prop :=
  r.1 = r'.1 ∧ r.2.deferredIPCIDRMatchGroups = r'.2.deferredIPCIDRMatchGroups

/-- With the first flag the match does not depend on the destination. With the second one alone, a
match without any address is one with an address that all IP sets have. -/
structure ReachesNested (item : RuleSetItem) : Prop where
  source : item.ipCidrMatchSource = true → ∀ outer c addr addresses response,
    Agrees (item.matchWithOuterGroups outer c)
      (item.matchWithOuterGroups outer (redirect c addr addresses response))
  empty : item.ipCidrMatchSource = false → item.ipCidrAcceptEmpty = true →
    ∀ outer c addr addresses response, hasAddress c = false →
      hasAddress (redirect c addr addresses response) = true →
        Agrees (item.matchWithOuterGroups outer c)
          ((item.mapSets fun _ _ => true).matchWithOuterGroups outer
            (redirect c addr addresses response))

/-- No set has `ip_cidr` items below a logical rule. -/
def Flat (item : RuleSetItem) : Prop :=
  ∀ ruleSet ∈ item.setList, ∀ rule ∈ ruleSet, rule.Flat

/-- The rules of all sets are as `NewDefaultHeadlessRule` builds them. -/
def Ordinary (item : RuleSetItem) : Prop :=
  ∀ ruleSet ∈ item.setList, HeadlessRule.AllOrdinary ruleSet

/-- Logical rules of all sets have rules below them. -/
def Populated (item : RuleSetItem) : Prop :=
  ∀ ruleSet ∈ item.setList, HeadlessRule.AllPopulated ruleSet

end RuleSetItem

/-! ### Two matches that go the same way -/

open HeadlessRule

open Bool

section Tracks

variable {c d : InboundContext} {addr : Addr} {addresses : List Addr} {response : Option Msg}

theorem length_mapSets (g : HeadlessGroups) (f : (Addr → Bool) → Addr → Bool) :
    (g.mapSets f).toItemGroups.length = g.toItemGroups.length := by
  simp [length, HeadlessGroups.toItemGroups, HeadlessGroups.mapSets]

theorem withCache_deferred (v : Cache) (m : BitVec 8) :
    { withCache c v with deferredIPCIDRMatchGroups := m } = withCache c { v with deferred := m } :=
  rfl

theorem deferred_withCache (v : Cache) :
    (withCache c v).deferredIPCIDRMatchGroups = v.deferred := rfl

theorem evaluateGroups_withCache (g : ItemGroups) (v : Cache) :
    g.evaluateGroups (withCache c v) = (g.groupMatch (withCache c v), withCache c { v with
      deferred := if g.defersDestination (withCache c v) then
        v.deferred ||| Group.destinationAddress.mask else v.deferred }) := by
  unfold evaluateGroups
  cases g.defersDestination (withCache c v) <;> rfl

/-- Two matchers give the same answer on the two metadata objects with the same cache, and leave the
same cache, with the flags as they were. -/
def Tracks (c d : InboundContext) (matchSource acceptEmpty : Bool) (m m' : Matcher) : Prop :=
  ∀ v : Cache, v.matchSource = matchSource → v.acceptEmpty = acceptEmpty →
    ∃ b v', m (withCache c v) = (b, withCache c v') ∧ m' (withCache d v) = (b, withCache d v') ∧
      v'.matchSource = matchSource ∧ v'.acceptEmpty = acceptEmpty

/-- An IP set on the one side and its image on the other give the same answer. -/
def Leaf (c d : InboundContext) (matchSource acceptEmpty : Bool)
    (f : (Addr → Bool) → Addr → Bool) : Prop :=
  ∀ v : Cache, v.matchSource = matchSource → v.acceptEmpty = acceptEmpty →
    ∀ ipSet, ipCIDRItemMatch (f ipSet) false (withCache d v) =
      ipCIDRItemMatch ipSet false (withCache c v)

variable {s e : Bool} {f : (Addr → Bool) → Addr → Bool}

/-- The cache before each rule of a logical rule. -/
def Cache.cleared : Cache := ⟨false, false, false, false, false, false, 0⟩

theorem resetRuleCache_withCache (v : Cache) :
    (withCache c v).resetRuleCache = withCache c Cache.cleared :=
  rfl

variable {ms ms' : List Matcher}

/-- The loop of a logical rule over rules that track each other with the flags cleared. -/
theorem matchRules_tracks (mode : LogicalType) (h : List.Forall₂ (Tracks c d false false) ms ms')
    (v : Cache) : ∃ r v', matchRules mode ms (withCache c v) = (r, withCache c v') ∧
      matchRules mode ms' (withCache d v) = (r, withCache d v') := by
  cases mode with
  | and =>
    have loop (gs : BitVec 8) : ∀ v : Cache, ∃ r v',
        matchAllRules ms gs (withCache c v) = (r, withCache c v') ∧
          matchAllRules ms' gs (withCache d v) = (r, withCache d v') := by
      induction h generalizing gs with
      | nil => exact fun v => ⟨_, v, rfl, rfl⟩
      | cons hru _ ih =>
        intro v
        obtain ⟨b, v', hm, hm', -, -⟩ := hru Cache.cleared rfl rfl
        simp only [matchAllRules, resetRuleCache_withCache, hm, hm']
        cases b with
        | false => exact ⟨_, v', rfl, rfl⟩
        | true => exact ih _ v'
    exact loop 0 v
  | or =>
    have loop (matched : Bool) (gs : BitVec 8) : ∀ v : Cache, ∃ r v',
        matchAnyRule ms matched gs (withCache c v) = (r, withCache c v') ∧
          matchAnyRule ms' matched gs (withCache d v) = (r, withCache d v') := by
      induction h generalizing matched gs with
      | nil => exact fun v => ⟨_, v, rfl, rfl⟩
      | cons hru _ ih =>
        intro v
        obtain ⟨b, v', hm, hm', -, -⟩ := hru Cache.cleared rfl rfl
        simp only [matchAnyRule, resetRuleCache_withCache, hm, hm']
        cases b with
        | false => exact ih _ _ v'
        | true =>
          by_cases h0 : v'.deferred = 0
          · exact ⟨(true, 0), v', if_pos h0, if_pos h0⟩
          · obtain ⟨r, v'', hr, hr'⟩ := ih true (gs ||| v'.deferred) v'
            exact ⟨r, v'', (if_neg h0).trans hr, (if_neg h0).trans hr'⟩
    exact loop false 0 v

/-- A logical rule over rules that track each other with the flags cleared. -/
theorem logical_tracks (mode : LogicalType) (invert : Bool)
    (h : List.Forall₂ (Tracks c d false false) ms ms') :
    Tracks c d s e (abstractLogicalRuleMatch mode ms invert)
      (abstractLogicalRuleMatch mode ms' invert) := by
  intro v hs he
  obtain ⟨⟨matched, gs⟩, v', hr, hr'⟩ := matchRules_tracks mode h v
  -- The flags are those of the snapshot again.
  have hrst (b : InboundContext) : (snapshotRuleMatch (withCache b v)).restore (withCache b v') =
      withCache b { v' with
        matchSource := v.matchSource, acceptEmpty := v.acceptEmpty, deferred := v.deferred } := rfl
  simp only [abstractLogicalRuleMatch, hr, hr', hrst, withCache_deferred]
  cases matched <;> cases invert <;> exact ⟨_, _, rfl, rfl, hs, he⟩

/-- The cache before each rule of a set. -/
def Cache.clearedMatch (v : Cache) : Cache :=
  ⟨v.matchSource, v.acceptEmpty, false, false, false, false, 0⟩

theorem resetRuleMatchCache_withCache (v : Cache) :
    (withCache c v).resetRuleMatchCache = withCache c v.clearedMatch :=
  rfl

theorem restore_withCache (snapshot : RuleMatchSnapshot) (v : Cache) :
    snapshot.restore (withCache c v) = withCache c { v with
      matchSource := snapshot.ipCidrMatchSource
      acceptEmpty := snapshot.ipCidrAcceptEmpty
      deferred := snapshot.deferredIPCIDRMatchGroups } :=
  rfl

theorem matchAnyHeadlessLoop_tracks (h : List.Forall₂ (Tracks c d s e) ms ms')
    (snapshot : RuleMatchSnapshot) (matched : Bool) (gs : BitVec 8) (v : Cache)
    (hs : v.matchSource = s) (he : v.acceptEmpty = e) :
    ∃ b v', matchAnyHeadlessLoop snapshot ms matched gs (withCache c v) =
        (b, withCache c v') ∧
      matchAnyHeadlessLoop snapshot ms' matched gs (withCache d v) =
        (b, withCache d v') := by
  induction h generalizing matched gs v with
  | nil =>
    simp only [matchAnyHeadlessLoop, restore_withCache, withCache_deferred]
    cases matched <;> exact ⟨_, _, rfl, rfl⟩
  | cons hr _ ih =>
    obtain ⟨b, v', hm, hm', hs', he'⟩ := hr v.clearedMatch hs he
    simp only [matchAnyHeadlessLoop, resetRuleMatchCache_withCache, hm, hm', deferred_withCache]
    cases b with
    | false => exact ih _ _ v' hs' he'
    | true =>
      by_cases h0 : v'.deferred = 0
      · simp only [h0, reduceIte, restore_withCache]
        exact ⟨_, _, rfl, rfl⟩
      · simp only [h0, reduceIte]
        exact ih _ _ v' hs' he'

/-- A set that is merged is one default rule; otherwise it is not merged with other IP sets. -/
theorem mergeableRuleIn_mapSetsOf (f : (Addr → Bool) → Addr → Bool) (rules : RuleSet) :
    (∃ g, rules = [.default g false]) ∨
      mergeableRuleIn rules = none ∧ mergeableRuleIn (mapSetsOf f rules) = none := by
  match rules with
  | [] => exact .inr ⟨rfl, rfl⟩
  | [.default g false] => exact .inl ⟨g, rfl⟩
  | [.default g true] => exact .inr ⟨rfl, rfl⟩
  | [.logical mode rules invert] => exact .inr ⟨rfl, rfl⟩
  | first :: second :: rest => cases first <;> exact .inr ⟨rfl, rfl⟩

/-- The cache before each set of a reference. -/
def RuleSetItem.prepared (item : RuleSetItem) : Cache :=
  ⟨item.ipCidrMatchSource, item.ipCidrAcceptEmpty, false, false, false, false, 0⟩

theorem prepareNestedMatch_withCache (item : RuleSetItem) (v : Cache) :
    item.prepareNestedMatch (withCache c v) = withCache c item.prepared :=
  rfl

section Redirect

variable (hd : d = redirect c addr addresses response)

include hd

theorem PlainItem.isMatch_redirect {item : PlainItem} (hr : item.readsResponse = false)
    (hde : item.readsDestination = false) : item.isMatch d = item.isMatch c := by
  subst hd
  cases item with
  | responseRcode => cases hr
  | responseRecord => cases hr
  | ipVersion => cases hde
  | preferredBy => cases hde
  | _ => rfl

variable {f : (Addr → Bool) → Addr → Bool}

theorem groupMatch_redirect (g : HeadlessGroups) (v : Cache)
    (hse : ∀ ipSet ∈ g.destinationIPSets, ipCIDRItemMatch (f ipSet) false (withCache d v) =
        ipCIDRItemMatch ipSet false (withCache c v)) :
    (g.mapSets f).toItemGroups.groupMatch (withCache d v) =
      g.toItemGroups.groupMatch (withCache c v) := by
  have hs : ∀ item : SourceAddressItem,
      item.isMatch (withCache d v) = item.isMatch (withCache c v) := fun item => by
    subst hd
    cases item <;> rfl
  have ha : ((g.mapSets f).toItemGroups.destinationIPCIDRItems.any fun item =>
      item.isMatch (withCache d v)) =
        g.toItemGroups.destinationIPCIDRItems.any fun item => item.isMatch (withCache c v) := by
    simp only [HeadlessGroups.toItemGroups, HeadlessGroups.mapSets, List.any_map]
    rw [Bool.eq_iff_iff, List.any_eq_true, List.any_eq_true]
    refine exists_congr fun ipSet => and_congr_right fun hm => ?_
    exact eq_iff_iff.mp (hse ipSet hm)
  have he : (g.mapSets f).toItemGroups.destinationIPCIDRItems.isEmpty =
      g.toItemGroups.destinationIPCIDRItems.isEmpty := by
    simp [HeadlessGroups.toItemGroups, HeadlessGroups.mapSets]
  simp only [groupMatch, destinationIPCIDRMatchesSource,
    destinationIPCIDRMatchesDestination, ha, he]
  simp only [HeadlessGroups.toItemGroups, HeadlessGroups.mapSets, hs]
  subst hd
  rfl

variable {g : HeadlessGroups}

theorem plainItemsMatch_redirect (hg : ∀ item ∈ g.items, item.readsDestination = false)
    (v : Cache) :
    (g.mapSets f).toItemGroups.plainItemsMatch (withCache d v) =
      g.toItemGroups.plainItemsMatch (withCache c v) := by
  subst hd
  rw [Bool.eq_iff_iff, plainItemsMatch, plainItemsMatch, List.all_eq_true, List.all_eq_true]
  refine forall₂_congr fun item hm => ?_
  rw [← PlainItem.isMatch_redirect rfl (g.items_readsResponse item hm) (hg item hm)]
  rfl

theorem defersDestination_redirect (g : HeadlessGroups) (f : (Addr → Bool) → Addr → Bool)
    (v : Cache) : (g.mapSets f).toItemGroups.defersDestination (withCache d v) =
      g.toItemGroups.defersDestination (withCache c v) := by
  subst hd
  simp only [defersDestination, HeadlessGroups.toItemGroups, HeadlessGroups.mapSets,
    List.isEmpty_map]
  rfl

theorem default_tracks (invert : Bool) (hg : ∀ item ∈ g.items, item.readsDestination = false)
    (hse : g.destinationIPSets = [] ∨ Leaf c d s e f) :
    Tracks c d s e (default g invert).matcher (default (g.mapSets f) invert).matcher := by
  intro v hs he
  have hgr : (g.mapSets f).toItemGroups.groupMatch (withCache d v) =
      g.toItemGroups.groupMatch (withCache c v) := by
    refine groupMatch_redirect hd g v fun ipSet hm => ?_
    rcases hse with hn | hle
    · rw [hn] at hm
      cases hm
    · exact hle v hs he ipSet
  simp only [matcher, abstractDefaultRuleMatch, matchInner, evaluateGroups_withCache,
    length_mapSets, defersDestination_redirect hd, hgr, plainItemsMatch_redirect hd hg,
    withCache_deferred, deferred_withCache]
  by_cases hem : g.toItemGroups.length = 0 ∧ (none : Option OuterMatcher).isNone = true
  · simp only [if_pos hem]
    exact ⟨true, v, rfl, rfl, hs, he⟩
  · simp only [if_neg hem]
    cases g.toItemGroups.plainItemsMatch _ <;>
      cases (g.toItemGroups.groupMatch (withCache c v)).done <;> cases invert <;>
        simp only [Bool.not_true, Bool.not_false, Bool.false_eq_true, reduceIte,
          withCache_deferred] <;>
        exact ⟨_, _, rfl, rfl, hs, he⟩

end Redirect

mutual

theorem HeadlessRule.tracks_of_hasSets (hd : d = redirect c addr addresses response) (s e : Bool) :
    (rule : HeadlessRule) → rule.Ordinary → rule.hasSets = false →
    Tracks c d s e rule.matcher (rule.mapSets f).matcher
  | .default groups invert, hord, hse => by
    have hn : groups.destinationIPSets = [] := by simpa [hasSets] using hse
    rw [HeadlessRule.Ordinary] at hord
    rw [mapSets]
    exact default_tracks hd invert hord (.inl hn)
  | .logical mode rules invert, hord, hse => by
    rw [hasSets] at hse
    rw [HeadlessRule.Ordinary] at hord
    rw [mapSets, matcher, matcher]
    exact logical_tracks mode invert (tracks_of_haveSets hd false false rules hord hse)

theorem HeadlessRule.tracks_of_haveSets (hd : d = redirect c addr addresses response) (s e : Bool) :
    (rules : List HeadlessRule) → AllOrdinary rules → haveSets rules = false →
    List.Forall₂ (Tracks c d s e) (matchers rules) (matchers (mapSetsOf f rules))
  | [], _, _ => .nil
  | rule :: rules, hord, hsets => by
    rw [haveSets, or_eq_false_iff] at hsets
    rw [HeadlessRule.AllOrdinary] at hord
    rw [mapSetsOf]
    exact .cons (tracks_of_hasSets hd s e rule hord.1 hsets.1)
      (tracks_of_haveSets hd s e rules hord.2 hsets.2)

end

section Sets

variable (hd : d = redirect c addr addresses response) (hleaf : Leaf c d s e f)

include hd hleaf

theorem HeadlessRule.Flat.tracks {rule : HeadlessRule} (hflat : rule.Flat) (hord : rule.Ordinary) :
    Tracks c d s e rule.matcher (rule.mapSets f).matcher := by
  cases rule with
  | default groups invert =>
    rw [HeadlessRule.Ordinary] at hord
    rw [mapSets]
    exact default_tracks hd invert hord (.inr hleaf)
  | logical mode rules invert => exact tracks_of_hasSets hd s e _ hord hflat

section

variable (rules : RuleSet) (hflat : ∀ rule ∈ rules, rule.Flat)
  (hord : HeadlessRule.AllOrdinary rules)

include rules hflat hord

theorem matchers_tracks : List.Forall₂ (Tracks c d s e) (matchers rules)
      (matchers (mapSetsOf f rules)) := by
  induction rules with
  | nil => exact .nil
  | cons rule rules ih =>
    rw [List.forall_mem_cons] at hflat
    rw [HeadlessRule.AllOrdinary] at hord
    exact .cons (HeadlessRule.Flat.tracks hd hleaf hflat.1 hord.1) (ih hflat.2 hord.2)

theorem matchAnyHeadlessRule_tracks (v : Cache) (hs : v.matchSource = s) (he : v.acceptEmpty = e) :
    ∃ b v', matchAnyHeadlessRule rules (withCache c v) = (b, withCache c v') ∧
      matchAnyHeadlessRule (mapSetsOf f rules) (withCache d v) = (b, withCache d v') :=
  matchAnyHeadlessLoop_tracks (matchers_tracks hd hleaf rules hflat hord)
    (snapshotRuleMatch (withCache c v)) false 0 v hs he

end

theorem evaluateForMerge_tracks {g : HeadlessGroups}
    (hg : ∀ item ∈ g.items, item.readsDestination = false) (v : Cache) (hs : v.matchSource = s)
    (he : v.acceptEmpty = e) :
    ∃ r v', g.toItemGroups.evaluateForMerge (withCache c v) = (r, withCache c v') ∧
      (g.mapSets f).toItemGroups.evaluateForMerge (withCache d v) = (r, withCache d v') := by
  simp only [evaluateForMerge, evaluateGroups_withCache, defersDestination_redirect hd,
    plainItemsMatch_redirect hd hg, groupMatch_redirect hd g v fun ipSet _ => hleaf v hs he ipSet]
  cases g.toItemGroups.plainItemsMatch _ <;> exact ⟨_, _, rfl, rfl⟩

end Sets

variable (hd : d = redirect c addr addresses response)

include hd

variable {item : RuleSetItem}

theorem RuleSetItem.matchSets_tracks
    (hle : Leaf c d item.ipCidrMatchSource item.ipCidrAcceptEmpty f) (snapshot : RuleMatchSnapshot)
    (outer : RuleGroupMatch) {sets : List RuleSet}
    (hflat : ∀ ruleSet ∈ sets, ∀ rule ∈ ruleSet, rule.Flat)
    (hord : ∀ ruleSet ∈ sets, HeadlessRule.AllOrdinary ruleSet) (matched : Bool) (gs : BitVec 8)
    (v : Cache) : ∃ b v', item.matchSets snapshot outer sets matched gs (withCache c v) =
        (b, withCache c v') ∧
      (item.mapSets f).matchSets snapshot outer (sets.map (mapSetsOf f)) matched
        gs (withCache d v) = (b, withCache d v') := by
  have hp (b : InboundContext) (v : Cache) :
      (item.mapSets f).prepareNestedMatch (withCache b v) = withCache b item.prepared := rfl
  induction sets generalizing matched gs v with
  | nil =>
    simp only [matchSets, List.map_nil, restore_withCache, withCache_deferred]
    cases matched <;> exact ⟨_, _, rfl, rfl⟩
  | cons rules sets ih =>
    rw [List.forall_mem_cons] at hflat hord
    rcases mergeableRuleIn_mapSetsOf f rules with ⟨g, rfl⟩ | ⟨hn, hn'⟩
    · have hg := hord.1
      rw [HeadlessRule.AllOrdinary, HeadlessRule.Ordinary] at hg
      obtain ⟨⟨groups, b⟩, v', hm, hm'⟩ := evaluateForMerge_tracks hd hle hg.1 item.prepared rfl rfl
      have hme : mergeableRuleIn [default g false] = some g.toItemGroups := rfl
      have hme' : mergeableRuleIn (mapSetsOf f [.default g false]) =
          some (g.mapSets f).toItemGroups := rfl
      simp only [List.map_cons, matchSets, hp, prepareNestedMatch_withCache,
        hme, hme', hm, hm', deferred_withCache, restore_withCache, withCache_deferred]
      split
      · split
        · exact ⟨_, _, rfl, rfl⟩
        · exact ih hflat.2 hord.2 _ _ v'
      · exact ih hflat.2 hord.2 _ _ v'
    · obtain ⟨b, v', hm, hm'⟩ :=
        matchAnyHeadlessRule_tracks hd hle rules hflat.1 hord.1 item.prepared rfl rfl
      simp only [List.map_cons, matchSets, hp, prepareNestedMatch_withCache,
        hn, hn', hm, hm', deferred_withCache, restore_withCache]
      split
      · split
        · split
          · exact ⟨_, _, rfl, rfl⟩
          · exact ih hflat.2 hord.2 _ _ v'
        · exact ih hflat.2 hord.2 _ _ v'
      · exact ih hflat.2 hord.2 _ _ item.prepared

/-- A match of flat sets and one of their images, with another destination. -/
theorem RuleSetItem.matchWithOuterGroups_tracks (hflat : item.Flat) (hord : item.Ordinary)
    (hle : Leaf c d item.ipCidrMatchSource item.ipCidrAcceptEmpty f) (outer : RuleGroupMatch) :
    Agrees (item.matchWithOuterGroups outer c) ((item.mapSets f).matchWithOuterGroups outer d) := by
  subst hd
  obtain ⟨b, v', hm, hm'⟩ := matchSets_tracks rfl hle (snapshotRuleMatch c) outer hflat
    hord false 0 (cacheOf c)
  have hc : item.matchWithOuterGroups outer c = (b, withCache c v') := hm
  have hm'' : (item.mapSets f).matchWithOuterGroups outer (redirect c addr addresses response) =
      (b, _) := hm'
  rw [hc, hm'']
  exact ⟨rfl, rfl⟩

end Tracks

/-! ### Flat sets -/

variable {c : InboundContext}

theorem ipCIDRItemMatch_of_hasAddress_eq_false (ipSet : Addr → Bool)
    (hs : c.ipCIDRMatchSource = false) (hc : hasAddress c = false) :
    ipCIDRItemMatch ipSet false c = c.ipCIDRAcceptEmpty := by
  unfold hasAddress at hc
  unfold ipCIDRItemMatch
  cases hr : c.destinationAddressMatchFromResponse with
  | true =>
    simp only [hr, reduceIte, not_eq_false'] at hc
    simp [hs, hc]
  | false =>
    simp only [hr, false_eq_true, reduceIte, or_eq_false_iff, not_eq_false'] at hc
    simp [hs, hc.1, hc.2]

theorem ipCIDRItemMatch_of_hasAddress (hs : c.ipCIDRMatchSource = false)
    (hc : hasAddress c) : ipCIDRItemMatch (fun _ => true) false c = true := by
  have ha (l : List Addr) : (l.any fun _ => true) = !l.isEmpty := by cases l <;> rfl
  unfold hasAddress at hc
  unfold ipCIDRItemMatch
  cases hr : c.destinationAddressMatchFromResponse with
  | true =>
    simp only [hr, reduceIte, not_eq_true'] at hc
    simp [hs, hc, ha]
  | false =>
    simp only [hr, false_eq_true, reduceIte, or_eq_true, not_eq_true'] at hc
    rcases hc with hc | hc <;> simp [hs, hc, ha]

mutual

theorem HeadlessRule.mapSets_id : (rule : HeadlessRule) → rule.mapSets id = rule
  | .default groups invert => by rw [mapSets, HeadlessGroups.mapSets, List.map_id]
  | .logical mode rules invert => by rw [mapSets, mapSetsOf_id rules]

theorem HeadlessRule.mapSetsOf_id : (rules : List HeadlessRule) →
    mapSetsOf id rules = rules
  | [] => rfl
  | rule :: rules => by
    rw [mapSetsOf, mapSets_id rule, mapSetsOf_id rules]

end

theorem RuleSetItem.mapSets_id (item : RuleSetItem) : item.mapSets id = item := by
  rw [mapSets, List.map_congr_left fun rules _ => mapSetsOf_id rules, List.map_id']

theorem RuleSetItem.Flat.reachesNested {item : RuleSetItem} (hflat : item.Flat)
    (hord : item.Ordinary) : item.ReachesNested where
  source := by
    intro hsrc outer c addr addresses response
    have hleaf : Leaf c (redirect c addr addresses response) item.ipCidrMatchSource
        item.ipCidrAcceptEmpty id := by
      intro v hs _ ipSet
      have hf (b : InboundContext) : (withCache b v).ipCIDRMatchSource = true := hs.trans hsrc
      simp only [ipCIDRItemMatch, hf, Bool.or_true, reduceIte]
      rfl
    have h := matchWithOuterGroups_tracks rfl hflat hord hleaf outer
    rwa [mapSets_id] at h
  empty := by
    intro hsrc hemp outer c addr addresses response hc hd
    refine matchWithOuterGroups_tracks rfl hflat hord (fun v hs he ipSet => ?_) outer
    have hf (b : InboundContext) : (withCache b v).ipCIDRMatchSource = false := hs.trans hsrc
    have hl := ipCIDRItemMatch_of_hasAddress (hf (redirect c addr addresses response)) hd
    have hr := ipCIDRItemMatch_of_hasAddress_eq_false ipSet (hf c) hc
    rw [hl, hr]
    exact (he.trans hemp).symm

/-! ### Shapes -/

/-- The items of a default rule of a shape: whether it has IP sets. -/
def HeadlessGroups.skeleton (g : HeadlessGroups) : HeadlessGroups :=
  { destinationIPSets := if g.destinationIPSets.isEmpty then [] else [fun _ => true] }

mutual

/-- The shape of a rule: its logical rules, where it is inverted, and which default rules have IP
sets. -/
def HeadlessRule.skeleton : HeadlessRule → HeadlessRule
  | .default groups invert => .default groups.skeleton invert
  | .logical mode rules invert => .logical mode (HeadlessRule.skeletons rules) invert

/-- The shapes of the rules of a list. -/
def HeadlessRule.skeletons : List HeadlessRule → List HeadlessRule
  | [] => []
  | rule :: rules => HeadlessRule.skeleton rule :: HeadlessRule.skeletons rules

end

/-- Two references of one shape with the same flags. -/
structure RuleSetItem.SameShape (item item' : RuleSetItem) : Prop where
  setList : item.setList.map HeadlessRule.skeletons = item'.setList.map HeadlessRule.skeletons
  ipCidrMatchSource : item.ipCidrMatchSource = item'.ipCidrMatchSource
  ipCidrAcceptEmpty : item.ipCidrAcceptEmpty = item'.ipCidrAcceptEmpty

mutual

theorem HeadlessRule.hasSets_skeleton : (rule : HeadlessRule) →
    rule.skeleton.hasSets = rule.hasSets
  | .default groups invert => by
    rw [skeleton, hasSets, hasSets, HeadlessGroups.skeleton]
    cases groups.destinationIPSets with
    | nil => rfl
    | cons => rfl
  | .logical mode rules invert => by
    rw [skeleton, hasSets, hasSets, haveSets_skeletons rules]

theorem HeadlessRule.haveSets_skeletons : (rules : List HeadlessRule) →
    haveSets (skeletons rules) = haveSets rules
  | [] => rfl
  | rule :: rules => by
    rw [skeletons, haveSets, haveSets, hasSets_skeleton rule, haveSets_skeletons rules]

end

theorem HeadlessRule.flat_skeleton (rule : HeadlessRule) : rule.skeleton.Flat ↔ rule.Flat := by
  cases rule with
  | default groups invert => exact Iff.rfl
  | logical mode rules invert =>
    rw [skeleton, HeadlessRule.Flat, HeadlessRule.Flat, haveSets_skeletons]

theorem HeadlessRule.skeletons_eq_map (rules : List HeadlessRule) :
    skeletons rules = rules.map skeleton := by
  induction rules with
  | nil => rfl
  | cons rule rules ih => rw [skeletons, List.map_cons, ih]

theorem HeadlessRule.forall_flat_skeletons (rules : List HeadlessRule) :
    (∀ rule ∈ skeletons rules, rule.Flat) ↔ ∀ rule ∈ rules, rule.Flat := by
  simp [skeletons_eq_map, flat_skeleton]

theorem RuleSetItem.SameShape.flat_iff {item it' : RuleSetItem} (h : item.SameShape it') :
    item.Flat ↔ it'.Flat := by
  have hs (item : RuleSetItem) : item.Flat ↔
      ∀ ruleSet ∈ item.setList.map skeletons, ∀ rule ∈ ruleSet, rule.Flat := by
    simp [RuleSetItem.Flat, forall_flat_skeletons]
  rw [hs item, hs it', h.setList]

/-! ### Items that fill a shape -/

/-- A rule of the shape of another one, with the items of a headless rule and IP sets that have all
addresses. -/
structure HeadlessRule.Fills (rule' rule : HeadlessRule) : Prop where
  skeleton : rule'.skeleton = rule.skeleton
  ordinary : rule'.Ordinary
  mapSets : rule'.mapSets (fun _ _ => true) = rule'

/-- The same for the rules of a list. -/
structure HeadlessRule.FillAll (rules' rules : List HeadlessRule) : Prop where
  skeletons : HeadlessRule.skeletons rules' = HeadlessRule.skeletons rules
  ordinary : HeadlessRule.AllOrdinary rules'
  mapSets : HeadlessRule.mapSetsOf (fun _ _ => true) rules' = rules'

namespace HeadlessRule

theorem FillAll.nil : FillAll [] [] := ⟨rfl, trivial, rfl⟩

variable {rules rules' : List HeadlessRule}

theorem FillAll.cons {rule rule' : HeadlessRule} (h : rule'.Fills rule)
    (hr : FillAll rules' rules) : FillAll (rule' :: rules') (rule :: rules) where
  skeletons := by
    rw [HeadlessRule.skeletons, HeadlessRule.skeletons, h.skeleton, hr.skeletons]
  ordinary := ⟨h.ordinary, hr.ordinary⟩
  mapSets := by rw [mapSetsOf, h.mapSets, hr.mapSets]

theorem FillAll.logical (h : FillAll rules' rules) (mode : LogicalType) (invert : Bool) :
    (logical mode rules' invert).Fills (.logical mode rules invert) where
  skeleton := by rw [skeleton, skeleton, h.skeletons]
  ordinary := by
    rw [Ordinary]
    exact h.ordinary
  mapSets := by rw [HeadlessRule.mapSets, h.mapSets]

/-- Items that match where there is a host name, or nowhere, whatever the IP sets do. -/
def constGroups (hasSets value : Bool) : HeadlessGroups where
  items := if value then [] else [.network []]
  destinationAddressItems := [.domain fun _ => true]
  destinationIPSets := if hasSets then [fun _ => true] else []
  items_readsResponse := by cases value <;> simp [PlainItem.readsResponse]

theorem constGroups_fills (groups : HeadlessGroups) (value invert : Bool) :
    (default (constGroups (!groups.destinationIPSets.isEmpty) value) invert).Fills
      (.default groups invert) where
  skeleton := by
    rw [skeleton, skeleton, HeadlessGroups.skeleton, HeadlessGroups.skeleton, constGroups]
    cases groups.destinationIPSets <;> rfl
  ordinary := by
    rw [Ordinary, constGroups]
    cases value <;> simp [PlainItem.readsDestination]
  mapSets := by
    rw [mapSets, HeadlessGroups.mapSets, constGroups]
    cases groups.destinationIPSets <;> rfl

open HeadlessGroups

theorem denote_constGroups (hasSets value invert : Bool) (hc : c.domainHost ≠ "") :
    (default (constGroups hasSets value) invert).denote c = xor value invert := by
  have hdo : (DomainItem.domain fun _ => true).isMatch c = true := by
    simp [DomainItem.isMatch, hc]
  rw [denote, defaultDenote, if_neg (by simp [constGroups, toItemGroups, length])]
  congr 1
  cases value with
  | false =>
    simp [innerDenote, plainItemsMatch, constGroups, toItemGroups, PlainItem.isMatch]
  | true =>
    have hst : c.ipCIDRMatchSource = true →
        (AddressItem.ipCIDR fun _ => true).isMatch c = true := by
      intro hs
      simp [AddressItem.isMatch, ipCIDRItemMatch, hs]
    cases hasSets <;> cases hs : c.ipCIDRMatchSource <;>
      simp_all [innerDenote, plainItemsMatch, constGroups, toItemGroups,
        groupsHold, requires, satisfies]

theorem rulesDenote_eq_map (mode : LogicalType) (values : List (InboundContext → Bool))
    (c : InboundContext) : rulesDenote mode values c = match mode with
      | .and => (values.map fun v => v (below c)).all id
      | .or => (values.map fun v => v (below c)).any id := by
  cases mode with
  | and =>
    rw [List.all_map]
    rfl
  | or =>
    rw [List.any_map]
    rfl

mutual

/-- Items with which a rule has a given value where there is a host name. -/
theorem exists_const : (rule : HeadlessRule) → rule.Populated → (value : Bool) →
    ∃ rule' : HeadlessRule, rule'.Fills rule ∧ ∀ c : InboundContext, c.domainHost ≠ "" →
      rule'.denote c = value
  | .default groups invert, _, value =>
    ⟨_, constGroups_fills groups (xor value invert) invert, fun c hc => by
      rw [denote_constGroups _ _ _ hc, Bool.xor_assoc, Bool.xor_self, Bool.xor_false]⟩
  | .logical mode rules invert, hrs, value => by
    rw [Populated] at hrs
    obtain ⟨rules', hf, hv⟩ := exists_consts rules hrs.2 (xor value invert)
    refine ⟨.logical mode rules' invert, hf.logical mode invert, fun c hc => ?_⟩
    have hl : rules.length ≠ 0 := fun h => hrs.1 (List.length_eq_zero_iff.mp h)
    have hde : rulesDenote mode (denotes rules') c = xor value invert := by
      rw [rulesDenote_eq_map, hv (below c) hc]
      cases mode <;> simp [hl]
    rw [denote, logicalDenote, hde, Bool.xor_assoc, Bool.xor_self, Bool.xor_false]

theorem exists_consts : (rules : List HeadlessRule) → AllPopulated rules → (value : Bool) →
    ∃ rules', FillAll rules' rules ∧ ∀ c : InboundContext, c.domainHost ≠ "" →
      (denotes rules').map (fun v => v c) = List.replicate rules.length value
  | [], _, _ => ⟨[], .nil, fun _ _ => rfl⟩
  | rule :: rules, hrs, value => by
    obtain ⟨rule', hf, hru⟩ := exists_const rule hrs.1 value
    obtain ⟨rules', hfi, hr⟩ := exists_consts rules hrs.2 value
    refine ⟨rule' :: rules', hfi.cons hf, fun c hc => ?_⟩
    rw [denotes, List.map_cons, hru c hc, hr c hc, List.length_cons, List.replicate_succ]

end

theorem exists_noneHold (rules : List HeadlessRule) (hrs : AllPopulated rules) :
    ∃ rules', FillAll rules' rules ∧ ∀ c : InboundContext, c.domainHost ≠ "" →
      ((denotes rules').any fun v => v c) = false := by
  obtain ⟨rules', hf, hv⟩ := exists_consts rules hrs false
  refine ⟨rules', hf, fun c hc => ?_⟩
  have h := congrArg (fun l => l.any id) (hv c hc)
  simpa [Function.comp_def] using h

/-- Items with which a default rule that has IP sets asks for an address only. -/
def addressGroups : HeadlessGroups where
  destinationIPSets := [fun _ => true]

theorem addressGroups_fills {groups : HeadlessGroups} (hsets : groups.destinationIPSets ≠ [])
    (invert : Bool) : (default addressGroups invert).Fills (.default groups invert) where
  skeleton := by
    rw [skeleton, skeleton, HeadlessGroups.skeleton, HeadlessGroups.skeleton,
      List.isEmpty_eq_false_iff.mpr hsets]
    rfl
  ordinary := by simp [Ordinary, addressGroups]
  mapSets := rfl

theorem denote_addressGroups (invert : Bool) (c : InboundContext) :
    (default addressGroups invert).denote (below c) = xor (hasAddress c) invert := by
  have hs : (below c).ipCIDRMatchSource = false := rfl
  have hle : (AddressItem.ipCIDR fun _ => true).isMatch (below c) = hasAddress c := by
    cases ha : hasAddress c with
    | false => exact ipCIDRItemMatch_of_hasAddress_eq_false _ hs ha
    | true => exact ipCIDRItemMatch_of_hasAddress hs ha
  simp [denote, defaultDenote, innerDenote, addressGroups, toItemGroups,
    length, plainItemsMatch, groupsHold, requires, satisfies, hs, hle]

mutual

/-- Items with which a rule that has IP sets tells a destination with an address from one
without, below a logical rule. -/
theorem exists_separating : (rule : HeadlessRule) → rule.Populated → rule.hasSets = true →
    ∃ (rule' : HeadlessRule) (flip : Bool), rule'.Fills rule ∧
      ∀ c : InboundContext, c.domainHost ≠ "" → rule'.denote (below c) = xor (hasAddress c) flip
  | .default groups invert, _, hse =>
    ⟨_, invert, addressGroups_fills (by simpa [hasSets] using hse) invert,
      fun c _ => denote_addressGroups invert c⟩
  | .logical mode rules invert, hrs, hse => by
    rw [Populated] at hrs
    rw [hasSets] at hse
    obtain ⟨rules', flip, hf, hv⟩ := exists_separatings mode rules hrs.2 hse
    refine ⟨.logical mode rules' invert, xor flip invert, hf.logical mode invert, fun c hc => ?_⟩
    have hde : rulesDenote mode (denotes rules') (below c) = xor (hasAddress c) flip :=
      hv c hc
    rw [denote, logicalDenote, hde, xor_assoc]

theorem exists_separatings (mode : LogicalType) : (rules : List HeadlessRule) →
    AllPopulated rules → haveSets rules = true →
    ∃ rules' flip, FillAll rules' rules ∧ ∀ c : InboundContext, c.domainHost ≠ "" →
      rulesDenote mode (denotes rules') c = xor (hasAddress c) flip
  | [], _, hsets => by cases hsets
  | rule :: rules, hrs, hsets => by
    -- The rules beside the one with IP sets have the value that decides nothing.
    let neutral := match mode with
      | .and => true
      | .or => false
    cases hh : rule.hasSets with
    | true =>
      obtain ⟨rule', flip, hf, hv⟩ := exists_separating rule hrs.1 hh
      obtain ⟨rules', hfi, hr⟩ := exists_consts rules hrs.2 neutral
      refine ⟨rule' :: rules', flip, hfi.cons hf, fun c hc => ?_⟩
      rw [rulesDenote_eq_map, denotes, List.map_cons, hv c hc, hr (below c) hc]
      cases mode <;> simp [neutral]
    | false =>
      obtain ⟨rule', hf, hv⟩ := exists_const rule hrs.1 neutral
      have hr : haveSets rules = true := by simpa [haveSets, hh] using hsets
      obtain ⟨rules', flip, hfi, hs⟩ := exists_separatings mode rules hrs.2 hr
      refine ⟨rule' :: rules', flip, hfi.cons hf, fun c hc => ?_⟩
      have ht := hs c hc
      rw [rulesDenote_eq_map] at ht
      rw [rulesDenote_eq_map, denotes, List.map_cons, hv (below c) hc]
      cases mode <;> simpa [neutral] using ht

end

theorem exists_separatingSet (rules : RuleSet) (hrs : AllPopulated rules)
    (hflat : ¬∀ rule ∈ rules, rule.Flat) :
    ∃ rules' flip, FillAll rules' rules ∧ ∀ c : InboundContext, c.domainHost ≠ "" →
      ((denotes rules').any fun v => v c) = xor (hasAddress c) flip := by
  induction rules with
  | nil => exact absurd (fun _ h => absurd h List.not_mem_nil) hflat
  | cons rule rules ih =>
    rw [List.forall_mem_cons, not_and_or] at hflat
    rw [AllPopulated] at hrs
    by_cases hh : rule.Flat
    · obtain ⟨rule', hf, hv⟩ := exists_const rule hrs.1 false
      obtain ⟨rules', flip, hfi, hr⟩ := ih hrs.2 (hflat.resolve_left fun h => h hh)
      refine ⟨rule' :: rules', flip, hfi.cons hf, fun c hc => ?_⟩
      rw [denotes, List.any_cons, hv c hc, hr c hc, Bool.false_or]
    · cases rule with
      | default groups invert => exact absurd trivial hh
      | logical mode below invert =>
        have hp := hrs.1
        rw [Populated] at hp
        obtain ⟨below', flip, hf, hv⟩ :=
          exists_separatings mode below hp.2 (by simpa [Flat] using hh)
        obtain ⟨rules', hfi, hr⟩ := exists_noneHold rules hrs.2
        refine ⟨.logical mode below' invert :: rules', xor flip invert,
          hfi.cons (hf.logical mode invert), fun c hc => ?_⟩
        rw [denotes, List.any_cons, hr c hc, Bool.or_false, denote, logicalDenote, hv c hc,
          xor_assoc]

end HeadlessRule

namespace RuleSetItem

variable (item : RuleSetItem)

theorem mergedGroupsHold_empty (inn : ItemGroups) (c nested : InboundContext) :
    mergedGroupsHold {} c inn nested = inn.groupsHold nested := by
  have hr (G : Group) : ({} : ItemGroups).requires c G = false := by
    cases G <;> simp [requires]
  have hs (G : Group) : ({} : ItemGroups).satisfies c G = false := by
    cases G <;> simp [satisfies]
  rw [← done_mergeWith_eq_mergedGroupsHold, ← done_eq_groupsHold, RuleGroupMatch.mergeWith_ofGroups]
  simp [hr, hs]

variable {rules : RuleSet}

/-- A set of rules that do not hold does not hold, for a default rule without other items. -/
theorem setDenote_eq_false
    (h : ((denotes rules).any fun v => v (item.nested c)) = false) :
    item.setDenote {} c rules = false := by
  rcases mergeableRuleIn_mapSetsOf id rules with ⟨g, rfl⟩ | ⟨hn, -⟩
  · have hr : defaultDenote g.toItemGroups none false (item.nested c) = false := by
      simpa [HeadlessRule.denotes, HeadlessRule.denote] using h
    unfold defaultDenote at hr
    split at hr
    · cases hr
    · rw [Bool.xor_false] at hr
      have hm : mergeableRuleIn [default g false] = some g.toItemGroups := rfl
      rw [setDenote, hm]
      simp only [mergedGroupsHold_empty]
      exact hr
  · rw [setDenote, hn]
    exact (congrArg _ h).trans (and_false _)

theorem setDenote_of_not_flat (hflat : ¬∀ rule ∈ rules, rule.Flat) :
    item.setDenote {} c rules = (denotes rules).any fun v => v (item.nested c) := by
  rcases mergeableRuleIn_mapSetsOf id rules with ⟨g, rfl⟩ | ⟨hn, -⟩
  · refine absurd (fun rule hr => ?_) hflat
    rw [List.mem_singleton.mp hr]
    trivial
  · have hg : ({} : ItemGroups).groupsHold c = true := by
      rw [groupsHold_iff]
      intro G hG
      cases G <;> simp [requires] at hG
    rw [setDenote, hn]
    simp [hg]

section

variable (sets : List RuleSet) (hsets : ∀ ruleSet ∈ sets, HeadlessRule.AllPopulated ruleSet)

include sets hsets

theorem exists_noneHold :
    ∃ sets', List.Forall₂ HeadlessRule.FillAll sets' sets ∧ ∀ c : InboundContext,
      c.domainHost ≠ "" → (sets'.any fun ruleSet => item.setDenote {} c ruleSet) = false := by
  induction sets with
  | nil => exact ⟨[], .nil, fun _ _ => rfl⟩
  | cons rules sets ih =>
    rw [List.forall_mem_cons] at hsets
    obtain ⟨rules', hf, hv⟩ := HeadlessRule.exists_noneHold rules hsets.1
    obtain ⟨sets', hfi, hr⟩ := ih hsets.2
    refine ⟨rules' :: sets', .cons hf hfi, fun c hc => ?_⟩
    rw [List.any_cons, hr c hc, Bool.or_false]
    exact item.setDenote_eq_false (hv (item.nested c) hc)

/-- Items with which sets that are not flat tell a destination with an address from one without. -/
theorem exists_separating (hflat : ¬∀ ruleSet ∈ sets, ∀ rule ∈ ruleSet, rule.Flat) :
    ∃ sets' flip, List.Forall₂ HeadlessRule.FillAll sets' sets ∧ ∀ c : InboundContext,
      c.domainHost ≠ "" →
        (sets'.any fun ruleSet => item.setDenote {} c ruleSet) = xor (hasAddress c) flip := by
  induction sets with
  | nil => exact absurd (fun _ h => absurd h List.not_mem_nil) hflat
  | cons rules sets ih =>
    rw [List.forall_mem_cons] at hsets
    rw [List.forall_mem_cons, not_and_or] at hflat
    by_cases hh : ∀ rule ∈ rules, rule.Flat
    · obtain ⟨rules', hf, hv⟩ := HeadlessRule.exists_noneHold rules hsets.1
      obtain ⟨sets', flip, hfi, hr⟩ := ih hsets.2 (hflat.resolve_left fun h => h hh)
      refine ⟨rules' :: sets', flip, .cons hf hfi, fun c hc => ?_⟩
      rw [List.any_cons, item.setDenote_eq_false (hv (item.nested c) hc), hr c hc, Bool.false_or]
    · obtain ⟨rules', flip, hf, hv⟩ :=
        exists_separatingSet rules hsets.1 hh
      obtain ⟨sets', hfi, hr⟩ := item.exists_noneHold sets hsets.2
      refine ⟨rules' :: sets', flip, .cons hf hfi, fun c hc => ?_⟩
      have hh' : ¬∀ rule ∈ rules', rule.Flat := by
        rwa [← forall_flat_skeletons, hf.skeletons, forall_flat_skeletons]
      rw [List.any_cons, hr c hc, Bool.or_false, item.setDenote_of_not_flat hh']
      exact hv (item.nested c) hc

end

/-! ### Which shapes the flags reach -/

section Fill

variable {item} {sets' : List RuleSet}
  (h : List.Forall₂ HeadlessRule.FillAll sets' item.setList)

include h

theorem sameShape_of_fill : ({ item with setList := sets' } : RuleSetItem).SameShape item where
  setList := by
    revert h
    generalize item.setList = sets
    intro h
    induction h with
    | nil => rfl
    | cons hf _ ih => rw [List.map_cons, List.map_cons, hf.skeletons, ih]
  ipCidrMatchSource := rfl
  ipCidrAcceptEmpty := rfl

theorem ordinary_of_fill : ({ item with setList := sets' } : RuleSetItem).Ordinary :=
  ((List.forall₂_and_left _ _).mp (h.imp fun _ _ hf => ⟨hf.ordinary, hf⟩)).1

theorem mapSets_of_fill : ({ item with setList := sets' } : RuleSetItem).mapSets (fun _ _ => true) =
    { item with setList := sets' } := by
  have ha : ∀ ruleSet ∈ sets', mapSetsOf (fun _ _ => true) ruleSet = ruleSet :=
    ((List.forall₂_and_left _ _).mp (h.imp fun _ _ hf => ⟨hf.mapSets, hf⟩)).1
  rw [mapSets, List.map_congr_left ha, List.map_id']

end Fill

/-- A query for a domain, before it has an address. -/
def unresolved : InboundContext := { domain := "a" }

/-- The same with an address. -/
def resolved : InboundContext := redirect unresolved (.v4 0x0a000001#32) [] none

/-- In a shape that is not flat, some items see the destination with either flag. -/
theorem exists_not_reachesNested {item : RuleSetItem} (hi : item.Populated)
    (hfl : (item.ipCidrMatchSource || item.ipCidrAcceptEmpty) = true) (hflat : ¬item.Flat) :
    ∃ it' : RuleSetItem, it'.SameShape item ∧ it'.Ordinary ∧ ¬it'.ReachesNested := by
  obtain ⟨sets', flip, hf, hv⟩ := item.exists_separating item.setList hi hflat
  refine ⟨{ item with setList := sets' }, sameShape_of_fill hf, ordinary_of_fill hf, ?_⟩
  intro hr
  have hm (c : InboundContext) (hc : Clean c) (hdom : c.domainHost ≠ "") :
      ({ item with setList := sets' } : RuleSetItem).matchWithOuterGroups
        (.ofGroups (({} : ItemGroups).requires c) (({} : ItemGroups).satisfies c)) c =
          (xor (hasAddress c) flip, c) := by
    rw [matchWithOuterGroups_of_clean _ _ hc, ← hv c hdom]
    rfl
  have hun := hm unresolved ⟨rfl, rfl⟩ (by decide)
  have hre := hm resolved ⟨rfl, rfl⟩ (by decide)
  have ha : Agrees (xor (hasAddress unresolved) flip, unresolved)
      (xor (hasAddress resolved) flip, resolved) := by
    rw [← hun, ← hre]
    rcases eq_false_or_eq_true item.ipCidrMatchSource with hs | hs
    · exact hr.source hs _ unresolved (.v4 0x0a000001#32) [] none
    · have he := hr.empty hs (by simpa [hs] using hfl)
      rw [mapSets_of_fill hf] at he
      exact he _ unresolved (.v4 0x0a000001#32) [] none rfl rfl
  have hx := ha.1
  revert hx
  cases flip <;> decide

/-- One address, in a disjunction of a single rule. -/
def nestedAddress : RuleSet :=
  [.logical .or [.default { destinationIPSets := [(· == .v4 0x0a000001#32)] } false] false]

/-- A reference to the set that asks for the source address matches a connection to the address
from anywhere, and no other connection from the address. One that accepts an empty list of
addresses does not match without addresses. -/
theorem not_reachesNested :
    let source : RuleSetItem := { setList := [nestedAddress], ipCidrMatchSource := true }
    let empty : RuleSetItem := { setList := [nestedAddress], ipCidrAcceptEmpty := true }
    (source.Ordinary ∧ source.Populated ∧ ¬source.ReachesNested) ∧
      empty.Ordinary ∧ empty.Populated ∧ ¬empty.ReachesNested := by
  intro source empty
  have hord : HeadlessRule.AllOrdinary nestedAddress := by
    simp [nestedAddress, HeadlessRule.AllOrdinary, HeadlessRule.Ordinary]
  have hp : HeadlessRule.AllPopulated nestedAddress := by
    simp [nestedAddress, HeadlessRule.AllPopulated, HeadlessRule.Populated]
  refine ⟨⟨List.forall_mem_singleton.mpr hord, List.forall_mem_singleton.mpr hp,
    fun h => ?_⟩, List.forall_mem_singleton.mpr hord, List.forall_mem_singleton.mpr hp, fun h => ?_⟩
  · have ha := h.source rfl {} unresolved (.v4 0x0a000001#32) [] none
    exact absurd ha.1 (by decide +kernel)
  · have ha := h.empty rfl rfl {} unresolved (.v4 0x0a000001#32) [] none rfl rfl
    exact absurd ha.1 (by decide +kernel)

/-- The flags reach the items of all references of a shape just if it is flat. -/
theorem reachesNested_iff (item : RuleSetItem) (hitem : item.Populated) :
    (∀ item' : RuleSetItem, item'.SameShape item → item'.Ordinary → item'.ReachesNested) ↔
      ((item.ipCidrMatchSource || item.ipCidrAcceptEmpty) = true → item.Flat) := by
  constructor
  · intro ha hf
    by_contra hflat
    obtain ⟨item', hs, hord, hn⟩ := exists_not_reachesNested hitem hf hflat
    exact hn (ha item' hs hord)
  · intro hflat item' hs hord
    by_cases hf : (item.ipCidrMatchSource || item.ipCidrAcceptEmpty) = true
    · exact (hs.flat_iff.mpr (hflat hf)).reachesNested hord
    · -- Without flags there is nothing to reach.
      rw [not_eq_true, or_eq_false_iff, ← hs.ipCidrMatchSource, ← hs.ipCidrAcceptEmpty] at hf
      exact ⟨fun h => absurd (hf.1.symm.trans h) false_ne_true,
        fun _ h => absurd (hf.2.symm.trans h) false_ne_true⟩

/-- A flat reference that asks for the source address: there is a logical rule, but no `ip_cidr`
item below it. -/
theorem reachesNested_iff_example :
    let item : RuleSetItem := {
      setList := [[.default { destinationIPSets := [(· == .v4 0x0a000001#32)] } true,
        .logical .or [.default {} false, .default {} true] false]]
      ipCidrMatchSource := true }
    item.Populated ∧
      ∀ item' : RuleSetItem, item'.SameShape item → item'.Ordinary → item'.ReachesNested := by
  intro item
  have hi : item.Populated := by
    simp [item, RuleSetItem.Populated, HeadlessRule.AllPopulated, HeadlessRule.Populated]
  have hflat : item.Flat := by
    simp [item, RuleSetItem.Flat, HeadlessRule.Flat, HeadlessRule.haveSets,
      HeadlessRule.hasSets]
  exact ⟨hi, (reachesNested_iff item hi).mpr fun _ => hflat⟩

end RuleSetItem

end SingBox.Rule
