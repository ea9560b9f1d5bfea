import SingBox.DNS.Walk.Rules

/-!
# The fallback of the legacy DNS rules

In legacy mode a rule may check the addresses of the response to the query it routes. When it
rejects them the router walks on: it calls `matchDNS` again with the index of the rejected rule, and
the walk starts behind it. The options of the query start anew with each call, so what the
`route-options` rules in front of the rejected rule had set is lost for the next attempt.

Each action sets some of the options and leaves the others, and a later one wins. The next attempt
has the right options just if each option set in front of the rejected rule is set again behind it,
or was there from the beginning.
-/

namespace SingBox.DNS.LegacyFallback

open SingBox.Net SingBox.Adapter SingBox.DNS.Walk List Option

/-! ### Options -/

/-- The options of `RuleActionDNSRoute` and `RuleActionDNSRouteOptions` that legacy mode applies;
the strategy `0` is `C.DomainStrategyAsIS`. -/
structure RouteOptions where
  strategy : ℕ := 0
  disableCache : Bool := false
  rewriteTTL : Option ℕ := none
  timeout : ℤ := 0
  clientSubnet : Prefix := Prefix.zero
  removeClientSubnet : Bool := false
deriving DecidableEq

/-- What both actions do to the options of the query. -/
def applyOptions (options : DNSQueryOptions) (action : RouteOptions) : DNSQueryOptions :=
  let options :=
    if action.strategy ≠ 0 then { options with strategy := action.strategy } else options
  let options := if action.disableCache then { options with disableCache := true } else options
  let options := if action.rewriteTTL.isSome then
      { options with rewriteTTL := action.rewriteTTL }
    else options
  let options := if action.timeout > 0 then { options with timeout := action.timeout } else options
  let options := if action.clientSubnet.isValid then
      { options with clientSubnet := action.clientSubnet, removeClientSubnet := false }
    else options
  if action.removeClientSubnet then
    { options with clientSubnet := Prefix.zero, removeClientSubnet := true }
  else options

/-- The options that are set, with their values. -/
structure Patch where
  strategy : Option ℕ := none
  disableCache : Option Bool := none
  rewriteTTL : Option (Option ℕ) := none
  timeout : Option ℤ := none
  clientSubnet : Option (Prefix × Bool) := none
deriving DecidableEq

namespace Patch

/-- The options with what is set. -/
def apply (p : Patch) (options : DNSQueryOptions) : DNSQueryOptions :=
  { options with
    strategy := p.strategy.getD options.strategy
    disableCache := p.disableCache.getD options.disableCache
    rewriteTTL := p.rewriteTTL.getD options.rewriteTTL
    timeout := p.timeout.getD options.timeout
    clientSubnet := (p.clientSubnet.getD (options.clientSubnet, options.removeClientSubnet)).1
    removeClientSubnet :=
      (p.clientSubnet.getD (options.clientSubnet, options.removeClientSubnet)).2 }

/-- First `p` and then `q`: what `q` sets wins. -/
def andThen (p q : Patch) : Patch where
  strategy := q.strategy.or p.strategy
  disableCache := q.disableCache.or p.disableCache
  rewriteTTL := q.rewriteTTL.or p.rewriteTTL
  timeout := q.timeout.or p.timeout
  clientSubnet := q.clientSubnet.or p.clientSubnet

theorem getD_or {β : Type*} (x y : Option β) (own : β) :
    (y.or x).getD own = y.getD (x.getD own) := by
  cases y <;> rfl

theorem apply_andThen (p q : Patch) (options : DNSQueryOptions) :
    (p.andThen q).apply options = q.apply (p.apply options) := by
  simp only [apply, andThen, getD_or]

/-- An option that was set in front is set again behind, or has had this value before. -/
def Kept {β : Type*} (before behind : Option β) (own : β) : Prop :=
  before = none ∨ behind ≠ none ∨ before = some own

theorem kept_iff {β : Type*} (before behind : Option β) (own : β) :
    behind.getD (before.getD own) = behind.getD own ↔ Kept before behind own := by
  cases behind with
  | some x => simp [Kept]
  | none =>
    cases before with
    | none => simp [Kept]
    | some y => simp [Kept]

/-- Every option that was set in front is kept. -/
structure Restored (before behind : Patch) (options : DNSQueryOptions) : Prop where
  strategy : Kept before.strategy behind.strategy options.strategy
  disableCache : Kept before.disableCache behind.disableCache options.disableCache
  rewriteTTL : Kept before.rewriteTTL behind.rewriteTTL options.rewriteTTL
  timeout : Kept before.timeout behind.timeout options.timeout
  clientSubnet : Kept before.clientSubnet behind.clientSubnet
    (options.clientSubnet, options.removeClientSubnet)

theorem restored_iff (before behind : Patch) (options : DNSQueryOptions) :
    behind.apply options = behind.apply (before.apply options) ↔
      Restored before behind options := by
  have hf : behind.apply options = behind.apply (before.apply options) ↔
      behind.strategy.getD options.strategy =
          behind.strategy.getD (before.strategy.getD options.strategy) ∧
        behind.disableCache.getD options.disableCache =
          behind.disableCache.getD (before.disableCache.getD options.disableCache) ∧
        behind.rewriteTTL.getD options.rewriteTTL =
          behind.rewriteTTL.getD (before.rewriteTTL.getD options.rewriteTTL) ∧
        behind.timeout.getD options.timeout =
          behind.timeout.getD (before.timeout.getD options.timeout) ∧
        behind.clientSubnet.getD (options.clientSubnet, options.removeClientSubnet) =
          behind.clientSubnet.getD
            (before.clientSubnet.getD (options.clientSubnet, options.removeClientSubnet)) := by
    rw [Prod.ext_iff]
    simp [apply, DNSQueryOptions.mk.injEq]
  rw [hf, eq_comm, kept_iff, eq_comm, kept_iff, eq_comm, kept_iff, eq_comm, kept_iff,
    eq_comm, kept_iff]
  constructor <;>
    rintro ⟨hs, hc, httl, ht, hn⟩ <;>
    exact ⟨hs, hc, httl, ht, hn⟩

end Patch

/-- What an action sets. -/
def RouteOptions.patch (action : RouteOptions) : Patch where
  strategy := if action.strategy ≠ 0 then some action.strategy else none
  disableCache := if action.disableCache then some true else none
  rewriteTTL := action.rewriteTTL.map some
  timeout := if action.timeout > 0 then some action.timeout else none
  clientSubnet :=
    if action.removeClientSubnet then some (Prefix.zero, true)
    else if action.clientSubnet.isValid then some (action.clientSubnet, false) else none

theorem applyOptions_eq (options : DNSQueryOptions) (action : RouteOptions) :
    applyOptions options action = action.patch.apply options := by
  cases hc : action.disableCache <;> cases hr : action.removeClientSubnet <;>
    cases hn : action.clientSubnet.isValid <;> cases httl : action.rewriteTTL <;>
    by_cases hs : action.strategy = 0 <;> by_cases ht : action.timeout > 0 <;>
    simp [applyOptions, RouteOptions.patch, Patch.apply, hc, hr, hn, httl, hs, ht]

/-! ### Rules and walks -/

/-- The actions, as far as `matchDNS` tells them apart. -/
inductive LegacyAction where
  | route (server : String) (options : RouteOptions)
  | routeOptions (options : RouteOptions)
  | reject
  | predefined
  | other

/-- A rule with the answers of `WithAddressLimit` and, for a query, of `LegacyPreMatch`. -/
structure LegacyRule where
  withAddressLimit : Bool
  legacyPreMatch : InboundContext → Bool
  action : LegacyAction

/-- A transport, and whether its type is `C.DNSTypeFakeIP`. -/
structure Transport where
  tag : String
  isFakeIP : Bool := false
deriving DecidableEq

/-- What a walk reads besides the rules. `exchangeLegacy` allows fake addresses, and whether the
query asks for addresses depends on the message; `Lookup` does not allow them, and asks for
addresses. -/
structure Router where
  transports : String → Option Transport
  defaultTransport : Transport
  allowFakeIP : Bool
  isAddressQuery : Bool
  metadata : InboundContext

/-- The results of `matchDNS`, with the options it leaves. -/
structure Attempt where
  transport : Option Transport
  ruleIndex : Option ℕ
  options : DNSQueryOptions
deriving DecidableEq

/-- Whether an attempt is made again when its response is rejected: the walk has ended at a rule
with a transport, and the rule has a limit on addresses. -/
def Attempt.retries (a : Attempt) (rules : List LegacyRule) : Bool :=
  a.transport.isSome && (a.ruleIndex.bind (rules[·]?)).any LegacyRule.withAddressLimit

namespace Router

variable (r : Router)

/-- What the loop does with a rule. -/
inductive Effect where
  /-- The walk ends at the rule, with this transport and what its action sets. -/
  | stop (transport : Option Transport) (patch : RouteOptions)
  /-- The walk goes on with what the action sets. -/
  | pass (patch : RouteOptions)

/-- The body of the loop of `matchDNS`. The match sees the metadata of the query with a fresh rule
cache. -/
def effect (rule : LegacyRule) : Effect :=
  if rule.withAddressLimit && !r.isAddressQuery then .pass {}
  else if rule.legacyPreMatch
      { r.metadata.resetRuleCache with destinationAddressMatchFromResponse := false } then
    match rule.action with
    | .route server options =>
      match r.transports server with
      | none => .pass {}
      | some transport =>
        if transport.isFakeIP && !r.allowFakeIP then .pass {}
        else .stop (some transport)
          { options with disableCache := transport.isFakeIP || options.disableCache }
    | .routeOptions options => .pass options
    | .reject => .stop none {}
    | .predefined => .stop none {}
    | .other => .pass {}
  else .pass {}

/-- The loop of `matchDNS` over rules with their indices. -/
def matchFrom : List (LegacyRule × ℕ) → DNSQueryOptions → Attempt
  | [], options => ⟨some r.defaultTransport, none, options⟩
  | (rule, i) :: rules, options =>
    match r.effect rule with
    | .stop transport patch => ⟨transport, some i, applyOptions options patch⟩
    | .pass patch => matchFrom rules (applyOptions options patch)

/-- `matchDNS`; without an index the walk starts at the first rule. -/
def matchDNS (rules : List LegacyRule) (ruleIndex : Option ℕ) (options : DNSQueryOptions) :
    Attempt :=
  r.matchFrom (rules.zipIdx.drop (ruleIndex.elim 0 (· + 1))) options

/-- The attempt that follows `n` rejected ones. -/
def attempt (rules : List LegacyRule) (options : DNSQueryOptions) : ℕ → Option Attempt
  | 0 => some (r.matchDNS rules none options)
  | n + 1 => (attempt rules options n).bind fun a =>
    if a.retries rules then some (r.matchDNS rules a.ruleIndex options) else none

/-- The indices of the rules that were rejected before attempt `n`. -/
def rejected (rules : List LegacyRule) (options : DNSQueryOptions) : ℕ → List ℕ
  | 0 => []
  | n + 1 => rejected rules options n ++
    ((r.attempt rules options n).bind Attempt.ruleIndex).toList

/-- One walk over the rules without the rejected ones. -/
def expected (rules : List LegacyRule) (options : DNSQueryOptions) (n : ℕ) : Attempt :=
  r.matchFrom (rules.zipIdx.filter fun e => !(r.rejected rules options n).contains e.2) options

/-- Every attempt has the transport and the options of the walk over the rules that are left. -/
def KeepsOptions (rules : List LegacyRule) (options : DNSQueryOptions) : Prop :=
  ∀ n a, r.attempt rules options n = some a →
    a.transport = (r.expected rules options n).transport ∧
      a.options = (r.expected rules options n).options

/-! ### What a walk sets -/

/-- Whether the walk goes on behind a rule. -/
def passes (rule : LegacyRule) : Bool :=
  match r.effect rule with
  | .stop _ _ => false
  | .pass _ => true

/-- What the rules of a walk set, with the one that ends it. -/
def walkPatch : List (LegacyRule × ℕ) → Patch
  | [] => {}
  | (rule, _) :: rules =>
    match r.effect rule with
    | .stop _ options => options.patch
    | .pass options => options.patch.andThen (walkPatch rules)

/-- What the rules in front of an index set that do not end the walk. -/
def patchBefore (rules : List LegacyRule) (i : ℕ) : Patch :=
  r.walkPatch ((rules.zipIdx.take i).filter fun e => r.passes e.1)

/-- What the walk from an index on sets. -/
def patchFrom (rules : List LegacyRule) (i : ℕ) : Patch :=
  r.walkPatch (rules.zipIdx.drop i)

variable {r} {rules : List LegacyRule} {options : DNSQueryOptions}

theorem matchFrom_options (l : List (LegacyRule × ℕ)) (options : DNSQueryOptions) :
    (r.matchFrom l options).options = (r.walkPatch l).apply options := by
  induction l generalizing options with
  | nil => rfl
  | cons e l ih =>
    obtain ⟨rule, i⟩ := e
    rw [matchFrom, walkPatch]
    cases r.effect rule with
    | stop transport patch => exact applyOptions_eq options patch
    | pass patch =>
      dsimp only
      rw [ih, applyOptions_eq, Patch.apply_andThen]

theorem matchFrom_stop (l : List (LegacyRule × ℕ)) (options o' : DNSQueryOptions) :
    (r.matchFrom l options).transport = (r.matchFrom l o').transport ∧
      (r.matchFrom l options).ruleIndex = (r.matchFrom l o').ruleIndex := by
  induction l generalizing options o' with
  | nil => exact ⟨rfl, rfl⟩
  | cons e l ih =>
    obtain ⟨rule, i⟩ := e
    rw [matchFrom, matchFrom]
    cases r.effect rule with
    | stop transport patch => exact ⟨rfl, rfl⟩
    | pass patch => exact ih _ _

theorem matchFrom_append {xs : List (LegacyRule × ℕ)} (h : ∀ e ∈ xs, r.passes e.1 = true)
    (ys : List (LegacyRule × ℕ)) (options : DNSQueryOptions) :
    r.matchFrom (xs ++ ys) options = r.matchFrom ys ((r.walkPatch xs).apply options) := by
  induction xs generalizing options with
  | nil => rfl
  | cons e xs ih =>
    obtain ⟨rule, i⟩ := e
    obtain ⟨hr, hxs⟩ := forall_mem_cons.mp h
    rw [cons_append, matchFrom, walkPatch]
    rw [passes] at hr
    cases he : r.effect rule with
    | stop transport patch =>
      rw [he] at hr
      cases hr
    | pass patch =>
      dsimp only
      rw [ih hxs, applyOptions_eq, Patch.apply_andThen]

theorem exists_split_of_ruleIndex {l : List (LegacyRule × ℕ)} {i : ℕ}
    (h : (r.matchFrom l options).ruleIndex = some i) :
    ∃ mid rule rest, l = mid ++ (rule, i) :: rest ∧ (∀ e ∈ mid, r.passes e.1 = true) ∧
      r.passes rule = false := by
  induction l generalizing options with
  | nil => cases h
  | cons e l ih =>
    obtain ⟨rule, k⟩ := e
    rw [matchFrom] at h
    cases he : r.effect rule with
    | stop transport patch =>
      rw [he] at h
      obtain rfl := some.inj h
      exact ⟨[], rule, l, rfl, fun _ h => absurd h not_mem_nil, by rw [passes, he]⟩
    | pass patch =>
      rw [he] at h
      obtain ⟨mid, rule', rest, rfl, hm, hr⟩ := ih h
      refine ⟨(rule, k) :: mid, rule', rest, rfl, forall_mem_cons.mpr ⟨?_, hm⟩, hr⟩
      rw [passes, he]

/-! ### The attempts -/

variable {e : LegacyRule × ℕ}

theorem snd_of_getElem?_zipIdx {k : ℕ} (h : rules.zipIdx[k]? = some e) : e.2 = k := by
  rw [getElem?_zipIdx] at h
  obtain ⟨rule, -, rfl⟩ := map_eq_some_iff.mp h
  exact Nat.zero_add k

theorem snd_lt_of_mem_take {k : ℕ} (h : e ∈ rules.zipIdx.take k) : e.2 < k := by
  obtain ⟨j, hj⟩ := mem_iff_getElem?.mp h
  have hlt : j < k := (List.length_take_le k _).trans_lt' (List.getElem?_eq_some_iff.mp hj).1
  rw [getElem?_take_of_lt hlt] at hj
  rw [snd_of_getElem?_zipIdx hj]
  exact hlt

theorem le_snd_of_mem_drop {k : ℕ} (h : e ∈ rules.zipIdx.drop k) : k ≤ e.2 := by
  obtain ⟨j, hj⟩ := mem_iff_getElem?.mp h
  rw [getElem?_drop] at hj
  rw [snd_of_getElem?_zipIdx hj]
  exact Nat.le_add_right k j

/-- Attempt `n` walks from `k` on. The rules in front of `k` that would end the walk are the
rejected ones. -/
structure StartsAt (r : Router) (rules : List LegacyRule) (options : DNSQueryOptions) (n k : ℕ) :
    Prop where
  front : ((rules.zipIdx.take k).filter fun e => !(r.rejected rules options n).contains e.2) =
    (rules.zipIdx.take k).filter fun e => r.passes e.1
  bound : ∀ i ∈ r.rejected rules options n, i < k

/-- The walk from `k` on ends at the rule `i`: the next attempt walks from behind it. -/
theorem StartsAt.next {n k i : ℕ} (h : r.StartsAt rules options n k)
    (hr : r.rejected rules options (n + 1) = r.rejected rules options n ++ [i])
    (hi : (r.matchFrom (rules.zipIdx.drop k) options).ruleIndex = some i) :
    r.StartsAt rules options (n + 1) (i + 1) := by
  obtain ⟨mid, rule, rest, hs, hmid, hru⟩ := exists_split_of_ruleIndex hi
  have hidx : i = k + mid.length := by
    have hat : (rules.zipIdx.drop k)[mid.length]? = some (rule, i) := by
      rw [hs, getElem?_append_right (Nat.le_refl _), Nat.sub_self]
      rfl
    rw [getElem?_drop] at hat
    exact snd_of_getElem?_zipIdx hat
  have ht : rules.zipIdx.take (i + 1) = rules.zipIdx.take k ++ (mid ++ [(rule, i)]) := by
    rw [hidx, Nat.add_assoc, take_add, hs, take_append]
    simpa using hidx
  have hm : ∀ e ∈ mid, k ≤ e.2 ∧ e.2 < i := by
    intro e he
    refine ⟨le_snd_of_mem_drop (hs ▸ mem_append_left _ he), ?_⟩
    obtain ⟨j, hj⟩ := mem_iff_getElem?.mp he
    have hlt := (List.getElem?_eq_some_iff.mp hj).1
    have hat : (rules.zipIdx.drop k)[j]? = some e := by
      rw [hs, getElem?_append_left hlt, hj]
    rw [getElem?_drop] at hat
    rw [snd_of_getElem?_zipIdx hat]
    omega
  refine ⟨?_, ?_⟩
  · rw [hr, ht]
    simp only [filter_append]
    have ho : (rules.zipIdx.take k).filter
        (fun e => !(r.rejected rules options n ++ [i]).contains e.2) =
          (rules.zipIdx.take k).filter fun e => r.passes e.1 := by
      rw [← h.front]
      refine filter_congr fun e he => ?_
      have hlt := snd_lt_of_mem_take he
      have hne : e.2 ≠ i := by omega
      simp [hne]
    have hk : mid.filter (fun e => !(r.rejected rules options n ++ [i]).contains e.2) =
        mid.filter fun e => r.passes e.1 := by
      refine filter_congr fun e he => ?_
      obtain ⟨hge, hlt⟩ := hm e he
      have hn : e.2 ∉ r.rejected rules options n := fun hmem =>
        absurd (h.bound _ hmem) (Nat.not_lt.mpr hge)
      have hne : e.2 ≠ i := Nat.ne_of_lt hlt
      simp [hn, hne, hmid e he]
    rw [ho, hk]
    simp [hru]
  · intro j hj
    rw [hr] at hj
    rcases mem_append.mp hj with hj | hj
    · have hlt := h.bound j hj
      omega
    · rw [mem_singleton.mp hj]
      exact Nat.lt_succ_self i

variable {a : Attempt}

theorem exists_ruleIndex_of_retries (h : a.retries rules) : ∃ i, a.ruleIndex = some i := by
  rw [Attempt.retries, Bool.and_eq_true] at h
  cases hi : a.ruleIndex with
  | none => simp [hi] at h
  | some i => exact ⟨i, rfl⟩

theorem attempt_split {n : ℕ} (h : r.attempt rules options n = some a) :
    ∃ k, r.StartsAt rules options n k ∧ a = r.matchFrom (rules.zipIdx.drop k) options := by
  induction n generalizing a with
  | zero =>
    refine ⟨0, ⟨by simp, fun i hi => absurd hi not_mem_nil⟩, ?_⟩
    exact (some.inj h).symm
  | succ n ih =>
    rw [attempt] at h
    obtain ⟨b, hb, h⟩ := bind_eq_some_iff.mp h
    split_ifs at h with hr
    obtain rfl := some.inj h
    obtain ⟨i, hi⟩ := exists_ruleIndex_of_retries hr
    obtain ⟨k, hst, hw⟩ := ih hb
    refine ⟨i + 1, hst.next ?_ (hw ▸ hi), ?_⟩
    · rw [rejected, hb, bind_some, hi]
      rfl
    · rw [matchDNS, hi]
      rfl

/-- The walk over the rules that are left has the same end as an attempt, and its options have
passed the rules in front as well. -/
theorem expected_eq {n k : ℕ} (h : r.StartsAt rules options n k) : r.expected rules options n =
      r.matchFrom (rules.zipIdx.drop k) ((r.patchBefore rules k).apply options) := by
  have hb : (rules.zipIdx.drop k).filter
      (fun e => !(r.rejected rules options n).contains e.2) = rules.zipIdx.drop k := by
    refine filter_eq_self.mpr fun e he => ?_
    have hn : e.2 ∉ r.rejected rules options n := fun hm =>
      absurd (h.bound _ hm) (Nat.not_lt.mpr (le_snd_of_mem_drop he))
    simpa using hn
  have hs : rules.zipIdx.filter (fun e => !(r.rejected rules options n).contains e.2) =
      ((rules.zipIdx.take k).filter fun e => r.passes e.1) ++ rules.zipIdx.drop k := by
    rw [← h.front, ← hb, ← filter_append, take_append_drop]
  rw [expected, hs, matchFrom_append fun e he => (mem_filter.mp he).2]
  rfl

theorem attempt_succ {n i : ℕ} (ha : r.attempt rules options n = some a)
    (hr : a.retries rules) (hi : a.ruleIndex = some i) :
    r.attempt rules options (n + 1) = some (r.matchFrom (rules.zipIdx.drop (i + 1)) options) ∧
      r.StartsAt rules options (n + 1) (i + 1) := by
  obtain ⟨k, hst, hw⟩ := attempt_split ha
  refine ⟨?_, hst.next ?_ (hw ▸ hi)⟩
  · rw [attempt, ha, bind_some, if_pos hr, matchDNS, hi]
    rfl
  · rw [rejected, ha, bind_some, hi]
    rfl

/-- A walk from `k` on is as expected just if the options that were set in front are restored. -/
theorem asExpected_iff {n k : ℕ} (h : r.StartsAt rules options n k) :
    ((r.matchFrom (rules.zipIdx.drop k) options).transport =
          (r.expected rules options n).transport ∧
        (r.matchFrom (rules.zipIdx.drop k) options).options =
          (r.expected rules options n).options) ↔
      Patch.Restored (r.patchBefore rules k) (r.patchFrom rules k) options := by
  rw [expected_eq h, matchFrom_options, matchFrom_options, ← Patch.restored_iff]
  exact and_iff_right (matchFrom_stop _ _ _).1

/-- Every attempt is as expected just if after every rejection the options that were set in front
are restored. -/
theorem keepsOptions_iff (r : Router) (rules : List LegacyRule) (options : DNSQueryOptions) :
    r.KeepsOptions rules options ↔
      ∀ n a i, r.attempt rules options n = some a → a.retries rules = true → a.ruleIndex = some i →
          Patch.Restored (r.patchBefore rules (i + 1)) (r.patchFrom rules (i + 1)) options := by
  constructor
  · intro h n a i ha hr hi
    obtain ⟨hn, hst⟩ := attempt_succ ha hr hi
    exact (asExpected_iff hst).mp (h (n + 1) _ hn)
  · intro h n a ha
    cases n with
    | zero =>
      obtain rfl := some.inj ha
      have hst : r.StartsAt rules options 0 0 := ⟨by simp, fun i hi => absurd hi not_mem_nil⟩
      exact (asExpected_iff hst).mpr ⟨.inl rfl, .inl rfl, .inl rfl, .inl rfl, .inl rfl⟩
    | succ n =>
      rw [attempt] at ha
      obtain ⟨b, hb, hs⟩ := bind_eq_some_iff.mp ha
      split_ifs at hs with hr
      obtain ⟨i, hi⟩ := exists_ruleIndex_of_retries hr
      obtain ⟨hn, hst⟩ := attempt_succ hb hr hi
      rw [attempt, hb, bind_some, if_pos hr] at hn
      obtain rfl := some.inj (hs.symm.trans hn)
      exact (asExpected_iff hst).mpr (h n b i hb hr hi)

/-- A rule disables the cache, the next one routes with a limit on addresses, and the last one
routes. When the response is rejected, the last one is tried with the cache. -/
theorem not_keepsOptions :
    let r : Router :=
      { transports := fun server => some ⟨server, false⟩
        defaultTransport := ⟨"local", false⟩
        allowFakeIP := true
        isAddressQuery := true
        metadata := {} }
    let rules : List LegacyRule :=
      [⟨false, fun _ => true, .routeOptions { disableCache := true }⟩,
        ⟨true, fun _ => true, .route "a" {}⟩, ⟨false, fun _ => true, .route "b" {}⟩]
    r.attempt rules {} 1 = some ⟨some ⟨"b", false⟩, some 2, {}⟩ ∧
      (r.expected rules {} 1).options = { disableCache := true } ∧ ¬ r.KeepsOptions rules {} := by
  intro r rules
  have ha : r.attempt rules {} 1 = some ⟨some ⟨"b", false⟩, some 2, {}⟩ := by
    decide +kernel
  have he : (r.expected rules {} 1).options = { disableCache := true } := by
    decide +kernel
  refine ⟨ha, he, fun h => ?_⟩
  have ho := (h 1 _ ha).2
  rw [he] at ho
  cases ho

end Router

end SingBox.DNS.LegacyFallback
