import SingBox.Foundation.Run

/-!
# Updates of rule-sets and the mode of the DNS router

The DNS router starts in legacy mode or not, as its rules and the metadata of the rule-sets they
refer to require. A rule-set that is reloaded validates its new metadata against those of the other
sets, and installs rules and metadata later, under its own lock only.

The metadata of the sets are a function of the tag. What `buildRuleSetMetadata` computes from the
rules of a set is a parameter. Warnings, which an update does not use, are left out.
-/

namespace SingBox.DNS.LegacyMode

open Foundation Function

/-- `RuleSetMetadata`, as far as the DNS router looks at it. -/
structure Metadata where
  containsIPCIDRRule : Bool
  containsDNSQueryTypeRule : Bool
  containsNonIPCIDRRule : Bool
deriving DecidableEq, Repr

/-- The options of an action. The strategy is only compared with the default. -/
inductive ActionOptions
  | route (disableOptimisticCache speculative hasStrategy : Bool)
  | evaluate (disableOptimisticCache speculative hasStrategy : Bool) (tag : String)
  | routeOptions (disableOptimisticCache hasStrategy : Bool)
  | respond
  /-- `reject` and `predefined`. -/
  | final
deriving DecidableEq, Repr

structure DNSRuleAction where
  race : Bool
  options : ActionOptions
deriving DecidableEq, Repr

/-- `DefaultDNSRule`. Of a list it matters whether it is empty. -/
structure DefaultDNSRule (Tag : Type*) where
  matchResponse : Bool
  responseTag : String
  responseRcode : Bool
  responseAnswer : Bool
  responseNs : Bool
  responseExtra : Bool
  ipVersion : ℕ
  queryType : Bool
  ipCIDR : Bool
  ipIsPrivate : Bool
  ipAcceptAny : Bool
  ruleSet : List Tag
  ruleSetIPCIDRMatchSource : Bool
  ruleSetIPCIDRAcceptEmpty : Bool
  action : DNSRuleAction
deriving DecidableEq, Repr

inductive DNSRule (Tag : Type*)
  | default (options : DefaultDNSRule Tag)
  | logical (action : DNSRuleAction) (rules : List (DNSRule Tag))
  | unknown

/-- The errors of the checks. -/
inductive RuleError (Tag : Type*)
  | ruleSetNotFound (tag : Tag)
  | legacyDNSRuleStrategy
  | legacyDNSAddressFilter
  | responseFieldsRequireMatchResponse
  | ruleSetIPCIDRAcceptEmpty
  | respondOnLogicalRule
  | requiresEvaluateWithoutTag
  | requiresEvaluate
  | undefinedEvaluateTag (tag : String)
  | duplicateEvaluateTag (tag : String)
  | rule (index : ℕ) (cause : RuleError Tag)
  | validateRule (index : ℕ) (cause : RuleError Tag)
  | subRule (index : ℕ) (cause : RuleError Tag)
deriving DecidableEq, Repr

/-- `dnsRuleModeFlags`. -/
structure ModeFlags where
  disabled : Bool
  needed : Bool
  neededFromStrategy : Bool
deriving DecidableEq, Repr

def ModeFlags.merge (f other : ModeFlags) : ModeFlags :=
  ⟨f.disabled || other.disabled, f.needed || other.needed,
    f.neededFromStrategy || other.neededFromStrategy⟩

/-- The action evaluates, or responds. -/
def ActionOptions.isEvaluateOrRespond : ActionOptions → Bool
  | .evaluate .. | .respond => true
  | _ => false

def ActionOptions.isRespond : ActionOptions → Bool
  | .respond => true
  | _ => false

/-- `dnsRuleActionDisablesLegacyDNSMode`. -/
def DNSRuleAction.disablesLegacyDNSMode (a : DNSRuleAction) : Bool :=
  a.race ||
    match a.options with
    | .route disableOptimisticCache speculative _ => disableOptimisticCache || speculative
    | .evaluate disableOptimisticCache speculative _ _ => disableOptimisticCache || speculative
    | .routeOptions disableOptimisticCache _ => disableOptimisticCache
    | _ => false

/-- `dnsRuleActionHasStrategy`. -/
def DNSRuleAction.hasStrategy (a : DNSRuleAction) : Bool :=
  match a.options with
  | .route _ _ hasStrategy => hasStrategy
  | .evaluate _ _ hasStrategy _ => hasStrategy
  | .routeOptions _ hasStrategy => hasStrategy
  | _ => false

variable {Tag : Type*}

def DefaultDNSRule.hasResponseMatchFields (r : DefaultDNSRule Tag) : Bool :=
  r.responseRcode || r.responseAnswer || r.responseNs || r.responseExtra

/-- `defaultRuleDisablesLegacyDNSMode`. -/
def DefaultDNSRule.disablesLegacyDNSMode (r : DefaultDNSRule Tag) : Bool :=
  r.matchResponse || r.hasResponseMatchFields || r.action.options.isEvaluateOrRespond ||
    decide (r.ipVersion > 0) || r.queryType

/-- `defaultRuleNeedsLegacyDNSModeFromAddressFilter`. -/
def DefaultDNSRule.needsLegacyDNSModeFromAddressFilter (r : DefaultDNSRule Tag) : Bool :=
  r.ruleSetIPCIDRAcceptEmpty || (!r.matchResponse && (r.ipAcceptAny || r.ipCIDR || r.ipIsPrivate))

section

variable (lookup : Tag → Option Metadata)

/-- `lookupDNSRuleSetMetadata`; the override is part of `lookup`. -/
def lookupDNSRuleSetMetadata (tag : Tag) : Except (RuleError Tag) Metadata :=
  match lookup tag with
  | some metadata => .ok metadata
  | none => .error (.ruleSetNotFound tag)

/-- `dnsRuleModeRequirementsInDefaultRule`. -/
def modeRequirementsInDefaultRule (r : DefaultDNSRule Tag) : Except (RuleError Tag) ModeFlags :=
  let strategy := r.action.hasStrategy
  let flags : ModeFlags :=
    ⟨r.disablesLegacyDNSMode || r.action.disablesLegacyDNSMode,
      r.needsLegacyDNSModeFromAddressFilter || strategy, strategy⟩
  r.ruleSet.foldlM (fun flags tag => do
    let metadata ← lookupDNSRuleSetMetadata lookup tag
    let needed := !r.ruleSetIPCIDRMatchSource && metadata.containsIPCIDRRule
    return { flags with
      disabled := flags.disabled || metadata.containsDNSQueryTypeRule
      needed := flags.needed || needed }) flags

mutual

/-- `dnsRuleModeRequirementsInRule`. -/
def modeRequirementsInRule : DNSRule Tag → Except (RuleError Tag) ModeFlags
  | .default options => modeRequirementsInDefaultRule lookup options
  | .logical action rules =>
    modeRequirementsInSubRules 0 rules
      ⟨action.options.isEvaluateOrRespond || action.disablesLegacyDNSMode, action.hasStrategy,
        action.hasStrategy⟩
  | .unknown => .ok ⟨false, false, false⟩

/-- The loop over the rules of a logical rule, from the index `i` on. -/
def modeRequirementsInSubRules (i : ℕ) :
    List (DNSRule Tag) → ModeFlags → Except (RuleError Tag) ModeFlags
  | [], flags => .ok flags
  | rule :: rules, flags =>
    match modeRequirementsInRule rule with
    | .error cause => .error (.subRule i cause)
    | .ok subFlags => modeRequirementsInSubRules (i + 1) rules (flags.merge subFlags)

end

/-- `dnsRuleModeRequirements`, from the index `i` on. -/
def modeRequirementsFrom (i : ℕ) :
    List (DNSRule Tag) → ModeFlags → Except (RuleError Tag) ModeFlags
  | [], flags => .ok flags
  | rule :: rules, flags =>
    match modeRequirementsInRule lookup rule with
    | .error cause => .error (.rule i cause)
    | .ok ruleFlags => modeRequirementsFrom (i + 1) rules (flags.merge ruleFlags)

/-- `dnsRuleModeRequirements`. -/
def modeRequirements (rules : List (DNSRule Tag)) : Except (RuleError Tag) ModeFlags :=
  modeRequirementsFrom lookup 0 rules ⟨false, false, false⟩

def resolveLegacyDNSMode (rules : List (DNSRule Tag)) :
    Except (RuleError Tag) (Bool × ModeFlags) :=
  match modeRequirements lookup rules with
  | .error cause => .error cause
  | .ok flags =>
    if flags.disabled && flags.neededFromStrategy then .error .legacyDNSRuleStrategy
    else if flags.disabled then .ok (false, flags)
    else .ok (flags.needed, flags)

/-- `dnsRuleResponseUse`. -/
structure ResponseUse where
  needsAnonymous : Bool
  referencedTags : List String
deriving DecidableEq, Repr

/-- `validateLegacyDNSModeDisabledDefaultRule`. -/
def validateDefaultRule (r : DefaultDNSRule Tag) : Except (RuleError Tag) ResponseUse := do
  if (r.hasResponseMatchFields || r.ipCIDR || r.ipIsPrivate || r.ipAcceptAny) &&
      !r.matchResponse then
    throw .responseFieldsRequireMatchResponse
  if !r.matchResponse then
    for tag in r.ruleSet do
      let metadata ← lookupDNSRuleSetMetadata lookup tag
      if metadata.containsIPCIDRRule && !metadata.containsNonIPCIDRRule then
        throw .legacyDNSAddressFilter
  if r.ruleSetIPCIDRAcceptEmpty then
    throw .ruleSetIPCIDRAcceptEmpty
  return {
    needsAnonymous := (r.matchResponse && r.responseTag = "") ||
      (r.action.options.isRespond && r.responseTag = "")
    referencedTags := if r.matchResponse && r.responseTag ≠ "" then [r.responseTag] else [] }

mutual

/-- `validateLegacyDNSModeDisabledRuleTree`. -/
def validateRuleTree : DNSRule Tag → Except (RuleError Tag) ResponseUse
  | .default options => validateDefaultRule lookup options
  | .logical action rules =>
    match validateSubRules 0 rules ⟨false, []⟩ with
    | .error cause => .error cause
    | .ok use =>
      if action.options.isRespond then
        if use.referencedTags ≠ [] then .error .respondOnLogicalRule
        else .ok { use with needsAnonymous := true }
      else .ok use
  | .unknown => .ok ⟨false, []⟩

/-- The loop over the rules of a logical rule, from the index `i` on. -/
def validateSubRules (i : ℕ) :
    List (DNSRule Tag) → ResponseUse → Except (RuleError Tag) ResponseUse
  | [], use => .ok use
  | rule :: rules, use =>
    match validateRuleTree rule with
    | .error cause => .error (.subRule i cause)
    | .ok subUse => validateSubRules (i + 1) rules
        ⟨use.needsAnonymous || subUse.needsAnonymous, use.referencedTags ++ subUse.referencedTags⟩

end

/-- The tag of an evaluate action. -/
def ActionOptions.evaluateTag : ActionOptions → Option String
  | .evaluate _ _ _ tag => some tag
  | _ => none

/-- `dnsRuleActionEvaluateTag`, of a rule with an evaluate action. -/
def DNSRule.evaluateTag : DNSRule Tag → Option String
  | .default options => options.action.options.evaluateTag
  | .logical action _ => action.options.evaluateTag
  | .unknown => none

/-- The loop of `validateLegacyDNSModeDisabledRules` from the index `i` on, with the evaluate
actions seen before: one without a tag, and those with the tags `definedTags`. -/
def validateRulesFrom (i : ℕ) :
    List (DNSRule Tag) → Bool → List String → Except (RuleError Tag) Unit
  | [], _, _ => .ok ()
  | rule :: rules, seenAnonymousEvaluate, definedTags =>
    match validateRuleTree lookup rule with
    | .error cause => .error (.validateRule i cause)
    | .ok use =>
      if use.needsAnonymous && !seenAnonymousEvaluate then
        .error (.rule i
          (if definedTags ≠ [] then .requiresEvaluateWithoutTag else .requiresEvaluate))
      else
        match use.referencedTags.find? fun tag => tag ∉ definedTags with
        | some tag => .error (.rule i (.undefinedEvaluateTag tag))
        | none =>
          match rule.evaluateTag with
          | none => validateRulesFrom (i + 1) rules seenAnonymousEvaluate definedTags
          | some tag =>
            if tag = "" then validateRulesFrom (i + 1) rules true definedTags
            else if tag ∈ definedTags then .error (.rule i (.duplicateEvaluateTag tag))
            else validateRulesFrom (i + 1) rules seenAnonymousEvaluate (definedTags ++ [tag])

def validateLegacyDNSModeDisabledRules (rules : List (DNSRule Tag)) : Except (RuleError Tag) Unit :=
  validateRulesFrom lookup 0 rules false []

/-- `ValidateRuleSetMetadataUpdate` of a router that was started in a mode and is not closing; the
new metadata are part of `lookup`. -/
def validateRuleSetMetadataUpdate (legacyDNSMode : Bool) (rules : List (DNSRule Tag)) :
    Except (RuleError Tag) Unit :=
  if rules.isEmpty then .ok ()
  else
    match resolveLegacyDNSMode lookup rules with
    | .error cause => .error cause
    | .ok (candidateLegacyDNSMode, flags) =>
      if legacyDNSMode then
        if !candidateLegacyDNSMode && flags.disabled then
          match validateLegacyDNSModeDisabledRules lookup rules with
          | .error cause => .error cause
          | .ok () => .error .legacyDNSAddressFilter
        else .ok ()
      else if candidateLegacyDNSMode then .error .legacyDNSAddressFilter
      else validateLegacyDNSModeDisabledRules lookup rules

end

/-! ### The reloads -/

/-- What the router was started with, and how the content of a set is read. -/
structure Router (Tag Content Rules : Type*) where
  rawRules : List (DNSRule Tag)
  legacyDNSMode : Bool
  /-- Reading a content and building its rules; either may fail. -/
  newHeadlessRules : Content → Option Rules
  buildRuleSetMetadata : Rules → Metadata

/-- The rules and the metadata of a set. -/
structure RuleSet (Rules : Type*) where
  rules : Rules
  metadata : Metadata
deriving DecidableEq, Repr

/-- A reload that passed its validation and is not installed yet. -/
structure Reload (Tag Rules : Type*) where
  tag : Tag
  ruleSet : RuleSet Rules
  /-- The metadata of the sets when the reload was validated. -/
  seen : Tag → Option Metadata

/-- The sets of the router, and the reloads in progress. -/
structure State (Tag Rules : Type*) where
  sets : Tag → Option (RuleSet Rules)
  reloads : List (Reload Tag Rules)

/-- The installed metadata. -/
def State.metadata {Rules : Type*} (s : State Tag Rules) (tag : Tag) : Option Metadata :=
  (s.sets tag).map RuleSet.metadata

/-- The events of a run. -/
inductive Event (Tag Content : Type*)
  /-- A reload of a set is read and validated. -/
  | reload (tag : Tag) (content : Content)
  /-- The `i`-th reload in progress takes the lock of its set and installs. -/
  | install (i : ℕ)

/-- The errors of a reload before it installs. -/
inductive ReloadError (Tag : Type*)
  | noSuchSet
  | parse
  | validate (cause : RuleError Tag)
deriving DecidableEq, Repr

section

variable [DecidableEq Tag] {Content Rules : Type*} (R : Router Tag Content Rules)

/-- `reloadRules` and `loadBytes` up to the installation. -/
def checkReload (s : State Tag Rules) (tag : Tag) (content : Content) :
    Except (ReloadError Tag) (RuleSet Rules) :=
  match s.sets tag with
  | none => .error .noSuchSet
  | some _ =>
    match R.newHeadlessRules content with
    | none => .error .parse
    | some rules =>
      let metadata := R.buildRuleSetMetadata rules
      match validateRuleSetMetadataUpdate (Function.update s.metadata tag (some metadata))
        R.legacyDNSMode R.rawRules with
      | .error cause => .error (.validate cause)
      | .ok () => .ok ⟨rules, metadata⟩

/-- The transitions. -/
def step (s : State Tag Rules) : Event Tag Content → State Tag Rules
  | .reload tag content =>
    match checkReload R s tag content with
    | .error _ => s
    | .ok ruleSet => { s with reloads := s.reloads ++ [⟨tag, ruleSet, s.metadata⟩] }
  | .install i =>
    match s.reloads[i]? with
    | none => s
    | some r =>
      { sets := Function.update s.sets r.tag (some r.ruleSet)
        reloads := s.reloads.eraseIdx i }

/-- `buildRules` succeeds over the metadata and finds the mode of the router. -/
def Router.Starts (lookup : Tag → Option Metadata) : Prop :=
  match resolveLegacyDNSMode lookup R.rawRules with
  | .error _ => False
  | .ok (legacyDNSMode, _) =>
    legacyDNSMode = R.legacyDNSMode ∧
      (legacyDNSMode = false → validateLegacyDNSModeDisabledRules lookup R.rawRules = .ok ())

/-- The metadata fit the mode the router started in. -/
def Router.Fits (lookup : Tag → Option Metadata) : Prop :=
  match resolveLegacyDNSMode lookup R.rawRules with
  | .error _ => False
  | .ok (legacyDNSMode, flags) =>
    if R.legacyDNSMode then flags.disabled = false
    else legacyDNSMode = false ∧ validateLegacyDNSModeDisabledRules lookup R.rawRules = .ok ()

/-- With no reload in progress the metadata fit the mode, and a reload that is rejected changes no
set and starts no installation. -/
def KeepsValid (s : State Tag Rules) (e : Event Tag Content) : Prop :=
  (s.reloads = [] → R.Fits s.metadata) ∧
    match e with
    | .reload tag content =>
      ∀ cause, checkReload R s tag content = .error cause → step R s e = s
    | .install _ => True

/-- At an installation the metadata of the other sets are those the reload was validated against. -/
def Undisturbed (s : State Tag Rules) : Event Tag Content → Prop
  | .reload .. => True
  | .install i => ∀ r ∈ s.reloads[i]?, ∀ tag, tag ≠ r.tag → s.metadata tag = r.seen tag

/-! ### Mode and checks -/

variable {lookup : Tag → Option Metadata} {s : State Tag Rules}

omit [DecidableEq Tag] in
theorem disabled_of_resolveLegacyDNSMode {rules : List (DNSRule Tag)} {flags : ModeFlags}
    (h : resolveLegacyDNSMode lookup rules = .ok (true, flags)) : flags.disabled = false := by
  rw [resolveLegacyDNSMode] at h
  split at h
  · cases h
  · split_ifs at h with _ hd
    · cases h
    · simp only [Except.ok.injEq, Prod.mk.injEq] at h
      obtain ⟨_, rfl⟩ := h
      exact Bool.eq_false_iff.mpr hd

omit [DecidableEq Tag] in
theorem Router.Starts.fits (h : R.Starts lookup) : R.Fits lookup := by
  unfold Router.Starts at h
  unfold Router.Fits
  split
  next hr => rw [hr] at h; exact h
  next mode flags hr =>
    rw [hr] at h
    obtain ⟨hmo, hv⟩ := h
    subst hmo
    cases hm : R.legacyDNSMode with
    | true => exact disabled_of_resolveLegacyDNSMode (hm ▸ hr)
    | false => exact ⟨rfl, hv hm⟩

omit [DecidableEq Tag] in
theorem Router.fits_of_validate
    (h : validateRuleSetMetadataUpdate lookup R.legacyDNSMode R.rawRules = .ok ()) :
    R.Fits lookup := by
  unfold Router.Fits
  rw [validateRuleSetMetadataUpdate] at h
  by_cases he : R.rawRules.isEmpty
  · -- Without rules nothing is checked, and nothing can be violated.
    rw [List.isEmpty_iff.mp he]
    cases R.legacyDNSMode
    · exact ⟨rfl, rfl⟩
    · rfl
  rw [if_neg he] at h
  split
  next hr =>
    rw [hr] at h
    cases h
  next mode flags hr =>
    rw [hr] at h
    dsimp only at h
    split_ifs at h ⊢ with hl hd hm
    · split at h <;> cases h
    · cases mode with
      | true => exact disabled_of_resolveLegacyDNSMode hr
      | false => simpa using hd
    · exact ⟨Bool.eq_false_iff.mpr hm, h⟩

/-! ### Whole runs -/

theorem validate_of_checkReload {tag : Tag} {content : Content} {ruleSet : RuleSet Rules}
    (h : checkReload R s tag content = .ok ruleSet) :
    validateRuleSetMetadataUpdate (update s.metadata tag (some ruleSet.metadata))
      R.legacyDNSMode R.rawRules = .ok () := by
  rw [checkReload] at h
  split at h
  · cases h
  · split at h
    · cases h
    · dsimp only at h
      split at h
      · cases h
      next hv =>
        cases h
        exact hv

theorem step_of_rejected {tag : Tag} {content : Content} {cause : ReloadError Tag}
    (h : checkReload R s tag content = .error cause) : step R s (.reload tag content) = s := by
  rw [LegacyMode.step, h]

/-- The metadata fit the mode, and every reload in progress passed its validation. -/
structure Inv (s : State Tag Rules) : Prop where
  fits : R.Fits s.metadata
  validated : ∀ r ∈ s.reloads,
    validateRuleSetMetadataUpdate (Function.update r.seen r.tag (some r.ruleSet.metadata))
      R.legacyDNSMode R.rawRules = .ok ()

/-- The metadata after an installation are those the reload was validated with, when those of the
other sets have not changed. -/
theorem metadata_install {r : Reload Tag Rules}
    (h : ∀ tag, tag ≠ r.tag → s.metadata tag = r.seen tag) (reloads : List (Reload Tag Rules)) :
    (State.mk (update s.sets r.tag (some r.ruleSet)) reloads).metadata =
      update r.seen r.tag (some r.ruleSet.metadata) := by
  funext tag
  by_cases ht : tag = r.tag
  · subst ht
    simp [State.metadata]
  · rw [update_of_ne ht, ← h tag ht]
    simp only [State.metadata, update_of_ne ht]

theorem Inv.step {e : Event Tag Content} (h : Inv R s) (he : Undisturbed s e) :
    Inv R (step R s e) := by
  cases e with
  | reload tag content =>
    rw [LegacyMode.step]
    split
    · exact h
    next hc =>
      refine ⟨h.fits, fun r hr => ?_⟩
      rcases List.mem_append.mp hr with hr | hr
      · exact h.validated r hr
      · obtain rfl := List.mem_singleton.mp hr
        exact validate_of_checkReload R hc
  | install i =>
    rw [LegacyMode.step]
    split
    · exact h
    next r hr =>
      have hm : r ∈ s.reloads := List.mem_of_getElem? hr
      refine ⟨?_, fun r' hr' => h.validated r' (List.mem_of_mem_eraseIdx hr')⟩
      rw [metadata_install (he r hr)]
      exact R.fits_of_validate (h.validated r hm)

/-- Rule-set updates keep the DNS rules valid in every run in which no other set was updated between
the validation of a reload and its installation. -/
theorem run_keepsValid (s : State Tag Rules) (hstart : R.Starts s.metadata) (hs : s.reloads = [])
    (events : ℕ → Event Tag Content)
    (he : ∀ n, Undisturbed (run (step R) s events n) (events n)) (n : ℕ) :
    KeepsValid R (run (step R) s events n) (events n) := by
  have hinit : Inv R s := ⟨hstart.fits, by simp [hs]⟩
  have hi : Inv R (run (step R) s events n) :=
    run_preserved (P := fun _ s => Inv R s) (Nat.zero_le n) hinit
      fun t _ _ h => h.step R (he t)
  refine ⟨fun _ => hi.fits, ?_⟩
  cases events n with
  | reload tag content => exact fun _ => step_of_rejected R
  | install i => trivial

end

/-! ### Two sets -/

instance [DecidableEq Tag] {Content Rules : Type*} (R : Router Tag Content Rules)
    (lookup : Tag → Option Metadata) : Decidable (R.Fits lookup) := by
  unfold Router.Fits
  split <;> infer_instance

instance [DecidableEq Tag] {Content Rules : Type*} (R : Router Tag Content Rules)
    (lookup : Tag → Option Metadata) : Decidable (R.Starts lookup) := by
  unfold Router.Starts
  split <;> infer_instance

instance {Content Rules : Type*} {n : ℕ} (s : State (Fin n) Rules) (e : Event (Fin n) Content) :
    Decidable (Undisturbed s e) := by
  cases e with
  | reload tag content => exact instDecidableTrue
  | install i =>
    simp only [Undisturbed]
    cases s.reloads[i]? with
    | none => exact .isTrue fun _ h => nomatch h
    | some r =>
      exact decidable_of_iff (∀ tag, tag ≠ r.tag → s.metadata tag = r.seen tag) (by simp)

/-- A rule without conditions of its own that refers to two sets. -/
def bothSets : DNSRule (Fin 2) :=
  .default
    { matchResponse := false, responseTag := "", responseRcode := false, responseAnswer := false
      responseNs := false, responseExtra := false, ipVersion := 0, queryType := false
      ipCIDR := false, ipIsPrivate := false, ipAcceptAny := false, ruleSet := [0, 1]
      ruleSetIPCIDRMatchSource := false, ruleSetIPCIDRAcceptEmpty := false
      action := ⟨false, .route false false false⟩ }

/-- A router with this rule, not in legacy mode; a content is given by its metadata. -/
def twoSets : Router (Fin 2) Metadata Metadata :=
  ⟨[bothSets], false, some, id⟩

/-- A set of domains only. -/
def domains : Metadata := ⟨false, false, true⟩

/-- A set of domains and query types. -/
def queryTypes : Metadata := ⟨false, true, true⟩

/-- A set of domains and addresses. -/
def addresses : Metadata := ⟨true, false, true⟩

/-- The first set has domains only, the second also query types. -/
def initial : State (Fin 2) Metadata :=
  { sets := fun tag => some (if tag = 0 then ⟨domains, domains⟩ else ⟨queryTypes, queryTypes⟩)
    reloads := [] }

/-- One set gets addresses, then the other keeps its query types and gets addresses. A reload that
would need legacy mode is rejected at last. -/
theorem run_keepsValid_example :
    let events : ℕ → Event (Fin 2) Metadata := fun n =>
      [.reload 0 addresses, .install 0, .reload 1 ⟨true, true, true⟩, .install 0].getD n
        (.reload 1 addresses)
    KeepsValid twoSets (run (step twoSets) initial events 4) (events 4) ∧
      (run (step twoSets) initial events 5).metadata 1 = some ⟨true, true, true⟩ := by
  intro events
  refine ⟨run_keepsValid twoSets initial (by decide +kernel) rfl events ?_ 4, by decide +kernel⟩
  exact forall_getD _ _ (by decide +kernel) fun _ => trivial

/-- One set gets addresses, which the query types of the other allow, while the other loses its
query types, which without addresses is allowed too. Both installed need legacy mode. -/
theorem not_keepsValid :
    let events : ℕ → Event (Fin 2) Metadata := fun n =>
      [.reload 0 addresses, .reload 1 domains, .install 0, .install 0].getD n (.install 0)
    twoSets.Starts initial.metadata ∧
      ¬ KeepsValid twoSets (run (step twoSets) initial events 4) (events 4) := by
  intro events
  have hd : (run (step twoSets) initial events 4).reloads = [] :=
    List.isEmpty_iff.mp (by decide +kernel)
  have hu : ¬ twoSets.Fits (run (step twoSets) initial events 4).metadata := by
    decide +kernel
  exact ⟨by decide +kernel, fun h => hu (h.1 hd)⟩

end SingBox.DNS.LegacyMode
