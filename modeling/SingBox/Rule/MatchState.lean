import SingBox.Rule.Item

/-!
# Group masks

The engine keeps, for a default rule, which of the four item groups are required and which are
satisfied, as masks of one byte; the groups whose IP items are left for the DNS response are a
third mask, `DeferredIPCIDRMatchGroups`, in the metadata.
-/

namespace SingBox.Rule

open SingBox.Net SingBox.Adapter

/-- The four item groups of a default rule. -/
inductive Group where
  | sourceAddress
  | sourcePort
  | destinationAddress
  | destinationPort
deriving DecidableEq, Repr

/-- `ruleMatchSourceAddress`, `ruleMatchSourcePort`, `ruleMatchDestinationAddress` and
`ruleMatchDestinationPort`. -/
def Group.mask : Group → BitVec 8
  | sourceAddress => 1
  | sourcePort => 2
  | destinationAddress => 4
  | destinationPort => 8

/-- `ruleMatchState.has`. -/
def has (s target : BitVec 8) : Bool := decide (s &&& target ≠ 0)

structure RuleGroupMatch where
  required : BitVec 8 := 0
  satisfied : BitVec 8 := 0
deriving DecidableEq

namespace RuleGroupMatch

/-- `ruleGroupMatch.done`. -/
def done (g : RuleGroupMatch) : Bool := decide (g.required &&& ~~~g.satisfied = 0)

/-- `ruleGroupMatch.mergeWith`. -/
def mergeWith (g other : RuleGroupMatch) : RuleGroupMatch where
  required := g.required ||| other.required
  satisfied := g.satisfied ||| other.satisfied

end RuleGroupMatch

structure RuleMatchSnapshot where
  ipCidrMatchSource : Bool
  ipCidrAcceptEmpty : Bool
  deferredIPCIDRMatchGroups : BitVec 8

def snapshotRuleMatch (c : InboundContext) : RuleMatchSnapshot where
  ipCidrMatchSource := c.ipCIDRMatchSource
  ipCidrAcceptEmpty := c.ipCIDRAcceptEmpty
  deferredIPCIDRMatchGroups := c.deferredIPCIDRMatchGroups

/-- `ruleMatchSnapshot.restore`. -/
def RuleMatchSnapshot.restore (s : RuleMatchSnapshot) (c : InboundContext) : InboundContext :=
  { c with
    ipCIDRMatchSource := s.ipCidrMatchSource
    ipCIDRAcceptEmpty := s.ipCidrAcceptEmpty
    deferredIPCIDRMatchGroups := s.deferredIPCIDRMatchGroups }

/-! ### Masks as sets of groups -/

/-- The mask of a set of groups. -/
def maskOf (f : Group → Bool) : BitVec 8 :=
  (bif f .sourceAddress then 1 else 0) ||| (bif f .sourcePort then 2 else 0) |||
    (bif f .destinationAddress then 4 else 0) ||| (bif f .destinationPort then 8 else 0)

theorem maskOf_or_and_not (f g : Group → Bool) :
    (maskOf f ||| maskOf g = maskOf fun G => f G || g G) ∧
      maskOf f &&& ~~~maskOf g = maskOf fun G => f G && !g G := by
  simp only [maskOf]
  generalize f .sourceAddress = a, f .sourcePort = b, f .destinationAddress = x,
    f .destinationPort = y, g .sourceAddress = a', g .sourcePort = b',
    g .destinationAddress = x', g .destinationPort = y'
  revert a b x y a' b' x' y'
  decide

theorem maskOf_eq_zero_iff (f : Group → Bool) : maskOf f = 0 ↔ ∀ G, f G = false := by
  constructor
  · intro h
    have key : ∀ a b x y : Bool, (bif a then 1 else 0 : BitVec 8) ||| (bif b then 2 else 0) |||
        (bif x then 4 else 0) ||| (bif y then 8 else 0) = 0 →
        a = false ∧ b = false ∧ x = false ∧ y = false := by decide
    obtain ⟨ha, hb, hx, hy⟩ := key _ _ _ _ h
    intro G
    cases G <;> assumption
  · intro h
    simp [maskOf, h]

theorem has_maskOf (f : Group → Bool) (G : Group) : has (maskOf f) G.mask = f G := by
  have key : ∀ a b x y : Bool,
      let m := (bif a then 1 else 0 : BitVec 8) ||| (bif b then 2 else 0) |||
        (bif x then 4 else 0) ||| (bif y then 8 else 0)
      has m 1 = a ∧ has m 2 = b ∧ has m 4 = x ∧ has m 8 = y := by decide
  obtain ⟨ha, hb, hx, hy⟩ := key (f .sourceAddress) (f .sourcePort) (f .destinationAddress)
    (f .destinationPort)
  cases G <;> assumption

theorem mask_eq_maskOf (G : Group) : G.mask = maskOf fun H => decide (H = G) := by
  cases G <;> rfl

namespace RuleGroupMatch

/-- The masks of a set of required and a set of satisfied groups. -/
def ofGroups (required satisfied : Group → Bool) : RuleGroupMatch :=
  ⟨maskOf required, maskOf satisfied⟩

theorem done_ofGroups (r s : Group → Bool) :
    (ofGroups r s).done = true ↔ ∀ G, r G = true → s G = true := by
  simp only [done, ofGroups, maskOf_or_and_not, decide_eq_true_eq]
  have h0 := maskOf_eq_zero_iff fun G => r G && !s G
  refine h0.trans (forall_congr' fun G => ?_)
  cases r G <;> simp

/-- A group that is present becomes required, and satisfied if one of its items matches. -/
def add (groups : RuleGroupMatch) (present matched : Bool) (G : Group) : RuleGroupMatch :=
  if present then
    { required := groups.required ||| G.mask
      satisfied := if matched then groups.satisfied ||| G.mask else groups.satisfied }
  else groups

theorem add_ofGroups (r s : Group → Bool) (pr mt : Bool) (G : Group) :
    (ofGroups r s).add pr mt G = ofGroups (fun H => r H || (pr && decide (H = G)))
        (fun H => s H || (pr && mt && decide (H = G))) := by
  cases pr <;> cases mt <;>
    simp [add, ofGroups, mask_eq_maskOf, maskOf_or_and_not]

theorem mergeWith_ofGroups (r s r' s' : Group → Bool) : (ofGroups r s).mergeWith (ofGroups r' s') =
      ofGroups (fun G => r G || r' G) (fun G => s G || s' G) := by
  simp only [mergeWith, ofGroups, maskOf_or_and_not]

end RuleGroupMatch

end SingBox.Rule
