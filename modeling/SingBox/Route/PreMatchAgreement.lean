import SingBox.Route.PreMatch

/-!
# The pre-match agrees with the full match

The two interpreters are run side by side. They keep the same metadata, but for the original
destination, which only the full match writes down, and for the resolved addresses: the full match
drops them when a rule gives another address to go to, and the pre-match keeps them. As long as no
such rule is met after a lookup, and no route without the name of an outbound, whatever the
pre-match answers is what the full match does.

An answer of the pre-match may also come from the outbound, or from a fake address without a
resolved one: the flow is then declined although the full match would route the connection.
-/

namespace SingBox.Route.PreMatch

open SingBox.Net SingBox.Adapter List

variable {χ ρ ο : Type}

/-! ### Agreement -/

/-- A connection with the metadata goes to the address and port. -/
def ConnectsTo (metadata : Metadata χ) (destination : Addr × ℕ) : Prop :=
  destination.2 = metadata.context.destination.port ∧
    (destination.1 = metadata.context.destination.addr ∨
      destination.1 ∈ metadata.context.destinationAddresses)

/-- The flow is not taken: the outbound answers otherwise when it is asked for the destination, or
the destination has a fake address and there is no resolved address of its family, or the outbound
answers otherwise for that one. -/
def Declines (r : Router χ ρ ο) (packetDestination : Socksaddr) (outbound : ο)
    (metadata : Metadata χ) (action : PreMatchAction) : Prop :=
  ∃ flowAction, r.flowAction outbound = some flowAction ∧
    (flowAction metadata.context.network metadata.context.destination.addr = action ∨
      isDomain r metadata.context.destination ∧ metadata.fakeIP ∧
        (¬ (newDestination packetDestination metadata).isValid ∧ action = .reject ∨
          flowAction metadata.context.network (newDestination packetDestination metadata) = action))

/-- The outcome is what the answer says. -/
def Agrees (r : Router χ ρ ο) (packetDestination : Socksaddr) (result : PreMatchResult ο)
    (outcome : Outcome χ ο) : Prop :=
  let declined := ∃ outbound metadata, outcome = .routed outbound metadata ∧
    Declines r packetDestination outbound metadata result.action
  match result.action with
  | .flow => ∃ outbound metadata, outcome = .routed outbound metadata ∧
      result.outbound = some outbound ∧
      ConnectsTo metadata
        (result.destination.getD (packetDestination.addr, packetDestination.port))
  | .reject => outcome = .rejected ∨ outcome = .resolveFailed ∨ declined
  | .drop => outcome = .rejected ∨ outcome = .resolveFailed ∨ declined
  | .hijackDNS => outcome = .hijackedDNS ∨ declined
  | .continueMatch => True
  | .bypass => True

/-- An action that gives another address to go to. -/
def Action.overridesAddress (r : Router χ ρ ο) : Action χ ρ → Bool
  | .route options _ => PreMatch.overridesAddress r options
  | .routeOptions options => PreMatch.overridesAddress r options
  | .bypass options _ => PreMatch.overridesAddress r options
  | _ => false

/-- No rule that is met gives another address while there are resolved addresses. -/
def OverridesUnresolved (r : Router χ ρ ο) (packetDestination : Socksaddr)
    (firstPacket : List UInt8) : List (Rule χ ρ) → Metadata χ → Prop
  | [], _ => True
  | rule :: rules, metadata =>
    if rule.matchesContext metadata.reset.context then
      (rule.action.overridesAddress r → metadata.context.destinationAddresses = []) ∧
      match preMatchAction r packetDestination firstPacket metadata.reset rule.action with
      | .done _ => True
      | .next metadata => OverridesUnresolved r packetDestination firstPacket rules metadata
    else OverridesUnresolved r packetDestination firstPacket rules metadata.reset

/-- The actions for which the two interpreters are meant to agree: no bypass, and a route to an
outbound with a name. The pre-match takes a route without one to the default outbound, where the
full match finds no outbound. -/
def Action.Plain : Action χ ρ → Prop
  | .bypass _ _ => False
  | .route _ outbound => outbound ≠ ""
  | _ => True

/-! ### The original destination is not read -/

section Original

variable (r : Router χ ρ ο) (metadata : Metadata χ) (original : Socksaddr)

theorem overrideSniffed_withOriginal (action : SniffAction χ) :
    overrideSniffed r action (metadata.withOriginal original) =
      (overrideSniffed r action metadata).withOriginal original := by
  rw [overrideSniffed, overrideSniffed, apply_ite (fun m : Metadata χ => m.withOriginal original)]
  rfl

theorem finishSniff_withOriginal (action : SniffAction χ) :
    finishSniff r action (metadata.withOriginal original) =
      (finishSniff r action metadata).withOriginal original := by
  rw [finishSniff, finishSniff, overrideSniffed_withOriginal,
    apply_ite (fun m : Metadata χ => m.withOriginal original)]
  rfl

theorem actionResolve_withOriginal (action : ρ) :
    actionResolve r action (metadata.withOriginal original) =
      (actionResolve r action metadata).map (·.withOriginal original) := by
  rw [actionResolve, actionResolve,
    apply_ite (Option.map fun m : Metadata χ => m.withOriginal original), Option.map_map]
  rfl

theorem applyRouteOptionsOverride_withOriginal (options : RouteOptions) :
    applyRouteOptionsOverride r options (metadata.withOriginal original) =
      (applyRouteOptionsOverride r options metadata).withOriginal original := by
  cases ha : overridesAddress r options <;> by_cases hp : 0 < options.overridePort <;>
    by_cases ht : 0 < options.udpTimeout <;>
    simp only [applyRouteOptionsOverride, ha, hp, ht, if_true, if_false, Bool.false_eq_true] <;>
    rfl

/-- Without resolved addresses to drop, the options do the same in both interpreters. -/
theorem applyRouteOptions_withOriginal (options : RouteOptions)
    (h : overridesAddress r options → metadata.context.destinationAddresses = []) :
    ∃ original', applyRouteOptions r options (metadata.withOriginal original) =
      (applyRouteOptionsOverride r options metadata).withOriginal original' := by
  have hd (original' : Socksaddr) : (if overridesAddress r options then
      (metadata.withOriginal original').withAddresses [] else metadata.withOriginal original') =
      metadata.withOriginal original' := by
    split_ifs with ho
    · rw [← h ho]
      rfl
    · rfl
  rw [applyRouteOptions]
  by_cases hwr : (overridesAddress r options ∨ 0 < options.overridePort) ∧
      ¬ ((metadata.withOriginal original).routeOriginalDestination.isIP ∨
        isDomain r (metadata.withOriginal original).routeOriginalDestination)
  · refine ⟨metadata.context.destination, ?_⟩
    rw [if_pos hwr, ← applyRouteOptionsOverride_withOriginal]
    exact congrArg _ (hd metadata.context.destination)
  · refine ⟨original, ?_⟩
    rw [if_neg hwr, ← applyRouteOptionsOverride_withOriginal]
    exact congrArg _ (hd original)

end Original

/-! ### Sniffing the first packet -/

/-- The first packet is to be read, or it is the one packet that has been read. -/
inductive Received (firstPacket : List UInt8) : List (List UInt8) → List PacketArrival → Prop
  | waiting (more : List PacketArrival) : Received firstPacket [] (some firstPacket :: more)
  | read (more : List PacketArrival) : Received firstPacket [firstPacket] more

section Sniff

variable {r : Router χ ρ ο} {metadata : Metadata χ} {original : Socksaddr}
  {firstPacket : List UInt8} {packets : List (List UInt8)} {arrivals : List PacketArrival}

/-- The sniffers of the full match get the first packet, read now or before. -/
theorem sniff_received (action : SniffAction χ) (hr : Received firstPacket packets arrivals)
    (hm : metadata.needsMoreData = false)
    (he : (peek (packetSniffers r action) action metadata firstPacket).needsMoreData = false) :
    ∃ np arrivals',
      (match sniffBuffered r action packets (metadata.withOriginal original) with
        | (metadata, true) => some (finishSniff r action metadata, [], arrivals)
        | (metadata, false) => sniffArrivals r action arrivals metadata []) =
        some ((finishSniff r action (peek (packetSniffers r action) action metadata
          firstPacket)).withOriginal original, np, arrivals') ∧
      Received firstPacket (packets ++ np) arrivals' := by
  have hq : quicMoreData action (metadata.withOriginal original) = false := by
    change (metadata.snifferNames == action.snifferNames && metadata.needsMoreData) = false
    rw [hm, Bool.and_false]
  have hp : sniffPacket r action (metadata.withOriginal original) firstPacket =
      (peek (packetSniffers r action) action metadata firstPacket).withOriginal original := by
    rw [sniffPacket, hq]
    rfl
  have he' : ((peek (packetSniffers r action) action metadata firstPacket).withOriginal
      original).needsMoreData = false := he
  cases hr with
  | waiting more =>
    refine ⟨[firstPacket], more, ?_, .read more⟩
    simp [sniffBuffered, sniffArrivals, hp, he', finishSniff_withOriginal]
  | read more =>
    refine ⟨[], arrivals, ?_, .read _⟩
    simp [sniffBuffered, hp, he', finishSniff_withOriginal]

theorem needsMoreData_finishSniff (action : SniffAction χ) :
    (finishSniff r action metadata).needsMoreData = metadata.needsMoreData := by
  unfold finishSniff overrideSniffed
  split_ifs <;> rfl

/-- A sniff action in the full match does not read the original destination in its conditions. -/
theorem actionSniff_withOriginal (action : SniffAction χ) :
    actionSniff r action (metadata.withOriginal original) packets arrivals =
      if skip metadata ∨ metadata.context.protocol ≠ "" then
        some (metadata.withOriginal original, [], arrivals)
      else if metadata.context.network = "tcp" then
        (r.sniffStream action (metadata.withOriginal original)).map
          fun metadata => (metadata, [], arrivals)
      else if metadata.context.network = "udp" then
        if action.packetSniffers.isEmpty ∧ ¬ action.streamSniffers.isEmpty then
          some (metadata.withOriginal original, [], arrivals)
        else if metadata.snifferNames = action.snifferNames ∧ metadata.sniffError ≠ none ∧
            ¬ metadata.needsMoreData then some (metadata.withOriginal original, [], arrivals)
        else
          match sniffBuffered r action packets (metadata.withOriginal original) with
          | (metadata, true) => some (finishSniff r action metadata, [], arrivals)
          | (metadata, false) => sniffArrivals r action arrivals metadata []
      else some (metadata.withOriginal original, [], arrivals) := rfl

/-- A sniff action that the pre-match goes on after does the same in the full match. -/
theorem actionSniff_agrees {action : SniffAction χ} {md' : Metadata χ} (original : Socksaddr)
    (hr : Received firstPacket packets arrivals) (hm : metadata.needsMoreData = false)
    (h : preMatchSniff r firstPacket action metadata = .next md') :
    md'.needsMoreData = false ∧ ∃ np arrivals',
      actionSniff r action (metadata.withOriginal original) packets arrivals =
        some (md'.withOriginal original, np, arrivals') ∧
      Received firstPacket (packets ++ np) arrivals' := by
  have hu : Received firstPacket (packets ++ []) arrivals := by rwa [append_nil]
  rw [actionSniff_withOriginal]
  rw [preMatchSniff] at h
  by_cases hs : skip metadata ∨ metadata.context.protocol ≠ ""
  · -- whatever the network is, nothing is done
    have hn : md' = metadata := by
      split_ifs at h <;> cases h <;> rfl
    rw [if_pos hs, hn]
    exact ⟨hm, [], arrivals, rfl, hu⟩
  rw [if_neg hs] at h ⊢
  by_cases hi : metadata.context.network = "icmp"
  · rw [if_pos hi] at h
    cases h
    rw [if_neg (by rw [hi]; decide), if_neg (by rw [hi]; decide)]
    exact ⟨hm, [], arrivals, rfl, hu⟩
  rw [if_neg hi] at h
  by_cases hudp : metadata.context.network ≠ "udp" ∨ firstPacket = []
  · rw [if_pos hudp] at h
    cases h
  rw [if_neg hudp] at h
  simp only [not_or, not_not] at hudp
  rw [if_neg (by rw [hudp.1]; decide), if_pos hudp.1]
  by_cases hstr : action.packetSniffers.isEmpty ∧ ¬ action.streamSniffers.isEmpty
  · rw [if_pos hstr] at h ⊢
    cases h
    exact ⟨hm, [], arrivals, rfl, hu⟩
  rw [if_neg hstr] at h ⊢
  by_cases hp : metadata.snifferNames = action.snifferNames ∧ metadata.sniffError ≠ none
  · rw [if_pos hp] at h
    cases h
    rw [if_pos ⟨hp.1, hp.2, by rw [hm]; decide⟩]
    exact ⟨hm, [], arrivals, rfl, hu⟩
  rw [if_neg hp] at h
  rw [if_neg fun hb => hp ⟨hb.1, hb.2.1⟩]
  cases he : (peek (packetSniffers r action) action metadata firstPacket).needsMoreData with
  | true =>
    simp only [he, if_true] at h
    cases h
  | false =>
    simp only [he, Bool.false_eq_true, if_false, Step.next.injEq] at h
    subst h
    exact ⟨(needsMoreData_finishSniff action).trans he, sniff_received action hr hm he⟩

end Sniff

/-! ### The flow -/

section Flow

variable {r : Router χ ρ ο} {packetDestination original : Socksaddr}
  {metadata : Metadata χ}

theorem newDestination_mem (hv : (newDestination packetDestination metadata).isValid) :
    newDestination packetDestination metadata ∈ metadata.context.destinationAddresses := by
  unfold newDestination at hv ⊢
  cases hf : metadata.context.destinationAddresses.find? fun address =>
      address.is4 == packetDestination.addr.is4 with
  | none =>
    rw [hf] at hv
    cases hv
  | some address => exact mem_of_find?_eq_some hf

/-- What the pre-match answers for an outbound, and the connection that the full match routes to
it. -/
theorem flowVia_agrees (outbound : ο) :
    Agrees r packetDestination (flowVia r packetDestination metadata outbound)
      (.routed outbound (metadata.withOriginal original)) := by
  have hd {result : PreMatchResult ο} (hfl : result.action ≠ .flow)
      (h : Declines r packetDestination outbound (metadata.withOriginal original) result.action) :
      Agrees r packetDestination result (.routed outbound (metadata.withOriginal original)) := by
    unfold Agrees
    cases hact : result.action with
    | flow => exact absurd hact hfl
    | reject => exact .inr (.inr ⟨outbound, _, rfl, hact ▸ h⟩)
    | drop => exact .inr (.inr ⟨outbound, _, rfl, hact ▸ h⟩)
    | hijackDNS => exact .inr ⟨outbound, _, rfl, hact ▸ h⟩
    | continueMatch => trivial
    | bypass => trivial
  rw [flowVia]
  cases hf : r.flowAction outbound with
  | none => trivial
  | some flowAction =>
    dsimp only
    by_cases hv :
        flowAction metadata.context.network metadata.context.destination.addr = .flow
    · rw [if_neg (not_not.mpr hv)]
      by_cases hdom : isDomain r metadata.context.destination
      · rw [if_pos hdom]
        by_cases hfa : metadata.fakeIP
        · rw [if_pos hfa]
          by_cases hval : (newDestination packetDestination metadata).isValid
          · rw [if_pos hval]
            by_cases ha : flowAction metadata.context.network
                (newDestination packetDestination metadata) = .flow
            · rw [if_neg (not_not.mpr ha)]
              exact ⟨outbound, _, rfl, rfl, rfl, .inr (newDestination_mem hval)⟩
            · rw [if_pos ha]
              exact hd ha ⟨flowAction, hf, .inr ⟨hdom, hfa, .inr rfl⟩⟩
          · rw [if_neg hval]
            exact hd (by simp)
              ⟨flowAction, hf, .inr ⟨hdom, hfa, .inl ⟨hval, rfl⟩⟩⟩
        · rw [if_neg hfa]
          trivial
      · rw [if_neg hdom]
        refine ⟨outbound, _, rfl, rfl, ?_⟩
        by_cases hc : metadata.context.destination ≠ packetDestination
        · rw [if_pos hc]
          exact ⟨rfl, .inl rfl⟩
        · rw [if_neg hc]
          rw [not_not] at hc
          exact ⟨congrArg Socksaddr.port hc.symm, .inl (congrArg Socksaddr.addr hc.symm)⟩
    · rw [if_pos hv]
      exact hd hv ⟨flowAction, hf, .inl rfl⟩

/-- The answer for a selected outbound, and what the full match does with it. -/
theorem preMatchFlow_agrees {ot : String} {out : Option ο}
    (h : (if ot = "" then some r.defaultOutbound else r.outbound ot) = out) :
    Agrees r packetDestination (preMatchFlow r packetDestination metadata ot)
      (routeTo r out (metadata.withOriginal original)) := by
  rw [preMatchFlow, h, routeTo]
  have hn : (metadata.withOriginal original).context.network = metadata.context.network := rfl
  rw [hn]
  cases out.bind (finalOutbound r metadata.context.network) with
  | none => trivial
  | some final => exact flowVia_agrees final

end Flow

/-! ### The rules -/

theorem reset_withOriginal (metadata : Metadata χ) (original : Socksaddr) :
    (metadata.withOriginal original).reset = metadata.reset.withOriginal original := rfl

theorem needsMoreData_applyRouteOptionsOverride (r : Router χ ρ ο) (options : RouteOptions)
    (metadata : Metadata χ) :
    (applyRouteOptionsOverride r options metadata).needsMoreData = metadata.needsMoreData := by
  unfold applyRouteOptionsOverride Metadata.withDestination
  dsimp only
  split_ifs <;> rfl

variable {r : Router χ ρ ο}

theorem needsMoreData_actionResolve {action : ρ} {metadata md' : Metadata χ}
    (h : actionResolve r action metadata = some md') :
    md'.needsMoreData = metadata.needsMoreData := by
  rw [actionResolve] at h
  split_ifs at h
  · obtain ⟨addresses, -, rfl⟩ := Option.map_eq_some_iff.mp h
    rfl
  · cases h
    rfl

variable {firstPacket : List UInt8} {metadata : Metadata χ}

/-- Where a sniff action ends the pre-match, the decision is left to the full match. -/
theorem preMatchSniff_done {action : SniffAction χ} {result : PreMatchResult ο}
    (h : preMatchSniff r firstPacket action metadata = .done result) : result = continueResult := by
  rw [preMatchSniff] at h
  dsimp only at h
  split_ifs at h <;> cases h <;> rfl

section Rules

variable {r : Router χ ρ ο} {packetDestination : Socksaddr} {firstPacket : List UInt8}

theorem preMatchRules_agrees {rules : List (Rule χ ρ)} (hp : ∀ rule ∈ rules, rule.action.Plain)
    (original : Socksaddr) {packets : List (List UInt8)} {arrivals : List PacketArrival}
    (hr : Received firstPacket packets arrivals) (hmo : metadata.needsMoreData = false)
    (ho : OverridesUnresolved r packetDestination firstPacket rules metadata) :
    Agrees r packetDestination (preMatchRules r packetDestination firstPacket rules metadata)
      (routeRules r rules (metadata.withOriginal original) packets arrivals) := by
  induction rules generalizing metadata original packets arrivals with
  | nil => exact preMatchFlow_agrees (if_pos rfl)
  | cons rule rules ih =>
    have hrs := fun rule hru => hp rule (mem_cons_of_mem _ hru)
    have hm' : metadata.reset.needsMoreData = false := hmo
    simp only [preMatchRules, routeRules]
    rw [OverridesUnresolved] at ho
    have hsa : rule.matchesContext (metadata.withOriginal original).reset.context =
      rule.matchesContext metadata.reset.context := rfl
    by_cases hm : rule.matchesContext metadata.reset.context
    · rw [if_pos hm] at ho
      rw [if_pos hm, if_pos (hsa.trans hm), reset_withOriginal]
      have hru := hp rule mem_cons_self
      obtain ⟨hu, hn⟩ := ho
      have hu' : rule.action.overridesAddress r →
        metadata.reset.context.destinationAddresses = [] := hu
      generalize metadata.reset = metadata at *
      cases ha : rule.action with
      | route options outbound =>
        rw [ha] at hu'
        obtain ⟨original', heq⟩ :=
          applyRouteOptions_withOriginal r metadata original options hu'
        simp only [preMatchAction, heq]
        rw [ha] at hru
        exact preMatchFlow_agrees (if_neg hru)
      | routeOptions options =>
        rw [ha] at hu' hn
        obtain ⟨original', heq⟩ :=
          applyRouteOptions_withOriginal r metadata original options hu'
        simp only [preMatchAction, heq]
        refine ih hrs _ hr ?_ hn
        rw [needsMoreData_applyRouteOptionsOverride, hm']
      | bypass options outbound =>
        rw [ha] at hru
        exact hru.elim
      | reject error =>
        simp only [preMatchAction, preMatchReject]
        split_ifs
        · trivial
        · exact .inl rfl
        · exact .inl rfl
      | hijackDNS =>
        simp only [preMatchAction]
        split_ifs
        · trivial
        · exact .inl rfl
      | sniff action =>
        rw [ha] at hn
        simp only [preMatchAction] at hn ⊢
        cases hs : preMatchSniff r firstPacket action metadata with
        | done result =>
          rw [preMatchSniff_done hs]
          trivial
        | next md' =>
          rw [hs] at hn
          obtain ⟨hm'', np, arrivals', heq, hr'⟩ :=
            actionSniff_agrees original hr hm' hs
          rw [heq]
          exact ih hrs _ hr' hm'' hn
      | resolve action =>
        rw [ha] at hn
        simp only [preMatchAction, actionResolve_withOriginal] at hn ⊢
        cases hre : actionResolve r action metadata with
        | none => exact .inr (.inl rfl)
        | some md' =>
          rw [hre] at hn
          refine ih hrs _ hr ?_ hn
          rw [needsMoreData_actionResolve hre, hm']
    · rw [if_neg hm] at ho
      rw [if_neg hm, if_neg (hsa ▸ hm), reset_withOriginal]
      exact ih hrs _ hr hm' ho

end Rules

/-- The condition holds whatever the metadata are if no rule gives another address. -/
theorem overridesUnresolved_of_forall {packetDestination : Socksaddr} {rules : List (Rule χ ρ)}
    (h : ∀ rule ∈ rules, rule.action.overridesAddress r = false) (metadata : Metadata χ) :
    OverridesUnresolved r packetDestination firstPacket rules metadata := by
  induction rules generalizing metadata with
  | nil => trivial
  | cons rule rules ih =>
    have hr := fun rule hru => h rule (mem_cons_of_mem _ hru)
    rw [OverridesUnresolved]
    split_ifs
    · refine ⟨fun ho => ?_, ?_⟩
      · rw [h rule mem_cons_self] at ho
        cases ho
      · split
        · trivial
        · exact ih hr _
    · exact ih hr _

theorem needsMoreData_prepare {metadata prepared : Metadata χ}
    (h : prepareMatchMetadata r metadata = some prepared) :
    prepared.needsMoreData = metadata.needsMoreData := by
  obtain ⟨md', hm, rfl⟩ := Option.map_eq_some_iff.mp h
  have hs : md'.needsMoreData = metadata.needsMoreData := by
    split_ifs at hm
    · obtain ⟨domain, -, rfl⟩ := Option.map_eq_some_iff.mp hm
      split_ifs <;> rfl
    · split at hm <;> cases hm <;> rfl
    · cases hm
      rfl
  rw [← hs]
  split_ifs <;> rfl

/-- The pre-match agrees with the full match of a connection with the same metadata and the same
first packet, whatever arrives later, if no rule is met that gives another address after a
lookup. -/
theorem preMatch_agrees (r : Router χ ρ ο) (metadata : Metadata χ) (firstPacket : List UInt8)
    (more : List PacketArrival) (hplain : ∀ rule ∈ r.rules, rule.action.Plain)
    (hmore : metadata.needsMoreData = false)
    (hoverrides : ∀ prepared, prepareMatchMetadata r metadata = some prepared →
      OverridesUnresolved r metadata.context.destination firstPacket r.rules prepared) :
    Agrees r metadata.context.destination (preMatch r metadata firstPacket)
      (route r metadata (some firstPacket :: more)) := by
  rw [preMatch, route]
  cases hp : prepareMatchMetadata r metadata with
  | none => trivial
  | some prepared =>
    exact preMatchRules_agrees hplain prepared.routeOriginalDestination
      (.waiting more) ((needsMoreData_prepare hp).trans hmore) (hoverrides prepared hp)

/-! ### A fake address -/

/-- A router with the fake address 198.18.0.5, a server that answers with one address, and an
outbound that takes every flow. -/
def sampleRouter (rules : List (Rule Unit Unit)) : Router Unit Unit String where
  rules := rules
  searchProcessInfo := id
  fakeIPContains := (· == .v4 0xC6120005)
  fakeIPLookup := fun _ => some "example.org"
  lookupReverseMapping := fun _ => none
  isDomainName := (· != "")
  lookup := fun _ _ => some [.v4 0x5DB8D822]
  defaultPacketSniffers := []
  quicClientHello := fun context sniffContext _ => (context, sniffContext, none)
  sniffStream := fun _ metadata => some metadata
  outbound := fun tag => if tag = "wg" then some tag else none
  defaultOutbound := "direct"
  selected := fun _ => none
  supportsNetwork := fun _ _ => true
  flowAction := fun outbound => if outbound = "wg" then some fun _ _ => .flow else none
  depth := 1
  portProtocol := fun _ => ""
  protocolTimeout := fun _ => 0

/-- A rule for all connections. -/
def always (action : Action Unit Unit) : Rule Unit Unit := ⟨fun _ => true, action⟩

/-- To the outbound. -/
def toOutbound : Rule Unit Unit := always (.route {} "wg")

/-- A connection to the fake address. -/
def toFakeAddress : Metadata Unit where
  context := { network := "udp", destination := { addr := .v4 0xC6120005, port := 443 } }

/-- With a lookup the flow is taken to the resolved address, and so is the connection. -/
theorem preMatch_agrees_example :
    (preMatch (sampleRouter [always (.resolve ()), toOutbound]) toFakeAddress [1]).destination =
      some (.v4 0x5DB8D822, 443) ∧
    Agrees (sampleRouter [always (.resolve ()), toOutbound]) toFakeAddress.context.destination
      (preMatch (sampleRouter [always (.resolve ()), toOutbound]) toFakeAddress [1])
      (route (sampleRouter [always (.resolve ()), toOutbound]) toFakeAddress [some [1]]) := by
  refine ⟨by decide, preMatch_agrees _ _ _ [] ?_ rfl fun prepared _ => ?_⟩
  · intro rule hr
    simp only [sampleRouter, mem_cons, not_mem_nil, or_false] at hr
    rcases hr with rfl | rfl
    · trivial
    · exact (by decide : "wg" ≠ "")
  · refine overridesUnresolved_of_forall (fun rule hr => ?_) prepared
    simp only [sampleRouter, mem_cons, not_mem_nil, or_false] at hr
    rcases hr with rfl | rfl <;> rfl

/-- Without a lookup the pre-match rejects the connection, and the full match routes it. -/
theorem rejects_routed :
    (preMatch (sampleRouter [toOutbound]) toFakeAddress [1]).action = .reject ∧
    ∃ metadata,
      route (sampleRouter [toOutbound]) toFakeAddress [some [1]] = .routed "wg" metadata :=
  ⟨by decide, _, rfl⟩

/-- The destination is resolved, and then replaced by another domain. -/
def resolvedThenOverridden : List (Rule Unit Unit) :=
  [always (.resolve ()), always (.routeOptions { overrideAddress := { fqdn := "other.org" } }),
    toOutbound]

/-- The full match drops the addresses of the old domain, and the pre-match takes the flow to one of
them. -/
example : (preMatch (sampleRouter resolvedThenOverridden) toFakeAddress [1]).destination =
      some (.v4 0x5DB8D822, 443) ∧
    ∃ metadata, route (sampleRouter resolvedThenOverridden) toFakeAddress [some [1]] =
      .routed "wg" metadata ∧ metadata.context.destination = { fqdn := "other.org", port := 443 } ∧
        metadata.context.destinationAddresses = [] :=
  ⟨by decide, _, rfl, rfl, rfl⟩

end SingBox.Route.PreMatch
