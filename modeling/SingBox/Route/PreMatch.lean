import SingBox.Adapter.InboundContext

/-!
# Pre-match

A connection is routed by matching its metadata against the rules. For a flow that the kernel or a
tunnel could forward by itself, the router first runs the pre-match, which interprets the same rules
without a connection: it has the metadata and the first packet.

The two interpreters are separate functions of the source. The rules, the sniffers, the DNS lookups
and the selections of the groups are parameters here, and the same for both.
-/

namespace SingBox.Route.PreMatch

open SingBox.Net SingBox.Adapter

/-- An error of a sniffer, or of several. -/
structure SniffError where
  needMoreData : Bool
deriving DecidableEq, Repr

def SniffError.join (a : Option SniffError) (b : SniffError) : SniffError :=
  ⟨a.any SniffError.needMoreData || b.needMoreData⟩

/-- The metadata of a connection: what the rules read, and what else the two interpreters keep. -/
structure Metadata (χ : Type) where
  context : InboundContext
  originDestination : Socksaddr := {}
  fakeIP : Bool := false
  udpTimeout : ℕ := 0
  snifferNames : List String := []
  sniffError : Option SniffError := none
  sniffContext : Option χ := none
  routeOriginalDestination : Socksaddr := {}

/-- A sniffer looks at a packet, and may change the metadata and the context of the sniffers. -/
abbrev Sniffer (χ : Type) :=
  InboundContext → Option χ → List UInt8 → InboundContext × Option χ × Option SniffError

/-- A sniff action. -/
structure SniffAction (χ : Type) where
  snifferNames : List String
  streamSniffers : List (Sniffer χ)
  packetSniffers : List (Sniffer χ)
  overrideDestination : Bool

/-- The options of a route that change the destination or the timeout. -/
structure RouteOptions where
  overrideAddress : Socksaddr := {}
  overridePort : ℕ := 0
  udpTimeout : ℕ := 0
deriving DecidableEq, Repr

/-- What the error of a reject action is. It is `nil` for the method `reply`. -/
inductive RejectError
  | reply
  | reset
  | drop
deriving DecidableEq, Repr

/-- The actions of route rules; `ρ` are the options of a resolve action. -/
inductive Action (χ ρ : Type)
  | route (options : RouteOptions) (outbound : String)
  | routeOptions (options : RouteOptions)
  | bypass (options : RouteOptions) (outbound : String)
  | reject (error : RejectError)
  | hijackDNS
  | sniff (action : SniffAction χ)
  | resolve (action : ρ)

/-- A rule. -/
structure Rule (χ ρ : Type) where
  matchesContext : InboundContext → Bool
  action : Action χ ρ

/-- The answers of the pre-match, and of an outbound that is asked for a flow. -/
inductive PreMatchAction
  | continueMatch
  | flow
  | reject
  | drop
  | bypass
  | hijackDNS
deriving DecidableEq, Repr

/-- The router and what it uses; `ο` are the outbounds. -/
structure Router (χ ρ ο : Type) where
  rules : List (Rule χ ρ)
  /-- The lookups of the process and of the neighbour. -/
  searchProcessInfo : InboundContext → InboundContext
  fakeIPContains : Addr → Bool
  fakeIPLookup : Addr → Option String
  lookupReverseMapping : Addr → Option String
  isDomainName : String → Bool
  /-- A DNS lookup for the destination, with the options of the action. -/
  lookup : ρ → InboundContext → Option (List Addr)
  defaultPacketSniffers : List (Sniffer χ)
  quicClientHello : Sniffer χ
  sniffStream : SniffAction χ → Metadata χ → Option (Metadata χ)
  outbound : String → Option ο
  defaultOutbound : ο
  /-- The selection of an outbound that is a group. -/
  selected : ο → Option (String → Option ο)
  supportsNetwork : ο → String → Bool
  /-- The answer of an outbound that can take a flow. -/
  flowAction : ο → Option (String → Addr → PreMatchAction)
  /-- A bound on how deep groups are nested. -/
  depth : ℕ
  portProtocol : ℕ → String
  protocolTimeout : String → ℕ

variable {χ ρ ο : Type}

/-! ### What both interpreters use -/

/-- `prepareMatchMetadata`, which fails if a fake address has no record. -/
def prepareMatchMetadata (r : Router χ ρ ο) (metadata : Metadata χ) : Option (Metadata χ) :=
  let context := r.searchProcessInfo metadata.context
  let destination := context.destination
  let prepared :=
    if destination.addr.isValid ∧ r.fakeIPContains destination.addr then
      (r.fakeIPLookup destination.addr).map fun domain =>
        if domain ≠ "" then
          { metadata with
            context := { context with destination := { fqdn := domain, port := destination.port } }
            originDestination := destination
            fakeIP := true }
        else { metadata with context := context }
    else if context.domain = "" then
      match r.lookupReverseMapping destination.addr with
      | some domain => some { metadata with context := { context with domain := domain } }
      | none => some { metadata with context := context }
    else some { metadata with context := context }
  prepared.map fun metadata =>
    if metadata.context.destination.addr.is4 then
      { metadata with context := { metadata.context with ipVersion := 4 } }
    else if metadata.context.destination.addr.is6 then
      { metadata with context := { metadata.context with ipVersion := 6 } }
    else metadata

/-- The metadata with another destination. -/
def Metadata.withDestination (metadata : Metadata χ) (destination : Socksaddr) : Metadata χ :=
  { metadata with context := { metadata.context with destination := destination } }

/-- The metadata with other resolved addresses. -/
def Metadata.withAddresses (metadata : Metadata χ) (addresses : List Addr) : Metadata χ :=
  { metadata with context := { metadata.context with destinationAddresses := addresses } }

/-- The metadata with another original destination. -/
def Metadata.withOriginal (metadata : Metadata χ) (original : Socksaddr) : Metadata χ :=
  { metadata with routeOriginalDestination := original }

/-- `Socksaddr.IsDomain`. -/
def isDomain (r : Router χ ρ ο) (s : Socksaddr) : Bool := r.isDomainName s.fqdn

/-- The options have an address to go to instead. -/
def overridesAddress (r : Router χ ρ ο) (options : RouteOptions) : Bool :=
  options.overrideAddress.isIP || isDomain r options.overrideAddress

def applyRouteOptionsOverride (r : Router χ ρ ο) (options : RouteOptions)
    (metadata : Metadata χ) : Metadata χ :=
  let metadata :=
    if overridesAddress r options then
      metadata.withDestination
        { options.overrideAddress with port := metadata.context.destination.port }
    else metadata
  let metadata :=
    if 0 < options.overridePort then
      metadata.withDestination { metadata.context.destination with port := options.overridePort }
    else metadata
  if 0 < options.udpTimeout then { metadata with udpTimeout := options.udpTimeout } else metadata

/-- `resolveOutbound`: the chain of groups down to an outbound that supports the network. -/
def resolveOutbound (r : Router χ ρ ο) (network : String) : ℕ → ο → Option (List ο)
  | 0, _ => none
  | fuel + 1, outbound =>
    match r.selected outbound with
    | none => if r.supportsNetwork outbound network then some [outbound] else none
    | some selected =>
      (selected network).bind fun next =>
        (resolveOutbound r network fuel next).map (outbound :: ·)

/-- The outbound at the end of the chain. -/
def finalOutbound (r : Router χ ρ ο) (network : String) (outbound : ο) : Option ο :=
  (resolveOutbound r network r.depth outbound).bind List.getLast?

/-- `PeekPacket`: the sniffers one after the other, up to the first that succeeds. -/
def peekPacket (packet : List UInt8) : List (Sniffer χ) → InboundContext → Option χ →
    Option SniffError → InboundContext × Option χ × Option SniffError
  | [], context, sniffContext, error => (context, sniffContext, error)
  | sniffer :: sniffers, context, sniffContext, error =>
    match sniffer context sniffContext packet with
    | (context, sniffContext, none) => (context, sniffContext, none)
    | (context, sniffContext, some e) =>
      peekPacket packet sniffers context sniffContext (some (.join error e))

/-- The sniffers look at a packet, and what they found is kept. -/
def peek (sniffers : List (Sniffer χ)) (action : SniffAction χ) (metadata : Metadata χ)
    (packet : List UInt8) : Metadata χ :=
  let (context, sniffContext, error) :=
    peekPacket packet sniffers metadata.context metadata.sniffContext none
  { metadata with
    context := context
    sniffContext := sniffContext
    snifferNames := action.snifferNames
    sniffError := error }

/-- The sniffers of an action for packets. -/
def packetSniffers (r : Router χ ρ ο) (action : SniffAction χ) : List (Sniffer χ) :=
  if action.packetSniffers.isEmpty then r.defaultPacketSniffers else action.packetSniffers

/-- The last sniffers need more data. -/
def Metadata.needsMoreData (metadata : Metadata χ) : Bool :=
  metadata.sniffError.any SniffError.needMoreData

/-- `sniff.Skip`: the ports of protocols in which the server speaks first. -/
def skip (metadata : Metadata χ) : Bool :=
  metadata.context.destination.port ∈ [25, 465, 587, 143, 993, 110, 995]

/-- The destination after a successful sniff action. -/
def overrideSniffed (r : Router χ ρ ο) (action : SniffAction χ) (metadata : Metadata χ) :
    Metadata χ :=
  if action.overrideDestination ∧ r.isDomainName metadata.context.domain then
    metadata.withDestination
      { fqdn := metadata.context.domain, port := metadata.context.destination.port }
  else metadata

/-- The end of a sniff action. -/
def finishSniff (r : Router χ ρ ο) (action : SniffAction χ) (metadata : Metadata χ) :
    Metadata χ :=
  if metadata.sniffError = none then overrideSniffed r action metadata else metadata

/-- `actionResolve`, which fails if the lookup does. -/
def actionResolve (r : Router χ ρ ο) (action : ρ) (metadata : Metadata χ) :
    Option (Metadata χ) :=
  if isDomain r metadata.context.destination then
    (r.lookup action metadata.context).map metadata.withAddresses
  else some metadata

/-- `ResetRuleCache`. -/
def Metadata.reset (metadata : Metadata χ) : Metadata χ :=
  { metadata with context := metadata.context.resetRuleCache }

/-! ### The pre-match -/

/-- What the pre-match answers. -/
structure PreMatchResult (ο : Type) where
  action : PreMatchAction
  outbound : Option ο := none
  destination : Option (Addr × ℕ) := none
  udpTimeout : ℕ := 0
deriving DecidableEq, Repr

/-- The answer that leaves the decision to the full match. -/
def continueResult : PreMatchResult ο := { action := .continueMatch }

/-- The timeout of a UDP flow. -/
def flowTimeout (r : Router χ ρ ο) (metadata : Metadata χ) : ℕ :=
  if metadata.context.network ≠ "udp" then 0
  else if 0 < metadata.udpTimeout then metadata.udpTimeout
  else
    let protocol := if metadata.context.protocol = "" then
      r.portProtocol metadata.context.destination.port else metadata.context.protocol
    if protocol = "" then 0 else r.protocolTimeout protocol

/-- The first resolved address of the family of the packet. -/
def newDestination (packetDestination : Socksaddr) (metadata : Metadata χ) : Addr :=
  (metadata.context.destinationAddresses.find? fun address =>
    address.is4 == packetDestination.addr.is4).getD .invalid

/-- `preMatchFlow` for the outbound at the end of the chain. -/
def flowVia (r : Router χ ρ ο) (packetDestination : Socksaddr) (metadata : Metadata χ)
    (outbound : ο) : PreMatchResult ο :=
  match r.flowAction outbound with
  | none => continueResult
  | some flowAction =>
    let network := metadata.context.network
    let destination := metadata.context.destination
    let verdict := flowAction network destination.addr
    if verdict ≠ .flow then { action := verdict, outbound := some outbound }
    else if isDomain r destination then
      if metadata.fakeIP then
        let address := newDestination packetDestination metadata
        if address.isValid then
          let verdict := flowAction network address
          if verdict ≠ .flow then { action := verdict, outbound := some outbound }
          else
            { action := .flow, outbound := some outbound,
              destination := some (address, destination.port),
              udpTimeout := flowTimeout r metadata }
        else { action := .reject }
      else continueResult
    else
      { action := .flow, outbound := some outbound,
        destination := if destination ≠ packetDestination then
          some (destination.addr, destination.port) else none,
        udpTimeout := flowTimeout r metadata }

def preMatchFlow (r : Router χ ρ ο) (packetDestination : Socksaddr) (metadata : Metadata χ)
    (outboundTag : String) : PreMatchResult ο :=
  let outbound := if outboundTag = "" then some r.defaultOutbound else r.outbound outboundTag
  match outbound.bind (finalOutbound r metadata.context.network) with
  | none => continueResult
  | some outbound => flowVia r packetDestination metadata outbound

/-- What a rule does in the pre-match. -/
inductive Step (χ ο : Type)
  | next (metadata : Metadata χ)
  | done (result : PreMatchResult ο)

/-- A sniff action in the pre-match. -/
def preMatchSniff (r : Router χ ρ ο) (firstPacket : List UInt8) (action : SniffAction χ)
    (metadata : Metadata χ) : Step χ ο :=
  if metadata.context.network = "icmp" then .next metadata
  else if metadata.context.network ≠ "udp" ∨ firstPacket = [] then .done continueResult
  else if skip metadata ∨ metadata.context.protocol ≠ "" then .next metadata
  else if action.packetSniffers.isEmpty ∧ ¬ action.streamSniffers.isEmpty then .next metadata
  else if metadata.snifferNames = action.snifferNames ∧ metadata.sniffError ≠ none then
    .next metadata
  else
    let metadata := peek (packetSniffers r action) action metadata firstPacket
    if metadata.needsMoreData then .done continueResult
    else .next (finishSniff r action metadata)

/-- The bypass action in the pre-match. -/
def preMatchBypass (r : Router χ ρ ο) (packetDestination : Socksaddr) (metadata : Metadata χ)
    (outbound : String) : PreMatchResult ο :=
  let changed := isDomain r metadata.context.destination ∨
    metadata.context.destination ≠ packetDestination
  if outbound = "" then
    if changed then continueResult else { action := .bypass }
  else
    let result := preMatchFlow r packetDestination metadata outbound
    if changed then result
    else if result.action ≠ .flow then { action := .bypass }
    else { result with action := .bypass }

/-- A reject action in the pre-match. -/
def preMatchReject (error : RejectError) (metadata : Metadata χ) : PreMatchResult ο :=
  if error = .reply ∧ metadata.context.network = "icmp" then continueResult
  else if error = .drop then { action := .drop }
  else { action := .reject }

/-- One rule that matches in the pre-match. -/
def preMatchAction (r : Router χ ρ ο) (packetDestination : Socksaddr) (firstPacket : List UInt8)
    (metadata : Metadata χ) : Action χ ρ → Step χ ο
  | .sniff action => preMatchSniff r firstPacket action metadata
  | .routeOptions options => .next (applyRouteOptionsOverride r options metadata)
  | .route options outbound =>
    .done (preMatchFlow r packetDestination (applyRouteOptionsOverride r options metadata)
      outbound)
  | .bypass options outbound =>
    .done (preMatchBypass r packetDestination (applyRouteOptionsOverride r options metadata)
      outbound)
  | .reject error => .done (preMatchReject error metadata)
  | .hijackDNS =>
    .done (if metadata.context.network ≠ "udp" then continueResult else { action := .hijackDNS })
  | .resolve action =>
    match actionResolve r action metadata with
    | none => .done { action := .reject }
    | some metadata => .next metadata

/-- The loop of `PreMatch` over the rules. -/
def preMatchRules (r : Router χ ρ ο) (packetDestination : Socksaddr) (firstPacket : List UInt8) :
    List (Rule χ ρ) → Metadata χ → PreMatchResult ο
  | [], metadata => preMatchFlow r packetDestination metadata ""
  | rule :: rules, metadata =>
    let metadata := metadata.reset
    if rule.matchesContext metadata.context then
      match preMatchAction r packetDestination firstPacket metadata rule.action with
      | .done result => result
      | .next metadata => preMatchRules r packetDestination firstPacket rules metadata
    else preMatchRules r packetDestination firstPacket rules metadata

def preMatch (r : Router χ ρ ο) (metadata : Metadata χ) (firstPacket : List UInt8) :
    PreMatchResult ο :=
  match prepareMatchMetadata r metadata with
  | none => continueResult
  | some prepared =>
    preMatchRules r metadata.context.destination firstPacket r.rules prepared

/-! ### The full match -/

/-- The next read of packets gives a packet or an error that is not a timeout. -/
abbrev PacketArrival := Option (List UInt8)

/-- The sniffers have to go on with the QUIC sniffer. -/
def quicMoreData (action : SniffAction χ) (metadata : Metadata χ) : Bool :=
  metadata.snifferNames == action.snifferNames && metadata.needsMoreData

/-- A sniff action looks at one packet. -/
def sniffPacket (r : Router χ ρ ο) (action : SniffAction χ) (metadata : Metadata χ)
    (packet : List UInt8) : Metadata χ :=
  if quicMoreData action metadata then peek [r.quicClientHello] action metadata packet
  else peek (packetSniffers r action) action metadata packet

/-- The packets that were read before, up to one that is enough. -/
def sniffBuffered (r : Router χ ρ ο) (action : SniffAction χ) :
    List (List UInt8) → Metadata χ → Metadata χ × Bool
  | [], metadata => (metadata, false)
  | packet :: packets, metadata =>
    let metadata := sniffPacket r action metadata packet
    if metadata.needsMoreData then sniffBuffered r action packets metadata else (metadata, true)

/-- The packets that are read now. After the last one the read times out. -/
def sniffArrivals (r : Router χ ρ ο) (action : SniffAction χ) :
    List PacketArrival → Metadata χ → List (List UInt8) →
      Option (Metadata χ × List (List UInt8) × List PacketArrival)
  | [], metadata, packets => some (metadata, packets, [])
  | none :: _, _, _ => none
  | some packet :: arrivals, metadata, packets =>
    let metadata := sniffPacket r action metadata packet
    if metadata.needsMoreData then sniffArrivals r action arrivals metadata (packets ++ [packet])
    else some (finishSniff r action metadata, packets ++ [packet], arrivals)

/-- `actionSniff`: the metadata, the packets that were read and what is left, or a fatal error. -/
def actionSniff (r : Router χ ρ ο) (action : SniffAction χ) (metadata : Metadata χ)
    (packets : List (List UInt8)) (arrivals : List PacketArrival) :
    Option (Metadata χ × List (List UInt8) × List PacketArrival) :=
  if skip metadata ∨ metadata.context.protocol ≠ "" then some (metadata, [], arrivals)
  else if metadata.context.network = "tcp" then
    (r.sniffStream action metadata).map fun metadata => (metadata, [], arrivals)
  else if metadata.context.network = "udp" then
    if action.packetSniffers.isEmpty ∧ ¬ action.streamSniffers.isEmpty then
      some (metadata, [], arrivals)
    else if metadata.snifferNames = action.snifferNames ∧ metadata.sniffError ≠ none ∧
        ¬ metadata.needsMoreData then some (metadata, [], arrivals)
    else
      match sniffBuffered r action packets metadata with
      | (metadata, true) => some (finishSniff r action metadata, [], arrivals)
      | (metadata, false) => sniffArrivals r action arrivals metadata []
  else some (metadata, [], arrivals)

/-- The options of a rule in the full match. -/
def applyRouteOptions (r : Router χ ρ ο) (options : RouteOptions) (metadata : Metadata χ) :
    Metadata χ :=
  let original := metadata.routeOriginalDestination
  let metadata :=
    if (overridesAddress r options ∨ 0 < options.overridePort) ∧
        ¬ (original.isIP ∨ isDomain r original) then
      metadata.withOriginal metadata.context.destination
    else metadata
  let metadata := if overridesAddress r options then metadata.withAddresses [] else metadata
  applyRouteOptionsOverride r options metadata

/-- What the full match ends in. -/
inductive Outcome (χ ο : Type)
  | failed
  | resolveFailed
  | rejected
  | hijackedDNS
  | routed (outbound : ο) (metadata : Metadata χ)

/-- The selected outbound and its chain. -/
def routeTo (r : Router χ ρ ο) (outbound : Option ο) (metadata : Metadata χ) : Outcome χ ο :=
  match outbound.bind (finalOutbound r metadata.context.network) with
  | none => .failed
  | some outbound => .routed outbound metadata

/-- `matchRule` and what follows it: the loop over the rules. -/
def routeRules (r : Router χ ρ ο) : List (Rule χ ρ) → Metadata χ → List (List UInt8) →
    List PacketArrival → Outcome χ ο
  | [], metadata, _, _ => routeTo r (some r.defaultOutbound) metadata
  | rule :: rules, metadata, packets, arrivals =>
    let metadata := metadata.reset
    if rule.matchesContext metadata.context then
      match rule.action with
      | .route options outbound =>
        routeTo r (r.outbound outbound) (applyRouteOptions r options metadata)
      | .routeOptions options =>
        routeRules r rules (applyRouteOptions r options metadata) packets arrivals
      | .bypass options outbound =>
        if outbound = "" then routeRules r rules metadata packets arrivals
        else routeTo r (r.outbound outbound) (applyRouteOptions r options metadata)
      | .reject _ => .rejected
      | .hijackDNS => .hijackedDNS
      | .sniff action =>
        match actionSniff r action metadata packets arrivals with
        | none => .failed
        | some (metadata, newPackets, arrivals) =>
          routeRules r rules metadata (packets ++ newPackets) arrivals
      | .resolve action =>
        match actionResolve r action metadata with
        | none => .resolveFailed
        | some metadata => routeRules r rules metadata packets arrivals
    else routeRules r rules metadata packets arrivals

/-- The full match of a connection with the packets that arrive on it. -/
def route (r : Router χ ρ ο) (metadata : Metadata χ) (arrivals : List PacketArrival) :
    Outcome χ ο :=
  match prepareMatchMetadata r metadata with
  | none => .failed
  | some metadata => routeRules r r.rules metadata [] arrivals

end SingBox.Route.PreMatch
