import SingBox.LxMTU.Table

/-!
# The resolver of the detour graph

The outbounds and endpoints of a configuration form a graph: a node dials through its `detour`, a
group through its members. `Resolver.Align` aligns every node with the capacity of its detour. The
capacity of a tunnel is its own aligned mtu, so the two are computed by mutual recursion, with a
memo for each and marks for the nodes in progress.

The recursion of the source always ends, because of the marks. Here its depth is bounded by `fuel`;
`align` gives it one more than there are nodes.
-/

namespace SingBox.LxMTU

/-- The fields of an outbound or endpoint that the resolver reads: zero or empty is absent. -/
structure Node where
  tag : String
  type : NodeType
  server : Server
  detour : String := ""
  /-- The field `mtu`; of a Tailscale endpoint `system_interface_mtu`. -/
  mtu : ℕ := 0
  s4 : ℕ := 0
  /-- Some prefix of `address` is one of IPv6. -/
  address6 : Bool := false
  initialPacketSize : ℤ := 0
  disablePathMTUDiscovery : Bool := false
  outbounds : List String := []
deriving DecidableEq

/-- `capacity`: the value is `none` if it is unlimited. -/
structure Capacity where
  value : Option ℕ := none
  reason : String := ""
  warning : String := ""
deriving DecidableEq

/-- What the alignment of a node gives: the node with its fields changed, the decisions, and the
effective mtu of a tunnel. -/
structure Outcome where
  node : Node
  decisions : List Decision
  mtu : ℕ
deriving DecidableEq

/-- The conversion of an `int` to `uint32`. -/
def toUInt32 (i : ℤ) : ℕ := (i % 2 ^ 32).toNat

namespace Node

/-- The mtu of `tunnelFields`, with the default of the type. -/
def tunnelMTU (n : Node) : ℕ :=
  if isTunnelType n.type then if n.mtu ≠ 0 then n.mtu else tunnelDefaultMTU n.type else 0

def tunnelPadding (n : Node) : ℕ := if n.type = .wireguard then n.s4 else 0

def carriesIPv6 (n : Node) : Bool :=
  match n.type with
  | .wireguard => n.address6
  | .masque => true
  | _ => false

/-- The overhead of a tunnel, if it is known. -/
def overhead (n : Node) : Option ℕ := tunnelOverhead n.type n.server n.tunnelPadding

def describeTunnel (n : Node) (mtu : ℕ) : String :=
  n.tag ++ "[" ++ n.type.name ++ "] mtu " ++ toString mtu

/-- A decision that keeps the mtu of a tunnel. -/
def kept (n : Node) (reason warning : String) : Decision where
  tag := n.tag
  field := "mtu"
  configured := n.tunnelMTU
  effective := n.tunnelMTU
  explicit := n.mtu ≠ 0
  reason := reason
  warning := warning

/-- The part of `alignOf` for a tunnel on top of a detour that carries `capacity` bytes. -/
def alignTunnel (policy : Policy) (n : Node) (capacity : ℕ) (reason : String) : Outcome :=
  match n.overhead with
  | none =>
    let decision := n.kept ("kept (overhead of " ++ n.type.name ++ " unknown)")
      (n.tag ++ "[" ++ n.type.name ++ "] mtu not aligned: overhead of " ++ n.type.name ++
        " is unknown (detour " ++ reason ++ ")")
    ⟨n, [decision], n.tunnelMTU⟩
  | some overhead =>
    let limit : ℤ := capacity - overhead
    let reason := "detour " ++ reason ++ " " ++ overheadText overhead n.server n.tunnelPadding
    if limit ≤ 0 then
      let decision :=
        n.kept "" (n.tag ++ " mtu not aligned: capacity below too small (" ++ reason ++ ")")
      ⟨n, [decision], n.tunnelMTU⟩
    else
      let (size, floored) := floorIPv6 limit n.carriesIPv6
      let reason := if floored then reason ++ "; floor " ++ toString ipv6MinimumMTU else reason
      let decision := policy.apply n.tag "mtu" n.tunnelMTU (n.mtu ≠ 0) size.toNat reason
      let node := if decision.changed then { n with mtu := decision.effective } else n
      let decision :=
        if floored ∧ limit.toNat < decision.effective ∧ policy.mode ≠ .off then
          { decision with
            warning :=
              joinWarning decision.warning (floorWarning n.tag decision.effective limit reason) }
        else decision
      ⟨node, [decision], decision.effective⟩

/-- The part of `alignQUIC` for a detour that carries `capacity` bytes. -/
def alignQUIC (policy : Policy) (n : Node) (capacity : ℕ) (reason : String) : Outcome :=
  let overhead := ipUDP n.server
  let limit : ℤ := capacity - overhead
  let (size, raised) := quicClamp limit
  let configured := toUInt32 n.initialPacketSize
  let decision := policy.apply n.tag "initial_packet_size" configured (configured ≠ 0) size.toNat
    ("detour " ++ reason ++ " − " ++ toString overhead ++ " " ++ n.server.family)
  let node :=
    if decision.changed then
      { n with initialPacketSize := decision.effective, disablePathMTUDiscovery := true }
    else n
  let decision :=
    if decision.changed then { decision with reason := decision.reason ++ "; pmtud off" }
    else decision
  let decision :=
    if raised ∧ (decision.changed ∨ decision.warning ≠ "") then
      { decision with warning := joinWarning decision.warning (quicWarning n.tag size limit) }
    else decision
  ⟨node, [decision], 0⟩

/-- The decision that passes the warning of an unlimited detour on. -/
def unlimited (n : Node) (warning : String) : List Decision :=
  if warning = "" then []
  else if isQUICType n.type then
    [{ tag := n.tag, field := "initial_packet_size", configured := toUInt32 n.initialPacketSize,
       effective := toUInt32 n.initialPacketSize, explicit := n.initialPacketSize ≠ 0, warning }]
  else [n.kept "" warning]

/-- `alignOf` after the capacity of the detour is known. -/
def align (policy : Policy) (n : Node) (c : Capacity) : Outcome :=
  match c.value with
  | none => ⟨n, n.unlimited c.warning, n.tunnelMTU⟩
  | some capacity =>
    if isQUICType n.type then n.alignQUIC policy capacity c.reason
    else n.alignTunnel policy capacity c.reason

/-- The node has a size to align and a detour to align it with. -/
def aligns (n : Node) : Bool := (isQUICType n.type || isTunnelType n.type) && n.detour ≠ ""

end Node

inductive AlignState where
  | pending
  | inProgress
  | done
deriving DecidableEq

/-- `Resolver`, without the policy and the order of the tags. -/
structure Resolver where
  nodes : String → Option Node
  capacities : String → Option Capacity := fun _ => none
  visiting : String → Bool := fun _ => false
  aligning : String → AlignState := fun _ => .pending
  effective : String → ℕ := fun _ => 0
  decisions : String → List Decision := fun _ => []

namespace Resolver

def configuredMTU (r : Resolver) (tag : String) : ℕ :=
  match r.nodes tag with
  | none => 0
  | some n => n.tunnelMTU

/-- The outcome of a node is written down. -/
def record (r : Resolver) (tag : String) (o : Outcome) : Resolver :=
  { r with
    nodes := Function.update r.nodes tag (some o.node)
    decisions := Function.update r.decisions tag (r.decisions tag ++ o.decisions) }

variable (policy : Policy)

section Open

-- `Capacity`, for the nodes further down.
variable (capacity : String → Resolver → Capacity × Resolver)

def alignOf (tag : String) (r : Resolver) : ℕ × Resolver :=
  match r.nodes tag with
  | none => (0, r)
  | some n =>
    if n.aligns then
      let (c, r) := capacity n.detour r
      let o := n.align policy c
      (o.mtu, r.record tag o)
    else (n.tunnelMTU, r)

def alignNode (tag : String) (r : Resolver) : ℕ × Resolver :=
  match r.aligning tag with
  | .done => (r.effective tag, r)
  | .inProgress => (r.configuredMTU tag, r)
  | .pending =>
    let r := { r with aligning := Function.update r.aligning tag .inProgress }
    let (mtu, r) := alignOf policy capacity tag r
    (mtu, { r with
      effective := Function.update r.effective tag mtu
      aligning := Function.update r.aligning tag .done })

/-- The capacity of a tunnel with the mtu `mtu`, where zero is not known. -/
def tunnelCapacity (n : Node) (mtu : ℕ) : Capacity :=
  if mtu = 0 then {} else { value := some mtu, reason := n.describeTunnel mtu }

/-- One round of the loop of `groupCapacity`. -/
def addMember (n : Node) (result member : Capacity) : Capacity :=
  match member.value, result.value with
  | some v, none => { result with value := some v, reason := member.reason ++ " via " ++ n.tag }
  | some v, some w =>
    if v < w then { result with value := some v, reason := member.reason ++ " via " ++ n.tag }
    else result
  | none, _ =>
    if member.warning ≠ "" ∧ result.warning = "" then { result with warning := member.warning }
    else result

/-- The end of `groupCapacity`: the warning is reported only if the group is unlimited. -/
def groupResult (result : Capacity) : Capacity :=
  if result.value.isSome then { result with warning := "" } else result

/-- The loop of `groupCapacity`. -/
def groupLoop (n : Node) : List String → Capacity → Resolver → Capacity × Resolver
  | [], result, r => (result, r)
  | member :: members, result, r =>
    let (c, r) := capacity member r
    groupLoop n members (addMember n result c) r

/-- The warning of a chain as a detour. -/
def chainWarning (tag : String) : String :=
  "chain " ++ tag ++ " as a detour target aligns its own links; nodes above it are not aligned"

/-- The mtu of a Tailscale endpoint. -/
def tailscaleMTU (n : Node) : ℕ := if n.mtu = 0 then defaultTailscaleMTU else n.mtu

def capacityOf (tag : String) (r : Resolver) : Capacity × Resolver :=
  match r.nodes tag with
  | none => ({}, r)
  | some n =>
    match n.type with
    | .wireguard | .masque | .openVPNClient | .openConnect =>
      let (mtu, r) := alignNode policy capacity tag r
      (tunnelCapacity n mtu, r)
    | .tailscale => (tunnelCapacity n (tailscaleMTU n), r)
    | .selector | .urltest =>
      let (c, r) := groupLoop capacity n n.outbounds {} r
      (groupResult c, r)
    | .chain => ({ warning := chainWarning tag }, r)
    | _ => ({}, r)

end Open

def capacity : ℕ → String → Resolver → Capacity × Resolver
  | 0, _, r => ({}, r)
  | fuel + 1, tag, r =>
    match r.capacities tag with
    | some memo => (memo, r)
    | none =>
      if r.visiting tag then ({}, r)
      else
        let r := { r with visiting := Function.update r.visiting tag true }
        let (c, r) := capacityOf policy (capacity fuel) tag r
        (c, { r with
          visiting := Function.update r.visiting tag false
          capacities := Function.update r.capacities tag (some c) })

end Resolver

/-- `index`: the first node with a tag counts. -/
def index (acc : List String × (String → Option Node)) (n : Node) :
    List String × (String → Option Node) :=
  if (acc.2 n.tag).isSome then acc
  else (acc.1 ++ [n.tag], Function.update acc.2 n.tag (some n))

/-- `NewResolver`: the order of the tags, and the nodes. -/
def newResolver (config : List Node) : List String × (String → Option Node) :=
  config.foldl index ([], fun _ => none)

/-- `Validate`: the excepted tags that name no node. -/
def unknownTags (policy : Policy) (nodes : String → Option Node) : List String :=
  (policy.except.dedup.filter fun tag => (nodes tag).isNone).insertionSort (· ≤ ·)

/-- `Align`, with the final state of the resolver. -/
def align (policy : Policy) (config : List Node) : Except String (List Decision × Resolver) :=
  let (order, nodes) := newResolver config
  let unknown := unknownTags policy nodes
  if unknown ≠ [] then
    .error ("lx.mtu_align.except: unknown outbound/endpoint tag: " ++ ", ".intercalate unknown)
  else if policy.mode = .off then .ok ([], { nodes })
  else
    let r := order.foldl
      (fun r tag =>
        (Resolver.alignNode policy (Resolver.capacity policy (order.length + 1)) tag r).2)
      { nodes }
    .ok (order.flatMap r.decisions, r)

end SingBox.LxMTU
