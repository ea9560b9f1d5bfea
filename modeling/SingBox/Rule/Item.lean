import SingBox.Adapter.InboundContext

/-!
# Rule items

A default rule keeps its items in six lists, one for each way of combining them. The lists are
typed here by what the constructors of the source put in them: domain items, destination IP
items, source address items, port items and plain items. Compiled regular expressions, IP sets
and domain matchers come from other packages and enter as the functions they compute; what an
item asks of the network manager or the Clash mode manager enters as the answer it gets.
-/

namespace SingBox.Rule

open SingBox.Net SingBox.Adapter

/-! ### Addresses and ports -/

/-- `IPCIDRItem.Match`. -/
def ipCIDRItemMatch (ipSet : Addr → Bool) (isSource : Bool) (c : InboundContext) : Bool :=
  if isSource || c.ipCIDRMatchSource then ipSet c.source.addr
  else if c.destinationAddressMatchFromResponse then
    let addresses := c.dnsResponseAddressesForMatch
    if addresses.isEmpty then c.ipCIDRAcceptEmpty else addresses.any ipSet
  else if c.destination.isIP then ipSet c.destination.addr
  else if !c.destinationAddresses.isEmpty then c.destinationAddresses.any ipSet
  else c.ipCIDRAcceptEmpty

/-- `IPIsPrivateItem.Match`; `isPublicAddr` is `N.IsPublicAddr`. -/
def ipIsPrivateItemMatch (isPublicAddr : Addr → Bool) (isSource : Bool) (c : InboundContext) :
    Bool :=
  if isSource then !isPublicAddr c.source.addr
  else if c.destinationAddressMatchFromResponse then
    c.dnsResponseAddressesForMatch.any fun a => !isPublicAddr a
  else if c.destination.addr.isValid then !isPublicAddr c.destination.addr
  else c.destinationAddresses.any fun a => !isPublicAddr a

/-- `IPAcceptAnyItem.Match`. -/
def ipAcceptAnyItemMatch (c : InboundContext) : Bool :=
  if c.destinationAddressMatchFromResponse then !c.dnsResponseAddressesForMatch.isEmpty
  else !c.destinationAddresses.isEmpty

/-- The items of `destinationIPCIDRItems`. -/
inductive AddressItem where
  | ipCIDR (ipSet : Addr → Bool)
  | ipIsPrivate (isPublicAddr : Addr → Bool)
  | ipAcceptAny

/-- `RuleItem.Match` of a destination IP item. -/
def AddressItem.isMatch : AddressItem → InboundContext → Bool
  | ipCIDR ipSet, c => ipCIDRItemMatch ipSet false c
  | ipIsPrivate isPublicAddr, c => ipIsPrivateItemMatch isPublicAddr false c
  | ipAcceptAny, c => ipAcceptAnyItemMatch c

/-- The items of `sourceAddressItems`. -/
inductive SourceAddressItem where
  | ipCIDR (ipSet : Addr → Bool)
  | ipIsPrivate (isPublicAddr : Addr → Bool)

/-- `RuleItem.Match` of a source address item. -/
def SourceAddressItem.isMatch : SourceAddressItem → InboundContext → Bool
  | ipCIDR ipSet, c => ipCIDRItemMatch ipSet true c
  | ipIsPrivate isPublicAddr, c => ipIsPrivateItemMatch isPublicAddr true c

/-- The items of `sourcePortItems` and `destinationPortItems`. -/
inductive PortItem where
  | port (portMap : List ℕ)
  | portRange (portRangeList : List (ℕ × ℕ))
deriving DecidableEq

/-- `PortItem.Match` and `PortRangeItem.Match`. -/
def PortItem.isMatch (isSource : Bool) (item : PortItem) (c : InboundContext) : Bool :=
  let port := if isSource then c.source.port else c.destination.port
  match item with
  | .port portMap => portMap.contains port
  | .portRange portRangeList => portRangeList.any fun r => decide (r.1 ≤ port ∧ port ≤ r.2)

/-! ### Domains -/

/-- The items of `destinationAddressItems`. -/
inductive DomainItem where
  | domain (matcher : String → Bool)
  | domainKeyword (keywords : List String)
  | domainRegex (matchers : List (String → Bool))
  | adGuardDomain (matcher : String → Bool)

/-- `RuleItem.Match` of a domain item: without a host name no domain item matches. Host names are
ASCII, so `String.toLower` is `strings.ToLower` on them. -/
def DomainItem.isMatch (item : DomainItem) (c : InboundContext) : Bool :=
  if c.domainHost = "" then false
  else
    let domainHost := c.domainHost.toLower
    match item with
    | domain matcher => matcher domainHost
    | domainKeyword keywords => keywords.any fun k => decide (k.toList <:+: domainHost.toList)
    | domainRegex matchers => matchers.any fun m => m domainHost
    | adGuardDomain matcher => matcher domainHost

/-! ### Plain items -/

/-- What the network manager knows of an interface. -/
structure NetworkInterface where
  name : String
  type : ℕ
  addresses : List Prefix
  expensive : Bool
  constrained : Bool

/-- `Prefix.Overlaps`: two valid prefixes of one family that share an address. -/
def prefixOverlaps (p q : Prefix) : Bool :=
  p.isValid && q.isValid &&
    if p.bits ≤ q.bits then p.contains q.addr else q.contains p.addr

/-- The section of a response that a `DNSResponseRecordItem` reads. -/
inductive ResponseSection where
  | answer
  | ns
  | extra
deriving DecidableEq

/-- The records of a section. -/
def ResponseSection.select : ResponseSection → Msg → List RR
  | answer, m => m.answer
  | ns, m => m.ns
  | extra, m => m.extra

/-- What `PreferredByItem` asks of an outbound. No implementation reads the metadata. -/
structure PreferredOutbound where
  preferredDomain : String → Bool
  preferredAddress : Addr → Bool

/-- The items of `items`. -/
inductive PlainItem where
  | inbound (inboundMap : List String)
  | ipVersion (isIPv6 : Bool)
  | queryType (typeMap : List ℕ)
  | queryClientSubnet (prefixes : List Prefix)
  | queryDNSSEC
  | network (networkMap : List String)
  | authUser (userMap : List String)
  | protocol (protocolMap : List String)
  | client (clientMap : List String)
  | responseRcode (rcode : ℕ)
  | responseRecord (selector : ResponseSection) (records : List (RR → Bool))
  | processName (base : String → String) (processMap : List String)
  | processPath (isAndroid : Bool) (processMap : List String)
  | processPathRegex (matchers : List (String → Bool))
  | packageName (packageMap : List String)
  | packageNameRegex (matchers : List (String → Bool))
  | user (userMap : List String)
  | userId (userIdMap : List ℤ)
  | outbound (matchAny : Bool) (outboundMap : List String)
  | clashMode (current : Option String) (mode : String)
  | networkType (defaultInterface : Option NetworkInterface) (networkType : List ℕ)
  | networkIsExpensive (defaultInterface : Option NetworkInterface)
  | networkIsConstrained (defaultInterface : Option NetworkInterface)
  | wifiSSID (current : String) (ssidMap : List String)
  | wifiBSSID (current : String) (bssidMap : List String)
  | interfaceAddress (interfaces : List NetworkInterface)
      (interfaceAddresses : List (String × List Prefix))
  | networkInterfaceAddress (interfaces : List NetworkInterface) (myInterfaces : List String)
      (interfaceAddresses : List (ℕ × List Prefix))
  | defaultInterfaceAddress (defaultInterface : Option NetworkInterface)
      (interfaceAddresses : List Prefix)
  | sourceMACAddress (addressMap : List String)
  | sourceHostname (hostnameMap : List String)
  | preferredBy (outbounds : List PreferredOutbound)
  | preferredByDNS (canonicalName : String → String) (transports : List (String → Bool))

/-- `RuleItem.Match` of a plain item. -/
def PlainItem.isMatch : PlainItem → InboundContext → Bool
  | inbound inboundMap, c => inboundMap.contains c.inbound
  | ipVersion isIPv6, c =>
    (c.ipVersion ≠ 0 && ((c.ipVersion == 6) == isIPv6)) ||
      (c.destination.isIP && (c.destination.isIPv6 == isIPv6))
  | queryType typeMap, c => c.queryType ≠ 0 && typeMap.contains c.queryType
  | queryClientSubnet prefixes, c =>
    c.queryClientSubnet.isValid && prefixes.any fun p =>
      decide (p.bits ≤ c.queryClientSubnet.bits) && p.contains c.queryClientSubnet.addr
  | queryDNSSEC, c => c.queryDNSSEC
  | network networkMap, c => networkMap.contains c.network
  | authUser userMap, c => userMap.contains c.user
  | protocol protocolMap, c => protocolMap.contains c.protocol
  | client clientMap, c => clientMap.contains c.client
  | responseRcode rcode, c => c.dnsResponse.any fun m => m.rcode == rcode
  | responseRecord selector records, c => c.dnsResponse.any fun m =>
    records.any fun expected => (selector.select m).any expected
  | processName base processMap, c => c.processInfo.any fun p =>
    p.processPath ≠ "" && processMap.contains (base p.processPath)
  | processPath isAndroid processMap, c => c.processInfo.any fun p =>
    (p.processPath ≠ "" && processMap.contains p.processPath) ||
      (isAndroid && p.androidPackageNames.any processMap.contains)
  | processPathRegex matchers, c => c.processInfo.any fun p =>
    p.processPath ≠ "" && matchers.any fun m => m p.processPath
  | packageName packageMap, c => c.processInfo.any fun p =>
    p.androidPackageNames.any packageMap.contains
  | packageNameRegex matchers, c => c.processInfo.any fun p =>
    matchers.any fun m => p.androidPackageNames.any m
  | user userMap, c => c.processInfo.any fun p =>
    p.userName ≠ "" && userMap.contains p.userName
  | userId userIdMap, c => c.processInfo.any fun p =>
    p.userId ≠ -1 && userIdMap.contains p.userId
  | outbound matchAny outboundMap, c =>
    if matchAny then c.outbound ≠ "" else outboundMap.contains c.outbound
  | clashMode current mode, _ => current.any fun m => m.toLower == mode.toLower
  | networkType defaultInterface types, _ => defaultInterface.any fun i => types.contains i.type
  | networkIsExpensive defaultInterface, _ => defaultInterface.any (·.expensive)
  | networkIsConstrained defaultInterface, _ => defaultInterface.any (·.constrained)
  | wifiSSID current ssidMap, _ => ssidMap.contains current
  | wifiBSSID current bssidMap, _ => bssidMap.contains current
  | interfaceAddress interfaces interfaceAddresses, _ =>
    interfaceAddresses.all fun (name, addresses) =>
      (interfaces.find? (·.name == name)).any fun i => i.name ≠ "" &&
        addresses.any fun address => i.addresses.any fun it => prefixOverlaps address it
  | networkInterfaceAddress interfaces myInterfaces interfaceAddresses, _ =>
    interfaceAddresses.all fun (type, addresses) => interfaces.any fun i =>
      !myInterfaces.contains i.name && i.type == type &&
        i.addresses.any fun it => addresses.any fun p => prefixOverlaps p it
  | defaultInterfaceAddress defaultInterface interfaceAddresses, _ =>
    defaultInterface.any fun i => interfaceAddresses.all fun address =>
      i.addresses.any fun it => prefixOverlaps address it
  | sourceMACAddress addressMap, c => c.sourceMACAddress.any addressMap.contains
  | sourceHostname hostnameMap, c =>
    c.sourceHostname ≠ "" && hostnameMap.contains c.sourceHostname
  | preferredBy outbounds, c =>
    (c.domainHost ≠ "" && outbounds.any fun o => o.preferredDomain c.domainHost) ||
      (c.destination.isIP && outbounds.any fun o => o.preferredAddress c.destination.addr) ||
      c.destinationAddresses.any fun a => outbounds.any fun o => o.preferredAddress a
  | preferredByDNS canonicalName transports, c =>
    c.domainHost ≠ "" && transports.any fun t => t (canonicalName c.domainHost)

/-- The `response_*` items, which read the DNS response. -/
def PlainItem.readsResponse : PlainItem → Bool
  | responseRcode _ => true
  | responseRecord _ _ => true
  | _ => false

/-! ### What the items read -/

/-- Two metadata objects that differ at most in the DNS response, in the flag that makes
destination IP items read it, and in the rule cache. -/
structure SameQuery (c d : InboundContext) : Prop where
  eq : d = { c with
    dnsResponse := d.dnsResponse
    namedDNSResponses := d.namedDNSResponses
    destinationAddressMatchFromResponse := d.destinationAddressMatchFromResponse
    ipCIDRMatchSource := d.ipCIDRMatchSource
    ipCIDRAcceptEmpty := d.ipCIDRAcceptEmpty
    sourceAddressMatch := d.sourceAddressMatch
    sourcePortMatch := d.sourcePortMatch
    destinationAddressMatch := d.destinationAddressMatch
    destinationPortMatch := d.destinationPortMatch
    deferredIPCIDRMatchGroups := d.deferredIPCIDRMatchGroups
    ignoreDestinationIPCIDRMatch := d.ignoreDestinationIPCIDRMatch }

variable {c d : InboundContext}

section

variable (h : SameQuery c d)

include h

theorem PlainItem.isMatch_congr {item : PlainItem} (hi : item.readsResponse = false) :
    item.isMatch d = item.isMatch c := by
  rw [h.eq]
  cases item with
  | responseRcode rcode => simp [readsResponse] at hi
  | responseRecord selector records => simp [readsResponse] at hi
  | _ => rfl

theorem DomainItem.isMatch_congr (item : DomainItem) : item.isMatch d = item.isMatch c := by
  rw [h.eq]
  rfl

theorem SourceAddressItem.isMatch_congr (item : SourceAddressItem) :
    item.isMatch d = item.isMatch c := by
  rw [h.eq]
  cases item <;> rfl

theorem PortItem.isMatch_congr (isSource : Bool) (item : PortItem) :
    item.isMatch isSource d = item.isMatch isSource c := by
  rw [h.eq]
  rfl

/-- A destination IP item compares the source when the rule-set reference says so, and otherwise
reads the response only when `destinationAddressMatchFromResponse` is set. -/
theorem AddressItem.isMatch_congr (hs : d.ipCIDRMatchSource = c.ipCIDRMatchSource)
    (he : d.ipCIDRAcceptEmpty = c.ipCIDRAcceptEmpty)
    (hc : c.destinationAddressMatchFromResponse = false)
    (hd : d.destinationAddressMatchFromResponse = false) (item : AddressItem) :
    item.isMatch d = item.isMatch c := by
  rw [h.eq, hs, he, hd]
  cases item <;> simp [isMatch, ipCIDRItemMatch, ipIsPrivateItemMatch, ipAcceptAnyItemMatch, hc]

end

/-! ### The item lists of a default rule -/

/-- The item lists of `abstractDefaultRule`. -/
structure ItemGroups where
  items : List PlainItem := []
  sourceAddressItems : List SourceAddressItem := []
  sourcePortItems : List PortItem := []
  destinationAddressItems : List DomainItem := []
  destinationIPCIDRItems : List AddressItem := []
  destinationPortItems : List PortItem := []

/-- The number of items in `allItems`, less the rule-set item. -/
def ItemGroups.length (g : ItemGroups) : ℕ :=
  g.items.length + g.sourceAddressItems.length + g.sourcePortItems.length +
    g.destinationAddressItems.length + g.destinationIPCIDRItems.length +
    g.destinationPortItems.length

end SingBox.Rule
