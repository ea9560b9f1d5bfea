import SingBox.Net.Addr

/-!
# Metadata of a connection or a DNS query

`adapter.InboundContext` is the metadata object that a rule is matched against. The fields kept
here are the ones that the rule items and the rule engine read; sniffer, dialer and report fields
are left out. Of a DNS message we keep the header fields and the records that matching reads.
-/

namespace SingBox.Adapter

open SingBox.Net

/-! ### DNS messages -/

/-- A parameter of a service binding record. -/
inductive SVCBKeyValue where
  | ipv4Hint (hint : List Addr)
  | ipv6Hint (hint : List Addr)
  | other
deriving DecidableEq, Repr

/-- A resource record. The addresses are what `M.AddrFromIP` makes of the record's bytes. -/
inductive RR where
  | a (addr : Addr)
  | aaaa (addr : Addr)
  | https (value : List SVCBKeyValue)
  | other (rrtype : ℕ) (data : String)
deriving DecidableEq, Repr

/-- The question of a message. -/
structure Question where
  name : String
  qtype : ℕ
  qclass : ℕ
deriving DecidableEq, Repr, Inhabited

/-- `dns.Msg`. -/
structure Msg where
  id : ℕ := 0
  response : Bool := false
  rcode : ℕ := 0
  question : List Question := []
  answer : List RR := []
  ns : List RR := []
  extra : List RR := []
deriving DecidableEq, Repr, Inhabited

/-- `dns.RcodeSuccess`. -/
def rcodeSuccess : ℕ := 0

/-- `dns.RcodeRefused`. -/
def rcodeRefused : ℕ := 5

/-- The addresses of one service binding parameter. -/
def svcbAddresses : SVCBKeyValue → List Addr
  | .ipv4Hint hint => (hint.map Addr.unmap).filter Addr.isValid
  | .ipv6Hint hint => hint.filter Addr.isValid
  | .other => []

/-- The addresses of one record. -/
def rrAddresses : RR → List Addr
  | .a addr => [addr].filter Addr.isValid
  | .aaaa addr => [addr].filter Addr.isValid
  | .https value => value.flatMap svcbAddresses
  | .other _ _ => []

/-- `DNSResponseAddresses`: nothing for a missing or unsuccessful response. -/
def dnsResponseAddresses : Option Msg → List Addr
  | none => []
  | some response =>
    if response.rcode ≠ rcodeSuccess then [] else response.answer.flatMap rrAddresses

/-! ### The metadata object -/

/-- `M.Socksaddr`. -/
structure Socksaddr where
  addr : Addr := .invalid
  fqdn : String := ""
  port : ℕ := 0
deriving DecidableEq, Repr, Inhabited

/-- `Socksaddr.IsIP`. -/
def Socksaddr.isIP (s : Socksaddr) : Bool := s.addr.isValid

/-- `Socksaddr.IsIPv6`. -/
def Socksaddr.isIPv6 (s : Socksaddr) : Bool := s.addr.is6

/-- `adapter.ConnectionOwner`. -/
structure ConnectionOwner where
  processPath : String
  androidPackageNames : List String
  userName : String
  userId : ℤ
deriving DecidableEq, Repr

/-- `adapter.InboundContext`, less the fields that no rule reads. -/
structure InboundContext where
  inbound : String := ""
  ipVersion : ℕ := 0
  network : String := ""
  source : Socksaddr := {}
  destination : Socksaddr := {}
  user : String := ""
  outbound : String := ""
  protocol : String := ""
  domain : String := ""
  client : String := ""
  destinationAddresses : List Addr := []
  dnsResponse : Option Msg := none
  namedDNSResponses : String → Option Msg := fun _ => none
  destinationAddressMatchFromResponse : Bool := false
  processInfo : Option ConnectionOwner := none
  sourceMACAddress : Option String := none
  sourceHostname : String := ""
  queryType : ℕ := 0
  queryClientSubnet : Prefix := Prefix.zero
  queryDNSSEC : Bool := false
  ipCIDRMatchSource : Bool := false
  ipCIDRAcceptEmpty : Bool := false
  sourceAddressMatch : Bool := false
  sourcePortMatch : Bool := false
  destinationAddressMatch : Bool := false
  destinationPortMatch : Bool := false
  deferredIPCIDRMatchGroups : BitVec 8 := 0
  ignoreDestinationIPCIDRMatch : Bool := false

namespace InboundContext

/-- `InboundContext.ResetRuleMatchCache`. -/
def resetRuleMatchCache (c : InboundContext) : InboundContext :=
  { c with
    sourceAddressMatch := false
    sourcePortMatch := false
    destinationAddressMatch := false
    destinationPortMatch := false
    deferredIPCIDRMatchGroups := 0 }

/-- `InboundContext.ResetRuleCache`. -/
def resetRuleCache (c : InboundContext) : InboundContext :=
  resetRuleMatchCache { c with ipCIDRMatchSource := false, ipCIDRAcceptEmpty := false }

/-- `InboundContext.DNSResponseAddressesForMatch`. -/
def dnsResponseAddressesForMatch (c : InboundContext) : List Addr :=
  dnsResponseAddresses c.dnsResponse

/-- The host name that the domain items compare: the sniffed or queried domain, else the
destination's. -/
def domainHost (c : InboundContext) : String :=
  if c.domain ≠ "" then c.domain else c.destination.fqdn

end InboundContext

end SingBox.Adapter
