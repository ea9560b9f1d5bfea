import SingBox.Foundation.Reader
import SingBox.Net.Addr

/-!
# Options of headless rules

The rules of a rule-set, as the options that the source formats are parsed into and that the
binary format stores, and the packages the code imports for their contents: compression, domain
matchers, and sets of addresses.

A list of the options that is nil is not told apart from an empty one; the code tests the length
of every list it writes, and the lists it reads are nil when they are empty.
-/

namespace SingBox.RuleSet

open SingBox.Net Foundation

/-- `E.Cause`. -/
def cause (message err : String) : String := message ++ ": " ++ err

/-- A range of a `netipx.IPSet`. -/
structure IPRange where
  fromAddr : Addr
  toAddr : Addr
deriving DecidableEq

/-- The ranges of a `netipx.IPSet`. -/
abbrev IPSet := List IPRange

/-- `*badoption.Prefixable`; a pointer may be nil. -/
abbrev Prefixable := Option Prefix

/-- `Prefixable.Build(netip.Prefix{})`. -/
def Prefixable.build (p : Prefixable) : Prefix := p.getD .zero

/-- `badjson.TypedMap[InterfaceType, Listable[*Prefixable]]`: an ordered map. -/
@[ext]
structure InterfaceAddresses where
  entries : List (UInt8 × List Prefixable) := []
  nodup : (entries.map Prod.fst).Nodup := by first | exact List.nodup_nil | simp
deriving DecidableEq

namespace InterfaceAddresses

/-- `TypedMap.Put`: a key that is present keeps its place. -/
def put (m : InterfaceAddresses) (key : UInt8) (value : List Prefixable) : InterfaceAddresses :=
  if h : key ∈ m.entries.map Prod.fst then
    { entries := m.entries.map fun e => if e.1 = key then (key, value) else e
      nodup := by
        have hkeys : (m.entries.map fun e => if e.1 = key then (key, value) else e).map Prod.fst =
            m.entries.map Prod.fst := by
          rw [List.map_map]
          refine List.map_congr_left fun e _ => ?_
          simp only [Function.comp]
          split_ifs with he
          · exact he.symm
          · rfl
        rw [hkeys]
        exact m.nodup }
  else
    { entries := m.entries ++ [(key, value)]
      nodup := by
        rw [List.map_append, List.nodup_append]
        refine ⟨m.nodup, by simp, fun a ha b hb => ?_⟩
        rw [List.map_singleton, List.mem_singleton] at hb
        rintro rfl
        rw [hb] at ha
        exact h ha }

theorem entries_put_of_notMem {m : InterfaceAddresses} {key : UInt8}
    (h : key ∉ m.entries.map Prod.fst) (value : List Prefixable) :
    (m.put key value).entries = m.entries ++ [(key, value)] := by
  rw [put, dif_neg h]

end InterfaceAddresses

variable (M A : Type)

/-- `option.DefaultHeadlessRule`, with domain matchers of the types `M` and `A`. -/
structure DefaultHeadlessRule where
  queryType : List UInt16 := []
  network : List String := []
  domain : List String := []
  domainSuffix : List String := []
  domainKeyword : List String := []
  domainRegex : List String := []
  sourceIPCIDR : List String := []
  ipCIDR : List String := []
  sourcePort : List UInt16 := []
  sourcePortRange : List String := []
  port : List UInt16 := []
  portRange : List String := []
  processName : List String := []
  processPath : List String := []
  processPathRegex : List String := []
  packageName : List String := []
  packageNameRegex : List String := []
  networkType : List UInt8 := []
  networkIsExpensive : Bool := false
  networkIsConstrained : Bool := false
  wifiSSID : List String := []
  wifiBSSID : List String := []
  networkInterfaceAddress : InterfaceAddresses := {}
  defaultInterfaceAddress : List Prefixable := []
  invert : Bool := false
  domainMatcher : Option M := none
  sourceIPSet : Option IPSet := none
  ipSet : Option IPSet := none
  adGuardDomain : List String := []
  adGuardDomainMatcher : Option A := none
deriving DecidableEq

/-- `C.LogicalTypeAnd` and `C.LogicalTypeOr`. -/
inductive LogicalMode where
  | and
  | or
deriving DecidableEq, Repr

/-- `option.HeadlessRule`. The code panics when it writes a rule of another type or mode. -/
inductive HeadlessRule where
  | default (options : DefaultHeadlessRule M A)
  | logical (mode : LogicalMode) (rules : List HeadlessRule) (invert : Bool)

variable {M A}

mutual

/-- The largest number of logical rules that lie over each other. -/
def HeadlessRule.depth : HeadlessRule M A → ℕ
  | .default _ => 0
  | .logical _ rules _ => depths rules + 1

/-- The largest depth of a list of rules. -/
def HeadlessRule.depths : List (HeadlessRule M A) → ℕ
  | [] => 0
  | rule :: rules => max rule.depth (depths rules)

end

mutual

/-- A tree of rules with other default rules. -/
def HeadlessRule.map (f : DefaultHeadlessRule M A → DefaultHeadlessRule M A) :
    HeadlessRule M A → HeadlessRule M A
  | .default options => .default (f options)
  | .logical mode rules invert => .logical mode (maps f rules) invert

/-- `HeadlessRule.map` on every rule of a list. -/
def HeadlessRule.maps (f : DefaultHeadlessRule M A → DefaultHeadlessRule M A) :
    List (HeadlessRule M A) → List (HeadlessRule M A)
  | [] => []
  | rule :: rules => rule.map f :: maps f rules

end

mutual

/-- Every default rule of a tree has the property `P`. -/
def HeadlessRule.All (P : DefaultHeadlessRule M A → Prop) : HeadlessRule M A → Prop
  | .default options => P options
  | .logical _ rules _ => Alls P rules

/-- Every default rule of a list of trees has the property `P`. -/
def HeadlessRule.Alls (P : DefaultHeadlessRule M A → Prop) : List (HeadlessRule M A) → Prop
  | [] => True
  | rule :: rules => rule.All P ∧ Alls P rules

end

theorem HeadlessRule.length_maps (f : DefaultHeadlessRule M A → DefaultHeadlessRule M A)
    (rules : List (HeadlessRule M A)) : (maps f rules).length = rules.length := by
  induction rules with
  | nil => rfl
  | cons rule rules ih => rw [maps, List.length_cons, List.length_cons, ih]

/-- The packages the code imports: `compress/zlib`, the domain matchers, `netip` and `netipx`. -/
structure Packages (M A : Type) where
  /-- What the `zlib` writer makes of a stream that is closed. -/
  compress : List UInt8 → List UInt8
  /-- `zlib.NewReader`, and the bytes that it delivers. -/
  decompress : List UInt8 → Except String (List UInt8)
  decompress_compress : ∀ bytes, decompress (compress bytes) = .ok bytes
  newMatcher : (domains domainSuffix : List String) → (generateLegacy : Bool) → M
  writeMatcher : M → List UInt8
  readMatcher : Reader M
  reads_matcher : ∀ m, Reads readMatcher (writeMatcher m) m
  dump : M → List String × List String
  newAdGuardMatcher : List String → A
  writeAdGuardMatcher : A → List UInt8
  readAdGuardMatcher : Reader A
  reads_adGuardMatcher : ∀ m, Reads readAdGuardMatcher (writeAdGuardMatcher m) m
  dumpAdGuard : A → List String
  parsePrefix : String → Except String Prefix
  parseAddr : String → Except String Addr
  /-- `IPSetBuilder.IPSet`, after the given prefixes and addresses have been added. -/
  buildIPSet : List (Prefix ⊕ Addr) → Except String IPSet
  /-- A set has valid ranges, fewer than a machine word counts. -/
  buildIPSet_ok : ∀ {added set}, buildIPSet added = .ok set →
    set.length < 2 ^ 64 ∧ ∀ r ∈ set, r.fromAddr.isValid ∧ r.toAddr.isValid
  prefixes : IPSet → List Prefix
  prefixString : Prefix → String

end SingBox.RuleSet
