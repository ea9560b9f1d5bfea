import SingBox.RuleSet.Options

/-!
# The binary format of rule-sets

A rule-set file is a magic number, a version, and a compressed stream with the rules. A default
rule is a list of items, each a tag and a payload, up to a final tag; a logical rule is its mode
and its rules.

Strings are Lean strings; a file that contains a string which is not valid UTF-8 is not
represented exactly, since the string is read as the empty one.
-/

namespace SingBox.RuleSet

open SingBox.Net Foundation

/-- `C.RuleSetVersionCurrent`. -/
def ruleSetVersionCurrent : UInt8 := 5

def magicBytes : List UInt8 := [0x53, 0x52, 0x53]

def maxLogicalRuleDepth : ℕ := 100

/-- The items of a default rule. -/
inductive RuleItem where
  | queryType
  | network
  | domain
  | domainKeyword
  | domainRegex
  | sourceIPCIDR
  | ipCIDR
  | sourcePort
  | sourcePortRange
  | port
  | portRange
  | processName
  | processPath
  | packageName
  | wifiSSID
  | wifiBSSID
  | adGuardDomain
  | processPathRegex
  | networkType
  | networkIsExpensive
  | networkIsConstrained
  | networkInterfaceAddress
  | defaultInterfaceAddress
  | packageNameRegex
deriving DecidableEq, Repr

namespace RuleItem

/-- The items in the order of their tags. -/
def all : List RuleItem :=
  [queryType, network, domain, domainKeyword, domainRegex, sourceIPCIDR, ipCIDR, sourcePort,
    sourcePortRange, port, portRange, processName, processPath, packageName, wifiSSID, wifiBSSID,
    adGuardDomain, processPathRegex, networkType, networkIsExpensive, networkIsConstrained,
    networkInterfaceAddress, defaultInterfaceAddress, packageNameRegex]

/-- The tag of an item. -/
def code (item : RuleItem) : UInt8 := UInt8.ofNat (all.idxOf item)

/-- The item with a given tag. -/
def ofCode? (tag : UInt8) : Option RuleItem := all[tag.toNat]?

@[simp] theorem ofCode?_code (item : RuleItem) : ofCode? item.code = some item := by
  cases item <;> decide

end RuleItem

def ruleItemFinal : UInt8 := 0xFF

theorem RuleItem.code_ne_final (item : RuleItem) : item.code ≠ ruleItemFinal := by
  cases item <;> decide

/-! ### Payloads -/

/-- `binary.Write` of a flag. -/
def writeBool (b : Bool) : List UInt8 := [if b then 1 else 0]

/-- `binary.Read` of a flag. -/
def readBool : Reader Bool := (fun b => decide (b ≠ 0)) <$> readByte

/-- `string(value)`. -/
def goString (value : List UInt8) : String := (String.fromUTF8? ⟨value.toArray⟩).getD ""

/-- One string of `writeRuleItemString`. -/
def writeString (s : String) : List UInt8 :=
  putUvarint s.toUTF8.data.toList.length ++ s.toUTF8.data.toList

/-- The loops here do not name the round in their errors. -/
def unlabelled : ℕ → String → String := fun _ err => err

def writeRuleItemString (item : RuleItem) (value : List String) : List UInt8 :=
  item.code :: (putUvarint value.length ++ value.flatMap writeString)

def readRuleItemString : Reader (List String) := do
  let length ← readUvarint
  readMany unlabelled (do
    let n ← readUvarint
    goString <$> readFull n) length 0

def writeRuleItemUint8 (item : RuleItem) (value : List UInt8) : List UInt8 :=
  item.code :: (putUvarint value.length ++ value)

/-- `varbin.ReadSlice[uint8]`. -/
def readUint8s : Reader (List UInt8) := do
  let n ← readUvarint
  readFull n

def writeRuleItemUint16 (item : RuleItem) (value : List UInt16) : List UInt8 :=
  item.code :: (putUvarint value.length ++ value.flatMap fun x => bigEndian 2 x.toNat)

/-- `varbin.ReadSlice[uint16]`. -/
def readUint16s : Reader (List UInt16) := do
  let n ← readUvarint
  readMany unlabelled ((fun bytes => UInt16.ofNat (ofBigEndian bytes)) <$> readFull 2) n 0

/-- `Addr.AsSlice`. -/
def asSlice : Addr → List UInt8
  | .invalid => []
  | .v4 a => bigEndian 4 a.toNat
  | .v6 a => bigEndian 16 a.toNat

/-- `M.AddrFromIP`. -/
def addrFromIP (bytes : List UInt8) : Addr :=
  if bytes.length = 4 then .v4 (BitVec.ofNat 32 (ofBigEndian bytes))
  else if bytes.length = 16 then .v6 (BitVec.ofNat 128 (ofBigEndian bytes))
  else .invalid

/-- The address part of `writeIPSet` and `writePrefix`. -/
def writeAddr (a : Addr) : List UInt8 := putUvarint (asSlice a).length ++ asSlice a

/-- `readIPSetAddr`, and the first half of `readPrefix`; the error is `os.ErrInvalid`. -/
def readAddr : Reader Addr := do
  let addrLen ← readUvarint
  if addrLen ≠ 4 ∧ addrLen ≠ 16 then throw "invalid argument"
  else addrFromIP <$> readFull addrLen

def writeIPSet (set : IPSet) : List UInt8 :=
  1 :: (bigEndian 8 set.length ++ set.flatMap fun r => writeAddr r.fromAddr ++ writeAddr r.toAddr)

def readIPSet : Reader IPSet := do
  let version ← readByte
  if version ≠ 1 then throw "invalid argument"
  else
    let length ← ofBigEndian <$> readFull 8
    readMany unlabelled (do
      let fromAddr ← readAddr
      let toAddr ← readAddr
      pure { fromAddr, toAddr }) length 0

/-- `uint8(prefix.Bits())`; the bits of an invalid prefix are `-1`. -/
def prefixBits (p : Prefix) : UInt8 := if p.isValid then UInt8.ofNat p.bits else 255

def writePrefix (p : Prefix) : List UInt8 := writeAddr p.addr ++ [prefixBits p]

def readPrefix : Reader Prefix := do
  let addr ← readAddr
  let bits ← readByte
  pure (Prefix.prefixFrom addr bits.toNat)

/-- The loop over a list of interface addresses. -/
def writePrefixes (value : List Prefixable) : List UInt8 :=
  putUvarint value.length ++ value.flatMap fun p => writePrefix p.build

/-- The loop that reads a list of interface addresses. -/
def readPrefixes : Reader (List Prefixable) := do
  let prefixCount ← readUvarint
  readMany unlabelled (some <$> readPrefix) prefixCount 0

/-- The payload of `ruleItemNetworkInterfaceAddress`. -/
def writeInterfaceAddresses (m : InterfaceAddresses) : List UInt8 :=
  putUvarint m.entries.length ++ m.entries.flatMap fun e => e.1 :: writePrefixes e.2

/-- One round of the loop over the entries. -/
def readInterfaceAddress : Reader (UInt8 × List Prefixable) := do
  let key ← readByte
  let value ← readPrefixes
  pure (key, value)

/-- The payload of `ruleItemNetworkInterfaceAddress`. -/
def readInterfaceAddresses : Reader InterfaceAddresses := do
  let size ← readUvarint
  let entries ← readMany unlabelled readInterfaceAddress size 0
  pure (entries.foldl (fun m e => m.put e.1 e.2) {})

section

variable {M A : Type} (pk : Packages M A)

/-- The loop of `writeRuleItemCIDR`, from the string with index `i` on. -/
def parseCIDRs : (i : ℕ) → (value : List String) → Except String (List (Prefix ⊕ Addr))
  | _, [] => .ok []
  | i, s :: value => match pk.parsePrefix s with
    | .ok p => (parseCIDRs (i + 1) value).map (.inl p :: ·)
    | .error err => match pk.parseAddr s with
      | .ok a => (parseCIDRs (i + 1) value).map (.inr a :: ·)
      | .error _ => .error (cause ("parse [" ++ toString i ++ "]") err)

/-- The set that a list of CIDR strings denotes. -/
def ipSetOf (value : List String) : Except String IPSet := do
  let added ← parseCIDRs pk 0 value
  pk.buildIPSet added

/-! ### The writer -/

/-- An item that is written if it is present. -/
def itemIf (present : Bool) (bytes : Except String (List UInt8)) : Except String (List UInt8) :=
  if present then bytes else .ok []

/-- A list item, unless the list is empty. -/
def listItem {α : Type} (writeRuleItem : RuleItem → List α → List UInt8) (item : RuleItem)
    (value : List α) : Except String (List UInt8) :=
  itemIf (!value.isEmpty) (.ok (writeRuleItem item value))

/-- An item that needs a version. -/
def sinceVersion (generateVersion least : UInt8) (err : String)
    (bytes : Except String (List UInt8)) : Except String (List UInt8) :=
  if generateVersion < least then .error err else bytes

def writeRuleItemCIDR (item : RuleItem) (value : List String) : Except String (List UInt8) :=
  (ipSetOf pk value).map fun set => item.code :: writeIPSet set

/-- The items of `writeDefaultRule`, in the order in which they are written. -/
def defaultRuleItems (rule : DefaultHeadlessRule M A) (v : UInt8) :
    List (Except String (List UInt8)) :=
  [ listItem writeRuleItemUint16 .queryType rule.queryType,
    listItem writeRuleItemString .network rule.network,
    itemIf (!rule.domain.isEmpty || !rule.domainSuffix.isEmpty)
      (.ok (RuleItem.domain.code ::
        pk.writeMatcher (pk.newMatcher rule.domain rule.domainSuffix (v == 1)))),
    listItem writeRuleItemString .domainKeyword rule.domainKeyword,
    listItem writeRuleItemString .domainRegex rule.domainRegex,
    itemIf (!rule.sourceIPCIDR.isEmpty)
      ((writeRuleItemCIDR pk .sourceIPCIDR rule.sourceIPCIDR).mapError (cause "source_ip_cidr")),
    itemIf (!rule.ipCIDR.isEmpty)
      ((writeRuleItemCIDR pk .ipCIDR rule.ipCIDR).mapError (cause "ipcidr")),
    listItem writeRuleItemUint16 .sourcePort rule.sourcePort,
    listItem writeRuleItemString .sourcePortRange rule.sourcePortRange,
    listItem writeRuleItemUint16 .port rule.port,
    listItem writeRuleItemString .portRange rule.portRange,
    listItem writeRuleItemString .processName rule.processName,
    listItem writeRuleItemString .processPath rule.processPath,
    listItem writeRuleItemString .processPathRegex rule.processPathRegex,
    listItem writeRuleItemString .packageName rule.packageName,
    itemIf (!rule.packageNameRegex.isEmpty)
      (sinceVersion v 5 "`package_name_regex` rule item is only supported in version 5 or later"
        (.ok (writeRuleItemString .packageNameRegex rule.packageNameRegex))),
    itemIf (!rule.networkType.isEmpty)
      (sinceVersion v 3 "`network_type` rule item is only supported in version 3 or later"
        (.ok (writeRuleItemUint8 .networkType rule.networkType))),
    itemIf rule.networkIsExpensive
      (sinceVersion v 3 "`network_is_expensive` rule item is only supported in version 3 or later"
        (.ok [RuleItem.networkIsExpensive.code])),
    itemIf rule.networkIsConstrained
      (sinceVersion v 3
        "`network_is_constrained` rule item is only supported in version 3 or later"
        (.ok [RuleItem.networkIsConstrained.code])),
    itemIf (!rule.networkInterfaceAddress.entries.isEmpty)
      (sinceVersion v 4
        "`network_interface_address` rule item is only supported in version 4 or later"
        (.ok (RuleItem.networkInterfaceAddress.code ::
          writeInterfaceAddresses rule.networkInterfaceAddress))),
    itemIf (!rule.defaultInterfaceAddress.isEmpty)
      (sinceVersion v 4
        "`default_interface_address` rule item is only supported in version 4 or later"
        (.ok (RuleItem.defaultInterfaceAddress.code ::
          writePrefixes rule.defaultInterfaceAddress))),
    listItem writeRuleItemString .wifiSSID rule.wifiSSID,
    listItem writeRuleItemString .wifiBSSID rule.wifiBSSID,
    itemIf (!rule.adGuardDomain.isEmpty)
      (sinceVersion v 2 "AdGuard rule items is only supported in version 2 or later"
        (.ok (RuleItem.adGuardDomain.code ::
          pk.writeAdGuardMatcher (pk.newAdGuardMatcher rule.adGuardDomain)))) ]

def writeDefaultRule (rule : DefaultHeadlessRule M A) (generateVersion : UInt8) :
    Except String (List UInt8) :=
  (concatAll (defaultRuleItems pk rule generateVersion)).map fun items =>
    0 :: (items ++ ruleItemFinal :: writeBool rule.invert)

/-- The byte of a logical mode. -/
def LogicalMode.code : LogicalMode → UInt8
  | and => 0
  | or => 1

mutual

/-- `writeRule` and `writeLogicalRule`. -/
def writeRule (generateVersion : UInt8) : HeadlessRule M A → Except String (List UInt8)
  | .default options => writeDefaultRule pk options generateVersion
  | .logical mode rules invert =>
    (concatAll (writeRules generateVersion rules)).map fun bytes =>
      1 :: mode.code :: (putUvarint rules.length ++ bytes ++ writeBool invert)

/-- `writeRule` on every rule of a list. -/
def writeRules (generateVersion : UInt8) :
    List (HeadlessRule M A) → List (Except String (List UInt8))
  | [] => []
  | rule :: rules => writeRule generateVersion rule :: writeRules generateVersion rules

end

def write (rules : List (HeadlessRule M A)) (generateVersion : UInt8) :
    Except String (List UInt8) :=
  (concatAll (writeRules pk generateVersion rules)).map fun bytes =>
    magicBytes ++ generateVersion :: pk.compress (putUvarint rules.length ++ bytes)

/-! ### The reader -/

/-- One item of `readDefaultRule`. -/
def readItem (recover : Bool) (rule : DefaultHeadlessRule M A) :
    RuleItem → Reader (DefaultHeadlessRule M A)
  | .queryType => (fun xs => { rule with queryType := xs }) <$> readUint16s
  | .network => (fun xs => { rule with network := xs }) <$> readRuleItemString
  | .domain => (fun m =>
      if recover then
        { rule with
          domainMatcher := some m, domain := (pk.dump m).1, domainSuffix := (pk.dump m).2 }
      else { rule with domainMatcher := some m }) <$> pk.readMatcher
  | .domainKeyword => (fun xs => { rule with domainKeyword := xs }) <$> readRuleItemString
  | .domainRegex => (fun xs => { rule with domainRegex := xs }) <$> readRuleItemString
  | .sourceIPCIDR => (fun set =>
      if recover then
        { rule with
          sourceIPSet := some set, sourceIPCIDR := (pk.prefixes set).map pk.prefixString }
      else { rule with sourceIPSet := some set }) <$> readIPSet
  | .ipCIDR => (fun set =>
      if recover then
        { rule with ipSet := some set, ipCIDR := (pk.prefixes set).map pk.prefixString }
      else { rule with ipSet := some set }) <$> readIPSet
  | .sourcePort => (fun xs => { rule with sourcePort := xs }) <$> readUint16s
  | .sourcePortRange => (fun xs => { rule with sourcePortRange := xs }) <$> readRuleItemString
  | .port => (fun xs => { rule with port := xs }) <$> readUint16s
  | .portRange => (fun xs => { rule with portRange := xs }) <$> readRuleItemString
  | .processName => (fun xs => { rule with processName := xs }) <$> readRuleItemString
  | .processPath => (fun xs => { rule with processPath := xs }) <$> readRuleItemString
  | .processPathRegex => (fun xs => { rule with processPathRegex := xs }) <$> readRuleItemString
  | .packageName => (fun xs => { rule with packageName := xs }) <$> readRuleItemString
  | .packageNameRegex => (fun xs => { rule with packageNameRegex := xs }) <$> readRuleItemString
  | .wifiSSID => (fun xs => { rule with wifiSSID := xs }) <$> readRuleItemString
  | .wifiBSSID => (fun xs => { rule with wifiBSSID := xs }) <$> readRuleItemString
  | .adGuardDomain => (fun m =>
      if recover then
        { rule with adGuardDomainMatcher := some m, adGuardDomain := pk.dumpAdGuard m }
      else { rule with adGuardDomainMatcher := some m }) <$> pk.readAdGuardMatcher
  | .networkType => (fun xs => { rule with networkType := xs }) <$> readUint8s
  | .networkIsExpensive => pure { rule with networkIsExpensive := true }
  | .networkIsConstrained => pure { rule with networkIsConstrained := true }
  | .networkInterfaceAddress =>
      (fun m => { rule with networkInterfaceAddress := m }) <$> readInterfaceAddresses
  | .defaultInterfaceAddress =>
      (fun xs => { rule with defaultInterfaceAddress := xs }) <$> readPrefixes

/-- The loop of `readDefaultRule`, for at most `fuel` items. Every round takes a tag off the
stream, so that the stream is at its end when as many rounds as it had bytes are over. -/
def readItems (recover : Bool) :
    (fuel : ℕ) → (lastItemType : UInt8) → DefaultHeadlessRule M A →
      Reader (DefaultHeadlessRule M A)
  | 0, _, _ => throw "EOF"
  | fuel + 1, lastItemType, rule => do
    let itemType ← readByte
    if itemType = ruleItemFinal then
      let invert ← readBool
      pure { rule with invert := invert }
    else match RuleItem.ofCode? itemType with
      | none => throw ("unknown rule item type: " ++ toString itemType ++ ", last type: " ++
          toString lastItemType)
      | some item => do
        let rule ← readItem pk recover rule item
        readItems recover fuel itemType rule

def readDefaultRule (recover : Bool) : Reader (DefaultHeadlessRule M A) := fun input =>
  readItems pk recover input.length 0 {} input

/-- The mode of a byte, in `readLogicalRule`. -/
def readMode : Reader LogicalMode := do
  let mode ← readByte
  if mode = 0 then pure .and
  else if mode = 1 then pure .or
  else throw ("unknown logical mode: " ++ toString mode)

/-- `readLogicalRule`, over the reader of the rules one level down. -/
def readLogicalRule (readRule : Reader (HeadlessRule M A)) : Reader (HeadlessRule M A) := do
  let mode ← readMode
  let length ← readUvarint
  let rules ← readMany (fun i => cause ("read logical rule [" ++ toString i ++ "]")) readRule
    length 0
  let invert ← readBool
  pure (.logical mode rules invert)

/-- `readRule`. The argument counts down the levels that are left: it is
`maxLogicalRuleDepth + 1` at depth 0, and a rule at a depth over the limit finds none. -/
def readRule (recover : Bool) : (levels : ℕ) → Reader (HeadlessRule M A)
  | 0 => throw "logical rule nested too deep"
  | levels + 1 => do
    let ruleType ← readByte
    if ruleType = 0 then .default <$> readDefaultRule pk recover
    else if ruleType = 1 then readLogicalRule (readRule recover levels)
    else throw ("unknown rule type: " ++ toString ruleType)

/-- The rules of the compressed stream. -/
def readRules (recover : Bool) : Reader (List (HeadlessRule M A)) := do
  let length ← readUvarint
  readMany (fun i => cause ("read rule[" ++ toString i ++ "]"))
    (readRule pk recover (maxLogicalRuleDepth + 1)) length 0

/-- `Read`: the version and the rules. -/
def read (input : List UInt8) (recover : Bool) :
    Except String (UInt8 × List (HeadlessRule M A)) := do
  let (magic, input) ← readFull 3 input
  if magic ≠ magicBytes then throw "invalid sing-box rule-set file"
  else
    let (version, input) ← readByte input
    if ruleSetVersionCurrent < version then
      throw ("unsupported version: " ++ toString version)
    else
      let stream ← pk.decompress input
      let (rules, _) ← readRules pk recover stream
      pure (version, rules)

end

end SingBox.RuleSet
