import SingBox.RuleSet.Binary

/-!
# Reading a written rule-set

The reader of the binary format undoes the writer: every payload is read back from its coding, so
that each item of a default rule takes the reader's loop from one partial rule to the next, and a
tree of rules is read back by induction on the tree.
-/

namespace SingBox.RuleSet

open SingBox.Net Foundation HeadlessRule List Prefix

/-! ### Payloads -/

theorem goString_toUTF8 (s : String) : goString s.toUTF8.data.toList = s := by
  have hbs : (⟨s.toUTF8.data.toList.toArray⟩ : ByteArray) = s.toUTF8 := by
    rw [Array.toArray_toList]
  rw [goString, hbs, String.fromUTF8?, String.toUTF8_eq_toByteArray, dif_pos s.isValidUTF8]
  rfl

theorem reads_bool (b : Bool) : Reads readBool (writeBool b) b := by
  cases b with
  | false => exact (reads_byte 0).map _
  | true => exact (reads_byte 1).map _

theorem reads_counted {α β : Type} {r : Reader α} {put : β → List UInt8} {get : β → α}
    {bs : List β} (h : ∀ b ∈ bs, Reads r (put b) (get b)) (wrap : ℕ → String → String) :
    Reads (do let n ← readUvarint; readMany wrap r n 0)
      (putUvarint bs.length ++ bs.flatMap put) (bs.map get) :=
  (reads_uvarint _).bind (Reads.many_map wrap h 0)

theorem reads_strings (value : List String) :
    Reads readRuleItemString (putUvarint value.length ++ value.flatMap writeString) value := by
  have hs : ∀ s ∈ value, Reads (do let n ← readUvarint; goString <$> readFull n)
      (writeString s) s := by
    intro s _
    have := ((reads_full (n := s.toUTF8.data.toList.length) rfl).map goString)
    rw [goString_toUTF8] at this
    exact (reads_uvarint _).bind this
  have := reads_counted hs unlabelled
  rwa [map_id'] at this

theorem reads_uint8s (value : List UInt8) :
    Reads readUint8s (putUvarint value.length ++ value) value :=
  (reads_uvarint _).bind (reads_full rfl)

theorem reads_uint16s (value : List UInt16) :
    Reads readUint16s (putUvarint value.length ++ value.flatMap fun x => bigEndian 2 x.toNat)
      value := by
  have hw : ∀ x ∈ value, Reads ((fun bytes => UInt16.ofNat (ofBigEndian bytes)) <$> readFull 2)
      (bigEndian 2 x.toNat) x := by
    intro x _
    have := (reads_full (length_bigEndian 2 x.toNat)).map
      (fun bytes => UInt16.ofNat (ofBigEndian bytes))
    have hx : x.toNat < 256 ^ 2 := lt_of_lt_of_eq x.toNat_lt (by simp)
    rw [ofBigEndian_bigEndian_of_lt hx, UInt16.ofNat_toNat] at this
    exact this
  have := reads_counted hw unlabelled
  rwa [map_id'] at this

theorem length_asSlice {a : Addr} (h : a.isValid) :
    (asSlice a).length = 4 ∨ (asSlice a).length = 16 := by
  cases a with
  | invalid => simp [Addr.isValid] at h
  | v4 a => exact Or.inl (length_bigEndian _ _)
  | v6 a => exact Or.inr (length_bigEndian _ _)

theorem addrFromIP_asSlice (a : Addr) : addrFromIP (asSlice a) = a := by
  cases a with
  | invalid => rfl
  | v4 a =>
    have ha : a.toNat < 256 ^ 4 := lt_of_lt_of_eq a.isLt (by simp)
    rw [asSlice, addrFromIP, if_pos (length_bigEndian _ _), ofBigEndian_bigEndian_of_lt ha,
      BitVec.ofNat_toNat, BitVec.setWidth_eq]
  | v6 a =>
    have ha : a.toNat < 256 ^ 16 := lt_of_lt_of_eq a.isLt (by simp)
    rw [asSlice, addrFromIP, if_neg (by simp), if_pos (length_bigEndian _ _),
      ofBigEndian_bigEndian_of_lt ha, BitVec.ofNat_toNat, BitVec.setWidth_eq]

theorem reads_addr {a : Addr} (h : a.isValid) : Reads readAddr (writeAddr a) a := by
  refine (reads_uvarint _).bind ?_
  rw [if_neg (by have := length_asSlice h; omega)]
  have := (reads_full (n := (asSlice a).length) rfl).map addrFromIP
  rwa [addrFromIP_asSlice] at this

theorem reads_ipSet {set : IPSet} (hle : set.length < 2 ^ 64)
    (hv : ∀ r ∈ set, r.fromAddr.isValid ∧ r.toAddr.isValid) :
    Reads readIPSet (writeIPSet set) set := by
  have hra : ∀ r ∈ set, Reads (do
      let fromAddr ← readAddr
      let toAddr ← readAddr
      pure { fromAddr, toAddr : IPRange }) (writeAddr r.fromAddr ++ writeAddr r.toAddr) r := by
    intro r hr
    exact (reads_addr (hv r hr).1).bind
      ((reads_addr (hv r hr).2).bind_pure fun toAddr => IPRange.mk r.fromAddr toAddr)
  have hl : Reads (ofBigEndian <$> readFull 8) (bigEndian 8 set.length) set.length := by
    have := (reads_full (length_bigEndian 8 set.length)).map ofBigEndian
    rwa [ofBigEndian_bigEndian, Nat.mod_eq_of_lt (by omega)] at this
  have hs := hl.bind (f := fun n => readMany unlabelled _ n 0) (Reads.many_map unlabelled hra 0)
  rw [map_id'] at hs
  exact (reads_byte 1).bind hs

/-- A prefix with a valid address is read back, even if its length is not valid. -/
theorem prefixFrom_prefixBits (p : Prefix) : prefixFrom p.addr (prefixBits p).toNat = p := by
  obtain ⟨addr, bitsPlusOne, valid⟩ := p
  have hl : addr.bitLen ≤ 128 := by cases addr <;> simp [Addr.bitLen]
  by_cases h0 : bitsPlusOne = 0
  · subst h0
    rw [prefixFrom, dif_neg]
    rintro ⟨-, hb⟩
    change 255 ≤ addr.bitLen at hb
    omega
  · have hb : bitsPlusOne - 1 ≤ addr.bitLen := by have := (valid h0).2; omega
    have hby : (prefixBits ⟨addr, bitsPlusOne, valid⟩).toNat = bitsPlusOne - 1 := by
      rw [prefixBits, if_pos (by simp only [isValid, decide_eq_true_eq]; omega)]
      simp only [bits, UInt8.toNat_ofNat']
      omega
    rw [hby, prefixFrom, dif_pos ⟨(valid h0).1, hb⟩]
    congr 1
    omega

theorem reads_netPrefix {p : Prefix} (h : p.addr.isValid) : Reads readPrefix (writePrefix p) p := by
  have := (reads_byte (prefixBits p)).bind_pure fun bits => prefixFrom p.addr bits.toNat
  rw [prefixFrom_prefixBits] at this
  exact (reads_addr h).bind this

/-- An interface address that the format can store: a pointer to a prefix with an address. -/
def Prefixable.Stored (p : Prefixable) : Prop := p.build.addr.isValid

theorem Prefixable.Stored.eq_some {p : Prefixable} (h : p.Stored) : some p.build = p := by
  cases p with
  | none => simp [Prefixable.Stored, Prefixable.build, zero, Addr.isValid] at h
  | some q => rfl

theorem reads_prefixes {value : List Prefixable} (h : ∀ p ∈ value, p.Stored) :
    Reads readPrefixes (writePrefixes value) value := by
  have hpr : ∀ p ∈ value, Reads (some <$> readPrefix) (writePrefix p.build) p := by
    intro p hp
    have := (reads_netPrefix (h p hp)).map some
    rwa [(h p hp).eq_some] at this
  have := reads_counted hpr unlabelled
  rwa [map_id'] at this

theorem InterfaceAddresses.entries_foldl_put (es : List (UInt8 × List Prefixable))
    (m : InterfaceAddresses) (h : ((m.entries ++ es).map Prod.fst).Nodup) :
    (es.foldl (fun m e => m.put e.1 e.2) m).entries = m.entries ++ es := by
  induction es generalizing m with
  | nil => exact (append_nil _).symm
  | cons e es ih =>
    have hn : e.1 ∉ m.entries.map Prod.fst := by
      rw [map_append, nodup_append] at h
      exact fun hm => h.2.2 _ hm _ (mem_map_of_mem (mem_cons_self ..)) rfl
    have hp : (m.put e.1 e.2).entries = m.entries ++ [e] := entries_put_of_notMem hn e.2
    rw [foldl_cons, ih, hp, append_assoc, singleton_append]
    rw [hp, append_assoc]
    exact h

variable {m : InterfaceAddresses}

theorem reads_interfaceAddresses (h : ∀ e ∈ m.entries, ∀ p ∈ e.2, p.Stored) :
    Reads readInterfaceAddresses (writeInterfaceAddresses m) m := by
  have hent : ∀ e ∈ m.entries, Reads readInterfaceAddress (e.1 :: writePrefixes e.2) e := by
    intro e he
    exact (reads_byte e.1).bind ((reads_prefixes (h e he)).bind_pure (Prod.mk e.1))
  have hm : m.entries.foldl (fun m e => m.put e.1 e.2) {} = m :=
    InterfaceAddresses.ext (InterfaceAddresses.entries_foldl_put m.entries {} m.nodup)
  have hen := (Reads.many_map unlabelled hent 0).bind_pure fun entries =>
    entries.foldl (fun m e => m.put e.1 e.2) ({} : InterfaceAddresses)
  rw [map_id', hm] at hen
  exact (reads_uvarint _).bind hen

/-! ### The items of a default rule -/

open Except

section

variable {M A : Type} {pk : Packages M A}

/-- Reading `bytes` takes the loop of `readDefaultRule` from one partial rule to another. -/
def Steps (pk : Packages M A) (bytes : List UInt8) (rule rule' : DefaultHeadlessRule M A) : Prop :=
  ∃ n ≤ bytes.length, ∀ fuel last rest, ∃ last',
    readItems pk true (fuel + n) last rule (bytes ++ rest) =
      readItems pk true fuel last' rule' rest

namespace Steps

variable {bytes bytes' : List UInt8} {rule rule' rule'' : DefaultHeadlessRule M A}

theorem refl (rule : DefaultHeadlessRule M A) : Steps pk [] rule rule :=
  ⟨0, le_rfl, fun _ last _ => ⟨last, rfl⟩⟩

theorem trans (h : Steps pk bytes rule rule') (h' : Steps pk bytes' rule' rule'') :
    Steps pk (bytes ++ bytes') rule rule'' := by
  obtain ⟨n, hn, h⟩ := h
  obtain ⟨n', hn', h'⟩ := h'
  refine ⟨n' + n, by rw [length_append]; omega, fun fuel last rest => ?_⟩
  obtain ⟨last', h1⟩ := h (fuel + n') last (bytes' ++ rest)
  obtain ⟨last'', h2⟩ := h' fuel last' rest
  refine ⟨last'', ?_⟩
  rw [append_assoc, ← add_assoc, h1, h2]

theorem item {item : RuleItem} (h : Reads (readItem pk true rule item) bytes rule') :
    Steps pk (item.code :: bytes) rule rule' := by
  refine ⟨1, by simp, fun fuel last rest => ⟨item.code, ?_⟩⟩
  refine ((reads_byte item.code).run_bind _ (bytes ++ rest)).trans ?_
  rw [if_neg item.code_ne_final, RuleItem.ofCode?_code]
  exact h.run_bind _ rest

variable {part : Except String (List UInt8)} {payload : List UInt8} {α : Type}

theorem field {item : RuleItem} {pr : Bool} {x : α} {r : Reader α}
    (set : α → DefaultHeadlessRule M A) (hre : readItem pk true rule item = set <$> r)
    (hr : Reads r payload x) (hpa : part = .ok bytes → item.code :: payload = bytes)
    (hp : pr = true → rule' = set x) (ha : pr = false → rule' = rule)
    (hok : itemIf pr part = .ok bytes) : Steps pk bytes rule rule' := by
  cases pr with
  | true =>
    rw [← hpa hok, hp rfl]
    refine Steps.item ?_
    rw [hre]
    exact hr.map set
  | false =>
    rw [ha rfl, ← ok.inj hok]
    exact refl rule

theorem list {item : RuleItem} {value : List α} {r : Reader (List α)}
    (set : DefaultHeadlessRule M A → List α → DefaultHeadlessRule M A)
    (hre : readItem pk true rule item = set rule <$> r) (he : set rule [] = rule)
    (hr : Reads r payload value) (hp : part = .ok bytes → item.code :: payload = bytes)
    (hok : itemIf (!value.isEmpty) part = .ok bytes) : Steps pk bytes rule (set rule value) := by
  refine field (set rule) hre hr hp (fun _ => rfl) (fun ha => ?_) hok
  have hv : value = [] := by simpa using ha
  rw [hv, he]

theorem matcher {item : RuleItem} {pr : Bool} {m : α} {r : Reader α}
    (set : DefaultHeadlessRule M A → Option α → DefaultHeadlessRule M A)
    (hre : readItem pk true rule item = (fun m => set rule (some m)) <$> r)
    (he : set rule none = rule) (hr : Reads r payload m)
    (hp : part = .ok bytes → item.code :: payload = bytes) (hok : itemIf pr part = .ok bytes) :
    Steps pk bytes rule (set rule (if pr then some m else none)) := by
  refine field (fun m => set rule (some m)) hre hr hp ?_ ?_ hok
  · rintro rfl
    rfl
  · rintro rfl
    exact he

theorem addresses {item : RuleItem}
    (set : DefaultHeadlessRule M A → InterfaceAddresses → DefaultHeadlessRule M A)
    (hr : readItem pk true rule item = set rule <$> readInterfaceAddresses)
    (hemp : set rule {} = rule) (hm : ∀ e ∈ m.entries, ∀ p ∈ e.2, p.Stored)
    (hp : part = .ok bytes → item.code :: writeInterfaceAddresses m = bytes)
    (hok : itemIf (!m.entries.isEmpty) part = .ok bytes) : Steps pk bytes rule (set rule m) := by
  refine field (set rule) hr (reads_interfaceAddresses hm) hp (fun _ => rfl) ?_ hok
  intro ha
  have he : m.entries = [] := by simpa using ha
  have hm' : m = {} := InterfaceAddresses.ext he
  rw [hm', hemp]

theorem flag {item : RuleItem} {b : Bool}
    (set : DefaultHeadlessRule M A → Bool → DefaultHeadlessRule M A)
    (hr : readItem pk true rule item = pure (set rule true)) (he : set rule false = rule)
    (hp : part = .ok bytes → [item.code] = bytes) (hok : itemIf b part = .ok bytes) :
    Steps pk bytes rule (set rule b) := by
  refine field (fun _ : Unit => set rule true) (hr.trans rfl) (Reads.pure ()) hp ?_ ?_ hok
  · rintro rfl
    rfl
  · rintro rfl
    exact he

theorem reads (h : Steps pk bytes {} rule) (invert : Bool) :
    Reads (readDefaultRule pk true) (bytes ++ ruleItemFinal :: writeBool invert)
      { rule with invert := invert } := by
  intro rest
  obtain ⟨n, hn, h⟩ := h
  have hl : (bytes ++ ruleItemFinal :: writeBool invert ++ rest).length =
      bytes.length - n + (writeBool invert).length + rest.length + 1 + n := by
    simp only [length_append, length_cons]
    omega
  rw [readDefaultRule, hl, append_assoc]
  obtain ⟨last, h⟩ := h (bytes.length - n + (writeBool invert).length + rest.length + 1) 0
    (ruleItemFinal :: writeBool invert ++ rest)
  rw [h]
  have hf := (reads_bool invert).bind_pure fun b => { rule with invert := b }
  exact hf rest

end Steps

/-- Writers one after the other, with the partial rules between what the loop reads. -/
inductive Produces (pk : Packages M A) :
    DefaultHeadlessRule M A → List (Except String (List UInt8)) → DefaultHeadlessRule M A → Prop
  | nil {rule} : Produces pk rule [] rule
  | cons {rule rule' rule'' part parts}
      (head : ∀ {bytes}, part = .ok bytes → Steps pk bytes rule rule')
      (tail : Produces pk rule' parts rule'') : Produces pk rule (part :: parts) rule''

variable {bytes : List UInt8}

theorem Produces.steps {rule rule' : DefaultHeadlessRule M A}
    {parts : List (Except String (List UInt8))} (h : Produces pk rule parts rule')
    (hok : concatAll parts = .ok bytes) : Steps pk bytes rule rule' := by
  induction h generalizing bytes with
  | nil =>
    rw [← ok.inj hok]
    exact Steps.refl _
  | cons head _ ih =>
    obtain ⟨fst, rest, hf, hr, rfl⟩ := concatAll_cons_eq_ok hok
    exact (head hf).trans (ih hr)

/-! ### What is read back -/

/-- The matcher that is written for the domains of a rule. -/
def matcherOf (pk : Packages M A) (v : UInt8) (rule : DefaultHeadlessRule M A) : Option M :=
  if !rule.domain.isEmpty || !rule.domainSuffix.isEmpty then
    some (pk.newMatcher rule.domain rule.domainSuffix (v == 1))
  else none

/-- The matcher that is written for the AdGuard domains of a rule. -/
def adGuardMatcherOf (pk : Packages M A) (rule : DefaultHeadlessRule M A) : Option A :=
  if !rule.adGuardDomain.isEmpty then some (pk.newAdGuardMatcher rule.adGuardDomain) else none

/-- The set that is written for a list of CIDR strings. -/
def setOf (pk : Packages M A) (value : List String) : Option IPSet :=
  if !value.isEmpty then (ipSetOf pk value).toOption else none

/-- The prefixes of a set, as strings. -/
def prefixStrings (pk : Packages M A) (set : IPSet) : List String :=
  (pk.prefixes set).map pk.prefixString

/-- The rule with its domain lists replaced by what the matchers dump, and its CIDR lists by the
prefixes of the sets they denote. -/
def recovered (pk : Packages M A) (v : UInt8) (rule : DefaultHeadlessRule M A) :
    DefaultHeadlessRule M A :=
  { rule with
    domain := (matcherOf pk v rule).elim [] fun m => (pk.dump m).1
    domainSuffix := (matcherOf pk v rule).elim [] fun m => (pk.dump m).2
    domainMatcher := matcherOf pk v rule
    sourceIPCIDR := (setOf pk rule.sourceIPCIDR).elim [] (prefixStrings pk)
    sourceIPSet := setOf pk rule.sourceIPCIDR
    ipCIDR := (setOf pk rule.ipCIDR).elim [] (prefixStrings pk)
    ipSet := setOf pk rule.ipCIDR
    adGuardDomain := (adGuardMatcherOf pk rule).elim [] pk.dumpAdGuard
    adGuardDomainMatcher := adGuardMatcherOf pk rule }

/-- The interface addresses of a rule can be stored. -/
def DefaultHeadlessRule.Storable (rule : DefaultHeadlessRule M A) : Prop :=
  (∀ e ∈ rule.networkInterfaceAddress.entries, ∀ p ∈ e.2, Prefixable.Stored p) ∧
    ∀ p ∈ rule.defaultInterfaceAddress, Prefixable.Stored p

theorem sinceVersion_eq_ok {v least : UInt8} {err : String} {bytes bytes' : List UInt8}
    (h : sinceVersion v least err (.ok bytes') = .ok bytes) : bytes' = bytes := by
  rw [sinceVersion] at h
  split_ifs at h
  exact ok.inj h

variable {value : List String}

theorem reads_ipSetOf {set : IPSet} (h : ipSetOf pk value = .ok set) :
    Reads readIPSet (writeIPSet set) set := by
  rw [ipSetOf] at h
  cases ha : parseCIDRs pk 0 value with
  | error err => simp [ha, bind, Except.bind] at h
  | ok added =>
    simp only [ha, bind, bind] at h
    exact reads_ipSet (pk.buildIPSet_ok h).1 (pk.buildIPSet_ok h).2

theorem Steps.cidr {rule : DefaultHeadlessRule M A} {item : RuleItem} {msg : String}
    (set : DefaultHeadlessRule M A → Option IPSet → DefaultHeadlessRule M A)
    (hr : readItem pk true rule item = (fun ips => set rule (some ips)) <$> readIPSet)
    (he : set rule none = rule) (hok : itemIf (!value.isEmpty)
      ((writeRuleItemCIDR pk item value).mapError (cause msg)) = .ok bytes) :
    Steps pk bytes rule (set rule (setOf pk value)) := by
  cases hs : ipSetOf pk value with
  | error err =>
    rw [writeRuleItemCIDR, hs] at hok
    cases hv : value.isEmpty with
    | false => simp [hv, itemIf, Except.map, Except.mapError] at hok
    | true =>
      rw [hv] at hok
      rw [setOf, hv, ← ok.inj hok]
      exact he.symm ▸ refl rule
  | ok ips =>
    refine field (fun ips => set rule (some ips)) hr (reads_ipSetOf hs) ?_ ?_ ?_ hok
    · rw [writeRuleItemCIDR, hs]
      exact ok.inj
    · intro hp
      rw [setOf, if_pos hp, hs]
      rfl
    · intro ha
      rw [setOf, if_neg (by rw [ha]; exact Bool.false_ne_true), he]

theorem produces_defaultRuleItems (v : UInt8) (rule : DefaultHeadlessRule M A)
    (hr : rule.Storable) :
    Produces pk {} (defaultRuleItems pk rule v) { recovered pk v rule with invert := false } := by
  refine .cons (.list (fun r xs => { r with queryType := xs }) rfl rfl (reads_uint16s _) ok.inj) ?_
  refine .cons (.list (fun r xs => { r with network := xs }) rfl rfl (reads_strings _) ok.inj) ?_
  refine .cons (.matcher (fun r m => { r with
    domain := m.elim [] fun m => (pk.dump m).1
    domainSuffix := m.elim [] fun m => (pk.dump m).2
    domainMatcher := m }) rfl rfl (pk.reads_matcher _) ok.inj) ?_
  refine .cons (.list (fun r xs => { r with domainKeyword := xs }) rfl rfl (reads_strings _)
    ok.inj) ?_
  refine .cons (.list (fun r xs => { r with domainRegex := xs }) rfl rfl (reads_strings _)
    ok.inj) ?_
  refine .cons (.cidr (fun r set =>
    { r with sourceIPCIDR := set.elim [] (prefixStrings pk), sourceIPSet := set }) rfl rfl) ?_
  refine .cons (.cidr (fun r set =>
    { r with ipCIDR := set.elim [] (prefixStrings pk), ipSet := set }) rfl rfl) ?_
  refine .cons (.list (fun r xs => { r with sourcePort := xs }) rfl rfl (reads_uint16s _) ok.inj) ?_
  refine .cons (.list (fun r xs => { r with sourcePortRange := xs }) rfl rfl (reads_strings _)
    ok.inj) ?_
  refine .cons (.list (fun r xs => { r with port := xs }) rfl rfl (reads_uint16s _) ok.inj) ?_
  refine .cons (.list (fun r xs => { r with portRange := xs }) rfl rfl (reads_strings _) ok.inj) ?_
  refine .cons (.list (fun r xs => { r with processName := xs }) rfl rfl (reads_strings _)
    ok.inj) ?_
  refine .cons (.list (fun r xs => { r with processPath := xs }) rfl rfl (reads_strings _)
    ok.inj) ?_
  refine .cons (.list (fun r xs => { r with processPathRegex := xs }) rfl rfl (reads_strings _)
    ok.inj) ?_
  refine .cons (.list (fun r xs => { r with packageName := xs }) rfl rfl (reads_strings _)
    ok.inj) ?_
  refine .cons (.list (fun r xs => { r with packageNameRegex := xs }) rfl rfl
    (reads_strings _) sinceVersion_eq_ok) ?_
  refine .cons (.list (fun r xs => { r with networkType := xs }) rfl rfl
    (reads_uint8s _) sinceVersion_eq_ok) ?_
  refine .cons (.flag (fun r b => { r with networkIsExpensive := b }) rfl rfl sinceVersion_eq_ok) ?_
  refine .cons (.flag (fun r b => { r with networkIsConstrained := b }) rfl rfl
    sinceVersion_eq_ok) ?_
  refine .cons (.addresses (fun r m => { r with networkInterfaceAddress := m }) rfl rfl
    hr.1 sinceVersion_eq_ok) ?_
  refine .cons (.list (fun r xs => { r with defaultInterfaceAddress := xs }) rfl rfl
    (reads_prefixes hr.2) sinceVersion_eq_ok) ?_
  refine .cons (.list (fun r xs => { r with wifiSSID := xs }) rfl rfl (reads_strings _) ok.inj) ?_
  refine .cons (.list (fun r xs => { r with wifiBSSID := xs }) rfl rfl (reads_strings _) ok.inj) ?_
  exact .cons (.matcher (fun r m => { r with
    adGuardDomain := m.elim [] pk.dumpAdGuard
    adGuardDomainMatcher := m }) rfl rfl (pk.reads_adGuardMatcher _) sinceVersion_eq_ok) .nil

/-! ### Rule trees and files -/

theorem reads_mode (mode : LogicalMode) : Reads readMode [mode.code] mode := by
  cases mode <;> exact fun _ => rfl

mutual

theorem reads_rule (v : UInt8) : ∀ (rule : HeadlessRule M A) {levels : ℕ} {bytes : List UInt8},
    rule.depth < levels → rule.All DefaultHeadlessRule.Storable →
    writeRule pk v rule = .ok bytes →
    Reads (readRule pk true levels) bytes (rule.map (recovered pk v))
  | .default options, levels + 1, bytes, _, ha, h => by
    rw [writeRule, writeDefaultRule] at h
    cases hi : concatAll (defaultRuleItems pk options v) with
    | error err => simp [hi, Except.map] at h
    | ok items =>
      simp only [hi, Except.map, Except.ok.injEq] at h
      have hdef := (((produces_defaultRuleItems v options ha).steps hi).reads
        options.invert).map (default (M := M) (A := A))
      rw [← h]
      exact (reads_byte 0).bind hdef
  | .logical mode rules invert, levels + 1, bytes, hd, ha, h => by
    rw [writeRule] at h
    cases hrs : concatAll (writeRules pk v rules) with
    | error err => simp [hrs, Except.map] at h
    | ok out =>
      simp only [hrs, Except.map, Except.ok.injEq] at h
      obtain ⟨parts, rfl, hps⟩ :=
        reads_rules v rules (Nat.lt_of_succ_lt_succ hd) ha hrs
      have hm := Reads.many (fun i => cause ("read logical rule [" ++ toString i ++ "]"))
        hps 0
      rw [length_maps] at hm
      have hl : Reads (readLogicalRule (readRule pk true levels))
          (mode.code :: (putUvarint rules.length ++ (parts.flatten ++ writeBool invert)))
          (logical mode (maps (recovered pk v) rules) invert) :=
        (reads_mode mode).bind ((reads_uvarint rules.length).bind
          (hm.bind ((reads_bool invert).bind_pure _)))
      rw [← h, append_assoc]
      exact (reads_byte 1).bind hl

theorem reads_rules (v : UInt8) : ∀ (rules : List (HeadlessRule M A)) {levels : ℕ}
    {bytes : List UInt8}, depths rules < levels →
    HeadlessRule.Alls DefaultHeadlessRule.Storable rules →
    concatAll (writeRules pk v rules) = .ok bytes →
    ∃ parts, parts.flatten = bytes ∧
      List.Forall₂ (Reads (readRule pk true levels)) parts
        (maps (recovered pk v) rules)
  | [], _, bytes, _, _, h => ⟨[], by rw [← ok.inj h]; rfl, .nil⟩
  | rule :: rules, levels, bytes, hd, ha, h => by
    obtain ⟨fst, rest, hf, hre, rfl⟩ := concatAll_cons_eq_ok h
    rw [depths] at hd
    have hr : rule.depth < levels := by omega
    have hrs : depths rules < levels := by omega
    obtain ⟨parts, rfl, hps⟩ := reads_rules v rules hrs ha.2 hre
    exact ⟨fst :: parts, rfl, .cons (reads_rule v rule hr ha.1 hf) hps⟩

end

theorem write_eq_ok {v : UInt8} {rules : List (HeadlessRule M A)}
    (h : write pk rules v = .ok bytes) : ∃ out, concatAll (writeRules pk v rules) = .ok out ∧
      bytes = magicBytes ++ v :: pk.compress (putUvarint rules.length ++ out) := by
  rw [write] at h
  cases hrs : concatAll (writeRules pk v rules) with
  | error err => simp [hrs, Except.map] at h
  | ok out =>
    rw [hrs] at h
    exact ⟨out, rfl, (ok.inj h).symm⟩

theorem read_magic (v : UInt8) (stream : List UInt8) (recover : Bool) :
    read pk (magicBytes ++ v :: stream) recover =
      if ruleSetVersionCurrent < v then .error ("unsupported version: " ++ toString v)
      else (pk.decompress stream).bind fun bytes =>
        (readRules pk recover bytes).bind fun p => .ok (v, p.1) := rfl

/-- **A rule-set file is read back.** A file that `Write` has written for a version the code
knows, from rules that are not nested too deep and whose interface addresses are addresses, is
read with the same version and the same tree of rules, where the domain lists are those that the
matchers dump and the CIDR lists are the prefixes of the sets they denote. A file of a later
version, which `Write` produces as well, is refused by `Read`. -/
theorem read_write (pk : Packages M A) (rules : List (HeadlessRule M A)) (v : UInt8)
    (bytes : List UInt8) (hdepth : HeadlessRule.depths rules ≤ maxLogicalRuleDepth)
    (hall : HeadlessRule.Alls DefaultHeadlessRule.Storable rules)
    (h : write pk rules v = .ok bytes) :
    (v ≤ ruleSetVersionCurrent →
      read pk bytes true = .ok (v, HeadlessRule.maps (recovered pk v) rules)) ∧
    (ruleSetVersionCurrent < v →
      read pk bytes true = .error ("unsupported version: " ++ toString v)) := by
  obtain ⟨out, ho, rfl⟩ := write_eq_ok h
  rw [read_magic]
  constructor
  · intro hv
    obtain ⟨ps, rfl, hps⟩ := reads_rules v rules (Nat.lt_succ_of_le hdepth) hall ho
    have hm := Reads.many (fun i => cause ("read rule[" ++ toString i ++ "]")) hps 0
    rw [length_maps] at hm
    have hs : Reads (readRules pk true) (putUvarint rules.length ++ ps.flatten)
        (maps (recovered pk v) rules) := (reads_uvarint _).bind hm
    have hr := hs []
    rw [append_nil] at hr
    rw [if_neg (UInt8.not_lt.mpr hv), pk.decompress_compress]
    simp only [Except.bind, hr]
  · intro hv
    rw [if_pos hv]

end

/-- Packages without compression, whose matchers are the lists they were made of, and that parse
no addresses. -/
def plainPackages : Packages (List String × List String) (List String) where
  compress := id
  decompress := .ok
  decompress_compress := fun _ => rfl
  newMatcher := fun domains domainSuffix _ => (domains, domainSuffix)
  writeMatcher := fun m => putUvarint m.1.length ++ m.1.flatMap writeString ++
    (putUvarint m.2.length ++ m.2.flatMap writeString)
  readMatcher := do
    let domains ← readRuleItemString
    let domainSuffix ← readRuleItemString
    pure (domains, domainSuffix)
  reads_matcher := fun m =>
    (reads_strings m.1).bind ((reads_strings m.2).bind_pure (Prod.mk m.1))
  dump := id
  newAdGuardMatcher := id
  writeAdGuardMatcher := fun m => putUvarint m.length ++ m.flatMap writeString
  readAdGuardMatcher := readRuleItemString
  reads_adGuardMatcher := reads_strings
  dumpAdGuard := id
  parsePrefix := fun _ => .error "no prefix"
  parseAddr := fun _ => .error "no address"
  buildIPSet := fun _ => .ok []
  buildIPSet_ok := by
    intro added set h
    rw [← Except.ok.inj h]
    simp
  prefixes := fun _ => []
  prefixString := fun _ => ""

/-- A logical rule over two default rules. -/
def exampleRules : List (HeadlessRule (List String × List String) (List String)) :=
  [.logical .or
    [.default { network := ["tcp"], invert := true }, .default { domain := ["example.org"] }]
    false]

theorem read_write_example : ∃ bytes, write plainPackages exampleRules 5 = .ok bytes ∧
    read plainPackages bytes true =
      .ok (5, HeadlessRule.maps (recovered plainPackages 5) exampleRules) := by
  refine ⟨_, rfl, (read_write plainPackages exampleRules 5 _ (by decide) ?_ rfl).1 (by decide)⟩
  simp [exampleRules, HeadlessRule.Alls, HeadlessRule.All, DefaultHeadlessRule.Storable]

/-- `Write` does not check the version, and writes an interface address that is a nil pointer. -/
theorem read_write_unsupported :
    (∃ bytes, write plainPackages [] 6 = .ok bytes ∧
      read plainPackages bytes true = .error "unsupported version: 6") ∧
    ∃ bytes, write plainPackages [.default { defaultInterfaceAddress := [none] }] 4 = .ok bytes ∧
      read plainPackages bytes true = .error "read rule[0]: invalid argument" := by
  refine ⟨⟨_, rfl, ?_⟩, ⟨_, rfl, ?_⟩⟩
  · rw [read_magic]
    rfl
  · rw [read_magic]
    have ho : putUvarint 1 = [1] := by decide +kernel
    have hn : writePrefixes [none] = [1, 0, 255] := by decide +kernel
    simp only [length_singleton, ho, hn]
    rfl

end SingBox.RuleSet
