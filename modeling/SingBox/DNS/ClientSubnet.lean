import SingBox.Net.Addr
import SingBox.Foundation.Reader

/-!
# The EDNS client subnet of a message

A message carries the subnet of the client in an option of its OPT record, one of the records of the
additional section. `setClientSubnet` searches the section for an OPT record with a subnet option,
and afterwards edits the option, appends one to the record, or appends a record. The search keeps
the record and the option in two variables, which every further record and option overwrites: a
record behind an OPT record without subnet makes the search forget it. The message then gets a
second OPT record.
-/

namespace SingBox.DNS.ClientSubnet

open SingBox.Net Foundation List Prefix

/-! ### Messages -/

/-- `dns.EDNS0_SUBNET`. -/
structure SubnetOption where
  family : ℕ := 0
  sourceNetmask : ℕ := 0
  sourceScope : ℕ := 0
  address : List UInt8 := []
deriving DecidableEq, Repr

/-- `dns.EDNS0SUBNET`. -/
def edns0SUBNET : ℕ := 8

/-- An option of an OPT record. Options with the code of a subnet are unpacked as such. -/
inductive EDNS0 where
  | subnet (option : SubnetOption)
  | other (code : ℕ) (data : List UInt8) (hcode : code ≠ edns0SUBNET)
deriving DecidableEq

/-- `EDNS0.Option`. -/
def EDNS0.option : EDNS0 → ℕ
  | subnet _ => edns0SUBNET
  | other code _ _ => code

/-- The type assertion to `*dns.EDNS0_SUBNET`. -/
def EDNS0.isSubnet : EDNS0 → Bool
  | subnet _ => true
  | other .. => false

/-- The header of an OPT record: its class is the size of datagrams and its TTL has the flags. -/
structure OPTHeader where
  name : String := "."
  udpSize : ℕ := 0
  flags : ℕ := 0
deriving DecidableEq, Repr

/-- A record of the additional section. -/
inductive Record where
  | opt (header : OPTHeader) (options : List EDNS0)
  | other (data : String)
deriving DecidableEq

/-- The type assertion to `*dns.OPT`. -/
def Record.isOPT : Record → Bool
  | opt .. => true
  | other _ => false

/-- The options of a record. -/
def Record.options : Record → List EDNS0
  | opt _ options => options
  | other _ => []

/-- An assignment to the options of an OPT record. -/
def Record.modifyOptions (f : List EDNS0 → List EDNS0) : Record → Record
  | opt header options => opt header (f options)
  | other data => other data

/-- A message; `head` is all but the additional section. -/
structure Message (α : Type*) where
  head : α
  extra : List Record
deriving DecidableEq

variable {α : Type*}

/-! ### Addresses as bytes -/

/-- `Addr.AsSlice`. -/
def asSlice : Addr → List UInt8
  | .invalid => []
  | .v4 a => bigEndian 4 a.toNat
  | .v6 a => bigEndian 16 a.toNat

/-- `netip.AddrFromSlice`. -/
def addrFromSlice (bytes : List UInt8) : Option Addr :=
  if bytes.length = 4 then some (.v4 (BitVec.ofNat 32 (ofBigEndian bytes)))
  else if bytes.length = 16 then some (.v6 (BitVec.ofNat 128 (ofBigEndian bytes)))
  else none

theorem addrFromSlice_asSlice {a : Addr} (h : a.isValid) : addrFromSlice (asSlice a) = some a := by
  cases a with
  | invalid => cases h
  | v4 a =>
    have hlt : a.toNat < 256 ^ 4 := a.isLt
    rw [asSlice, addrFromSlice, if_pos (length_bigEndian 4 _), ofBigEndian_bigEndian_of_lt hlt,
      BitVec.ofNat_toNat, BitVec.setWidth_eq]
  | v6 a =>
    have hlt : a.toNat < 256 ^ 16 := a.isLt
    rw [asSlice, addrFromSlice, if_neg (by rw [length_bigEndian]; decide),
      if_pos (length_bigEndian 16 _), ofBigEndian_bigEndian_of_lt hlt, BitVec.ofNat_toNat,
      BitVec.setWidth_eq]

/-! ### The functions -/

/-- The inner loop of `clientSubnetFromMessage`. -/
def subnetOf : List EDNS0 → Option Prefix
  | [] => none
  | .subnet option :: _ =>
    match addrFromSlice option.address with
    | none => some Prefix.zero
    | some address => some (Prefix.prefixFrom address.unmap option.sourceNetmask)
  | .other .. :: options => subnetOf options

/-- The outer loop of `clientSubnetFromMessage`. -/
def subnetOfRecords : List Record → Prefix
  | [] => Prefix.zero
  | record :: records =>
    match subnetOf record.options with
    | some subnet => subnet
    | none => subnetOfRecords records

def clientSubnetFromMessage (message : Message α) : Prefix :=
  subnetOfRecords message.extra

def removeClientSubnet (message : Message α) : Message α :=
  if message.extra.any fun record => record.options.any fun o => o.option == edns0SUBNET then
    { message with extra := message.extra.map fun record =>
        record.modifyOptions (·.filter fun o => o.option != edns0SUBNET) }
  else message

/-- The loop over the options of one OPT record: the option that is held, by its index, and whether
the search is over. -/
def scanOptions : List EDNS0 → ℕ → Option ℕ → Option ℕ × Bool
  | [], _, subnetOption => (subnetOption, false)
  | option :: options, i, _ =>
    if option.isSubnet then (some i, true) else scanOptions options (i + 1) none

/-- The search `findExists`: the OPT record and the option that are held, by their indices. -/
def scanExtra : List Record → ℕ → Option ℕ × Option ℕ → Option ℕ × Option ℕ
  | [], _, found => found
  | .opt _ options :: records, i, (_, subnetOption) =>
    let (subnetOption, done) := scanOptions options 0 subnetOption
    if done then (some i, subnetOption) else scanExtra records (i + 1) (some i, subnetOption)
  | .other _ :: records, i, (_, subnetOption) => scanExtra records (i + 1) (none, subnetOption)

/-- The fields of the option that are set. -/
def SubnetOption.write (p : Prefix) (option : SubnetOption) : SubnetOption :=
  { option with
    family := if p.addr.is4 then 1 else 2
    sourceNetmask := p.bits % 256
    address := asSlice p.addr }

/-- An assignment to a subnet option. -/
def EDNS0.write (p : Prefix) : EDNS0 → EDNS0
  | subnet option => subnet (option.write p)
  | other code data hcode => other code data hcode

/-- `setClientSubnet` on the additional section. The copy of the message that it may make first is
the message itself here. -/
def setExtra (p : Prefix) (extra : List Record) : List Record :=
  let (optRecord, subnetOption) := scanExtra extra 0 (none, none)
  let (extra, i) := match optRecord with
    | none => (extra ++ [Record.opt {} []], extra.length)
    | some i => (extra, i)
  match subnetOption with
  | none => extra.modify i (Record.modifyOptions (· ++ [EDNS0.subnet (SubnetOption.write p {})]))
  | some j => extra.modify i (Record.modifyOptions (·.modify j (EDNS0.write p)))

def setClientSubnet (message : Message α) (p : Prefix) : Message α :=
  { message with extra := setExtra p message.extra }

/-- `Client.prepareExchangeMessage`; `ownSubnet` is the subnet of the client. -/
def prepareExchangeMessage (ownSubnet optionsSubnet : Prefix) (remove : Bool)
    (message : Message α) : Message α :=
  if remove then removeClientSubnet message
  else
    let clientSubnet := if optionsSubnet.isValid then optionsSubnet else ownSubnet
    if clientSubnet.isValid then setClientSubnet message clientSubnet else message

/-! ### What the rewrites are meant to do -/

/-- The options of all OPT records that are not subnets. -/
def otherOptions (extra : List Record) : List EDNS0 :=
  (extra.flatMap Record.options).filter fun o => !o.isSubnet

/-- One OPT record with one subnet option, which reads back; the rest is as before. -/
structure IsRewritten (p : Prefix) (message message' : Message α) : Prop where
  head : message'.head = message.head
  records : message'.extra.filter (!·.isOPT) = message.extra.filter (!·.isOPT)
  opt : ∃ header options, message'.extra.filter Record.isOPT = [.opt header options] ∧
    (options.filter EDNS0.isSubnet).length = 1 ∧
    options.filter (!·.isSubnet) = otherOptions message.extra ∧
    ∀ header' options', Record.opt header' options' ∈ message.extra → header' = header
  reads : clientSubnetFromMessage message' = p

/-- No subnet option is left, and the rest is as before. -/
structure IsRemoved (message message' : Message α) : Prop where
  head : message'.head = message.head
  removed : ∀ record ∈ message'.extra, ∀ option ∈ record.options, option.isSubnet = false
  records : message'.extra =
    message.extra.map (.modifyOptions (·.filter fun o => !o.isSubnet))

/-- An OPT record has one subnet option, or it has none and is the last record. -/
def Settled (extra : List Record) : Prop :=
  ∀ header options, Record.opt header options ∈ extra →
    (options.filter EDNS0.isSubnet).length = 1 ∨
      options.filter EDNS0.isSubnet = [] ∧ extra.getLast? = some (.opt header options)

/-! ### What the search finds -/

/-- No subnet option among these. -/
def Plain (options : List EDNS0) : Prop :=
  ∀ option ∈ options, option.isSubnet = false

/-- No OPT record among these. -/
def Bare (records : List Record) : Prop :=
  ∀ record ∈ records, record.isOPT = false

theorem scanOptions_of_plain {options : List EDNS0} (h : Plain options) (i : ℕ) :
    scanOptions options i none = (none, false) := by
  induction options generalizing i with
  | nil => rfl
  | cons option options ih =>
    obtain ⟨ho, hoptions⟩ := forall_mem_cons.mp h
    rw [scanOptions, ho]
    exact ih hoptions (i + 1)

theorem scanOptions_of_subnet {before : List EDNS0} (h : Plain before) (option : SubnetOption)
    (behind : List EDNS0) (i : ℕ) (held : Option ℕ) :
    scanOptions (before ++ .subnet option :: behind) i held = (some (i + before.length), true) := by
  induction before generalizing i held with
  | nil => rfl
  | cons first before ih =>
    obtain ⟨hf, hbefore⟩ := forall_mem_cons.mp h
    rw [cons_append, scanOptions, hf]
    refine (ih hbefore (i + 1) none).trans ?_
    rw [length_cons, Nat.add_right_comm, Nat.add_assoc]

/-- Records that are no OPT records make the search forget the one it holds. -/
theorem scanExtra_of_bare {records : List Record} (h : Bare records) (i : ℕ)
    (held : Option ℕ × Option ℕ) :
    scanExtra records i held = if records = [] then held else (none, held.2) := by
  induction records generalizing i held with
  | nil => rfl
  | cons record records ih =>
    obtain ⟨hr, hre⟩ := forall_mem_cons.mp h
    cases record with
    | opt header options => cases hr
    | other data =>
      rw [scanExtra, ih hre, if_neg (cons_ne_nil _ _)]
      split_ifs <;> rfl

variable {before : List Record}

theorem scanExtra_append_of_bare (h : Bare before) (record : Record) (behind : List Record)
    (i : ℕ) : scanExtra (before ++ record :: behind) i (none, none) =
      scanExtra (record :: behind) (i + before.length) (none, none) := by
  induction before generalizing i with
  | nil => rfl
  | cons first before ih =>
    obtain ⟨hf, hbefore⟩ := forall_mem_cons.mp h
    cases first with
    | opt header options => cases hf
    | other data =>
      rw [cons_append, scanExtra]
      refine (ih hbefore (i + 1)).trans ?_
      rw [length_cons, Nat.add_right_comm, Nat.add_assoc]

section Search

variable {before behind : List Record} (hbefore : Bare before) (header : OPTHeader)

include hbefore

variable {options : List EDNS0} (hoptions : Plain options)

include hoptions

theorem scanExtra_of_subnet (option : SubnetOption) (rest : List EDNS0) :
    scanExtra (before ++ .opt header (options ++ .subnet option :: rest) :: behind) 0 (none, none) =
      (some before.length, some options.length) := by
  rw [scanExtra_append_of_bare hbefore, scanExtra, scanOptions_of_subnet hoptions]
  simp

theorem scanExtra_of_last :
    scanExtra (before ++ [.opt header options]) 0 (none, none) = (some before.length, none) := by
  rw [scanExtra_append_of_bare hbefore, scanExtra, scanOptions_of_plain hoptions]
  simp [scanExtra]

theorem scanExtra_of_forgotten (hbehind : Bare behind) (hne : behind ≠ []) :
    scanExtra (before ++ .opt header options :: behind) 0 (none, none) = (none, none) := by
  rw [scanExtra_append_of_bare hbefore, scanExtra, scanOptions_of_plain hoptions]
  simp only [Bool.false_eq_true, if_false]
  rw [scanExtra_of_bare hbehind, if_neg hne]

end Search

/-! ### What the rewrite leaves -/

theorem modify_length {β : Type*} (before : List β) (x : β) (behind : List β) (f : β → β) :
    (before ++ x :: behind).modify before.length f = before ++ f x :: behind := by
  induction before with
  | nil => rfl
  | cons a before ih => simpa using ih

/-- The option that is written for a prefix where there was none. -/
def freshOption (p : Prefix) : EDNS0 :=
  .subnet (SubnetOption.write p {})

variable {extra : List Record}

theorem setExtra_of_none (p : Prefix) (h : scanExtra extra 0 (none, none) = (none, none)) :
    setExtra p extra = extra ++ [.opt {} [freshOption p]] := by
  rw [setExtra, h]
  exact modify_length extra _ [] _

theorem setExtra_of_bare (p : Prefix) (h : Bare extra) :
    setExtra p extra = extra ++ [.opt {} [freshOption p]] := by
  refine setExtra_of_none p ((scanExtra_of_bare h 0 _).trans ?_)
  split_ifs <;> rfl

open Record

open EDNS0

section Set

variable {before behind : List Record} (hbefore : Bare before) (header : OPTHeader) (p : Prefix)

include hbefore

variable {options : List EDNS0} (hoptions : Plain options)

include hoptions

theorem setExtra_of_subnet (option : SubnetOption) (rest : List EDNS0) :
    setExtra p (before ++ .opt header (options ++ .subnet option :: rest) :: behind) =
      before ++ .opt header (options ++ .subnet (option.write p) :: rest) :: behind := by
  rw [setExtra, scanExtra_of_subnet hbefore header hoptions]
  dsimp only
  rw [modify_length, modifyOptions, modify_length, write]

theorem setExtra_of_last : setExtra p (before ++ [.opt header options]) =
      before ++ [.opt header (options ++ [freshOption p])] := by
  rw [setExtra, scanExtra_of_last hbefore header hoptions]
  exact modify_length before _ [] _

theorem setExtra_of_forgotten (hbehind : Bare behind) (hne : behind ≠ []) :
    setExtra p (before ++ .opt header options :: behind) =
      (before ++ .opt header options :: behind) ++ [.opt {} [freshOption p]] :=
  setExtra_of_none p (scanExtra_of_forgotten hbefore header hoptions hbehind hne)

end Set

/-! ### Reading the section -/

section Bare

variable {records : List Record} (h : Bare records)

include h

theorem Bare.filter_isOPT : records.filter isOPT = [] :=
  filter_eq_nil_iff.mpr fun record hr => by simp [h record hr]

theorem Bare.options {record : Record} (hr : record ∈ records) : record.options = [] := by
  cases record with
  | opt header options => cases h _ hr
  | other data => rfl

theorem Bare.flatMap_options : records.flatMap Record.options = [] :=
  flatMap_eq_nil_iff.mpr fun _ hr => h.options hr

theorem Bare.not_mem (header : OPTHeader) (options : List EDNS0) :
    opt header options ∉ records := fun hm => by
  cases h _ hm

theorem Bare.subnetOfRecords_append (behind : List Record) :
    subnetOfRecords (records ++ behind) = subnetOfRecords behind := by
  induction records with
  | nil => rfl
  | cons record records ih =>
    rw [cons_append, subnetOfRecords, h.options mem_cons_self, subnetOf]
    exact ih fun r hr => h r (mem_cons_of_mem _ hr)

end Bare

section Plain

variable {options : List EDNS0} (h : Plain options)

include h

theorem Plain.filter_isSubnet : options.filter isSubnet = [] :=
  filter_eq_nil_iff.mpr fun option ho => by simp [h option ho]

theorem Plain.filter_not_isSubnet : options.filter (!·.isSubnet) = options :=
  filter_eq_self.mpr fun option ho => by simp [h option ho]

theorem Plain.subnetOf_append (behind : List EDNS0) :
    subnetOf (options ++ behind) = subnetOf behind := by
  induction options with
  | nil => rfl
  | cons option options ih =>
    obtain ⟨ho, hoptions⟩ := forall_mem_cons.mp h
    cases option with
    | subnet option => cases ho
    | other code data hc =>
      rw [cons_append, subnetOf]
      exact ih hoptions

end Plain

theorem exists_split_options (options : List EDNS0) : Plain options ∨
    ∃ before option behind, options = before ++ .subnet option :: behind ∧ Plain before := by
  induction options with
  | nil => exact .inl fun _ h => absurd h not_mem_nil
  | cons first options ih =>
    cases first with
    | subnet option =>
      exact .inr ⟨[], option, options, rfl, fun _ h => absurd h not_mem_nil⟩
    | other code data hc =>
      rcases ih with hpl | ⟨before, option, behind, rfl, hpl⟩
      · exact .inl (forall_mem_cons.mpr ⟨rfl, hpl⟩)
      · exact .inr ⟨_ :: before, option, behind, rfl, forall_mem_cons.mpr ⟨rfl, hpl⟩⟩

theorem exists_split_extra (h : (extra.filter isOPT).length ≤ 1) : Bare extra ∨
    ∃ before hd options behind, extra = before ++ .opt hd options :: behind ∧ Bare before ∧
      Bare behind := by
  induction extra with
  | nil => exact .inl fun _ h => absurd h not_mem_nil
  | cons first extra ih =>
    cases first with
    | opt hd options =>
      rw [filter_cons_of_pos (by rfl), length_cons] at h
      have hn := eq_nil_of_length_eq_zero (Nat.le_zero.mp (Nat.le_of_succ_le_succ h))
      refine .inr ⟨[], hd, options, extra, rfl, fun _ h => absurd h not_mem_nil, ?_⟩
      exact fun record hr => by simpa using filter_eq_nil_iff.mp hn record hr
    | other data =>
      rcases ih h with hb | ⟨before, hd, options, behind, rfl, hbe, hbh⟩
      · exact .inl (forall_mem_cons.mpr ⟨rfl, hb⟩)
      · exact .inr ⟨_ :: before, hd, options, behind, rfl, forall_mem_cons.mpr ⟨rfl, hbe⟩, hbh⟩

theorem subnetOf_write (p : Prefix) (hp : p.isValid) (option : SubnetOption)
    (behind : List EDNS0) : subnetOf (.subnet (option.write p) :: behind) =
      some (prefixFrom p.addr.unmap (p.bits % 256)) := by
  rw [subnetOf, SubnetOption.write]
  dsimp only
  rw [addrFromSlice_asSlice (addr_isValid hp)]

theorem prefixFrom_unmap_iff {p : Prefix} (hp : p.isValid) :
    prefixFrom p.addr.unmap (p.bits % 256) = p ↔ p.addr.unmap = p.addr := by
  constructor
  · intro h
    have ha := congrArg addr h
    rw [prefixFrom] at ha
    split_ifs at ha <;> exact ha
  · intro h
    have hv := addr_isValid hp
    have hb := p.bits_le
    have hl : p.addr.bitLen ≤ 128 := by
      cases p.addr <;> simp [Addr.bitLen]
    have hpos : 0 < p.bitsPlusOne := by simpa [isValid] using hp
    rw [h, Nat.mod_eq_of_lt (by omega), prefixFrom, dif_pos ⟨hv, hb⟩]
    obtain ⟨addr, bitsPlusOne, hp⟩ := p
    simp only [bits, mk.injEq, true_and]
    exact Nat.succ_pred_eq_of_pos hpos

/-! ### The rewrites -/

section Rewrites

variable (head : α) {p : Prefix} (hp : p.isValid = true)

theorem settled_of_bare (h : Bare extra) : Settled extra :=
  fun header options hm => absurd hm (h.not_mem header options)

theorem settled_iff {before behind : List Record} (hbe : Bare before) (hbh : Bare behind)
    (header : OPTHeader) (options : List EDNS0) :
    Settled (before ++ .opt header options :: behind) ↔ (options.filter isSubnet).length = 1 ∨
        options.filter isSubnet = [] ∧ behind = [] := by
  have hl : (before ++ .opt header options :: behind).getLast? = some (.opt header options) ↔
      behind = [] := by
    rw [getLast?_append, getLast?_cons]
    cases behind with
    | nil => simp
    | cons record behind =>
      have hne : (record :: behind).getLast?.getD (.opt header options) ≠ .opt header options := by
        rw [getLast?_eq_some_getLast (cons_ne_nil _ _), Option.getD_some]
        exact fun heq => hbh.not_mem header options (heq ▸ getLast_mem _)
      simpa using hne
  constructor
  · intro h
    have ho := h header options (by simp)
    rwa [hl] at ho
  · intro h header' o' hm
    rcases mem_append.mp hm with hm | hm
    · exact absurd hm (hbe.not_mem header' o')
    rcases mem_cons.mp hm with heq | hm
    · obtain ⟨rfl, rfl⟩ := opt.inj heq
      rwa [hl]
    · exact absurd hm (hbh.not_mem header' o')

omit hp in
theorem not_isRewritten_of_forgotten {header : OPTHeader} {options : List EDNS0}
    (h : opt header options ∈ extra) :
    ¬ IsRewritten p ⟨head, extra⟩ ⟨head, extra ++ [.opt {} [freshOption p]]⟩ := by
  rintro ⟨-, -, ⟨header', o', hopt, -⟩, -⟩
  have ho : 0 < (extra.filter isOPT).length := length_pos_of_mem (mem_filter.mpr ⟨h, rfl⟩)
  have hl := congrArg length hopt
  rw [filter_append, length_append] at hl
  exact absurd hl (Nat.ne_of_gt (Nat.add_lt_add_right ho 1))

include hp

theorem isRewritten_of_bare_iff (h : Bare extra) :
    IsRewritten p ⟨head, extra⟩ ⟨head, extra ++ [.opt {} [freshOption p]]⟩ ↔
      p.addr.unmap = p.addr := by
  have hrds : clientSubnetFromMessage (⟨head, extra ++ [.opt {} [freshOption p]]⟩ : Message α) =
      prefixFrom p.addr.unmap (p.bits % 256) := by
    rw [clientSubnetFromMessage, h.subnetOfRecords_append, subnetOfRecords, Record.options,
      freshOption, subnetOf_write p hp]
  constructor
  · intro hr
    exact (prefixFrom_unmap_iff hp).mp (hrds.symm.trans hr.reads)
  · intro hu
    refine ⟨rfl, ?_, ⟨{}, [freshOption p], ?_, rfl, ?_, ?_⟩,
      hrds.trans ((prefixFrom_unmap_iff hp).mpr hu)⟩
    · simp [Record.isOPT]
    · rw [filter_append, h.filter_isOPT]
      rfl
    · rw [otherOptions, h.flatMap_options]
      rfl
    · exact fun header options hm => absurd hm (h.not_mem header options)

section OPT

variable {before behind : List Record} (hbefore : Bare before) (hbehind : Bare behind)
  (header : OPTHeader)

include hbefore hbehind

omit hp in
theorem isRewritten_in_place_iff (options o' : List EDNS0) :
    IsRewritten p ⟨head, before ++ .opt header options :: behind⟩
        ⟨head, before ++ .opt header o' :: behind⟩ ↔
      (o'.filter isSubnet).length = 1 ∧
        o'.filter (!·.isSubnet) = options.filter (!·.isSubnet) ∧
        subnetOfRecords (.opt header o' :: behind) = p := by
  have hopt : ∀ options, (before ++ .opt header options :: behind).filter Record.isOPT =
      [.opt header options] := by
    intro options
    rw [filter_append, hbefore.filter_isOPT, filter_cons_of_pos (by rfl), hbehind.filter_isOPT,
      nil_append]
  have ho : otherOptions (before ++ .opt header options :: behind) =
      options.filter (!·.isSubnet) := by
    rw [otherOptions, flatMap_append, hbefore.flatMap_options, flatMap_cons,
      hbehind.flatMap_options, append_nil, nil_append, Record.options]
  have hrd : clientSubnetFromMessage
      (⟨head, before ++ .opt header o' :: behind⟩ : Message α) =
        subnetOfRecords (.opt header o' :: behind) :=
    hbefore.subnetOfRecords_append _
  constructor
  · rintro ⟨-, -, ⟨header', fd, hf, hon, hr, -⟩, hp⟩
    obtain ⟨rfl, rfl⟩ := Record.opt.inj (head_eq_of_cons_eq ((hopt o').symm.trans hf))
    exact ⟨hon, hr.trans ho, hrd.symm.trans hp⟩
  · rintro ⟨hon, hr, hp⟩
    refine ⟨rfl, ?_, ⟨header, o', hopt o', hon, hr.trans ho.symm, ?_⟩, hrd.trans hp⟩
    · simp [Record.isOPT]
    · intro header' fd hm
      have hm' := mem_filter.mpr ⟨hm, (rfl : Record.isOPT (.opt header' fd) = true)⟩
      rw [hopt options, mem_singleton] at hm'
      exact (Record.opt.inj hm').1

theorem isRewritten_of_subnet_iff {options : List EDNS0} (hop : Plain options)
    (option : SubnetOption) (rest : List EDNS0) :
    IsRewritten p ⟨head, before ++ .opt header (options ++ .subnet option :: rest) :: behind⟩
        ⟨head, before ++ .opt header (options ++ .subnet (option.write p) :: rest) :: behind⟩ ↔
      p.addr.unmap = p.addr ∧
        ((options ++ .subnet option :: rest).filter isSubnet).length = 1 := by
  have hr : subnetOfRecords
      (.opt header (options ++ .subnet (option.write p) :: rest) :: behind) =
        prefixFrom p.addr.unmap (p.bits % 256) := by
    rw [subnetOfRecords, Record.options, hop.subnetOf_append, subnetOf_write p hp]
  rw [isRewritten_in_place_iff head hbefore hbehind, hr, prefixFrom_unmap_iff hp]
  simp only [filter_append, filter_cons, isSubnet, if_true, length_append,
    length_cons, Bool.not_true, Bool.false_eq_true, if_false]
  constructor
  · exact fun h => ⟨h.2.2, h.1⟩
  · exact fun h => ⟨h.2, trivial, h.1⟩

end OPT

theorem isRewritten_of_last_iff (hbefore : Bare before) (header : OPTHeader) {options : List EDNS0}
    (hoptions : Plain options) : IsRewritten p ⟨head, before ++ [.opt header options]⟩
        ⟨head, before ++ [.opt header (options ++ [freshOption p])]⟩ ↔
      p.addr.unmap = p.addr := by
  have hr : subnetOfRecords [.opt header (options ++ [freshOption p])] =
      prefixFrom p.addr.unmap (p.bits % 256) := by
    rw [subnetOfRecords, Record.options, hoptions.subnetOf_append, freshOption, subnetOf_write p hp]
  have hbehind : Bare [] := fun _ h => absurd h not_mem_nil
  rw [isRewritten_in_place_iff head hbefore hbehind, hr, prefixFrom_unmap_iff hp,
    filter_append, filter_append, hoptions.filter_isSubnet]
  constructor
  · exact fun h => h.2.2
  · exact fun h => ⟨rfl, append_nil _, h⟩

theorem isRewritten_iff (extra : List Record) (hopt : (extra.filter isOPT).length ≤ 1) :
    IsRewritten p ⟨head, extra⟩ (setClientSubnet ⟨head, extra⟩ p) ↔
      p.addr.unmap = p.addr ∧ Settled extra := by
  rw [setClientSubnet]
  rcases exists_split_extra hopt with hb | ⟨before, hd, options, behind, rfl, hbe, hbh⟩
  · rw [setExtra_of_bare p hb, isRewritten_of_bare_iff head hp hb]
    exact (and_iff_left (settled_of_bare hb)).symm
  rw [settled_iff hbe hbh]
  rcases exists_split_options options with hpl | ⟨plain, option, rest, rfl, hpl⟩
  · rw [hpl.filter_isSubnet]
    by_cases hl : behind = []
    · subst hl
      rw [setExtra_of_last hbe hd p hpl, isRewritten_of_last_iff head hp hbe hd hpl]
      exact (and_iff_left (.inr ⟨rfl, rfl⟩)).symm
    · rw [setExtra_of_forgotten hbe hd p hpl hbh hl]
      have hm : opt hd options ∈ before ++ .opt hd options :: behind := by simp
      refine iff_of_false (not_isRewritten_of_forgotten head hm) ?_
      rintro ⟨-, ho | ⟨-, hl'⟩⟩
      · cases ho
      · exact hl hl'
  · rw [setExtra_of_subnet hbe hd p hpl, isRewritten_of_subnet_iff head hp hbe hbh hd hpl]
    refine and_congr_right fun _ => (or_iff_left fun hn => ?_).symm
    simp [filter_append, isSubnet] at hn

end Rewrites

theorem option_eq_iff (o : EDNS0) : (o.option == edns0SUBNET) = o.isSubnet := by
  cases o with
  | subnet option => rfl
  | other code data hc => simpa [option, isSubnet] using hc

theorem modifyOptions_of_plain {record : Record} (h : Plain record.options) :
    record.modifyOptions (·.filter fun o => !o.isSubnet) = record := by
  cases record with
  | opt hd options =>
    rw [modifyOptions]
    exact congrArg (opt hd) (Plain.filter_not_isSubnet h)
  | other data => rfl

theorem isRemoved_removeClientSubnet (message : Message α) :
    IsRemoved message (removeClientSubnet message) := by
  have hre : (removeClientSubnet message).extra =
      message.extra.map (.modifyOptions (·.filter fun o => !o.isSubnet)) := by
    rw [removeClientSubnet]
    simp only [option_eq_iff, bne]
    split_ifs with ha
    · rfl
    · refine (map_id _).symm.trans (map_congr_left fun record hr => ?_)
      refine (modifyOptions_of_plain fun option ho => ?_).symm
      by_contra hn
      refine ha (any_eq_true.mpr ⟨record, hr, ?_⟩)
      exact any_eq_true.mpr ⟨option, ho, by simpa using hn⟩
  refine ⟨?_, ?_, hre⟩
  · rw [removeClientSubnet]
    split_ifs <;> rfl
  · rw [hre]
    intro record hr option ho
    obtain ⟨old, -, rfl⟩ := mem_map.mp hr
    cases old with
    | opt header options => simpa using (mem_filter.mp ho).2
    | other data => cases ho

/-- Of a message with at most one OPT record, the rewrites do what they are meant to just if the
section is settled and the address of the subnet is not IPv4-mapped. -/
theorem rewrites_iff (message : Message α) (p : Prefix)
    (hopt : (message.extra.filter Record.isOPT).length ≤ 1) (hp : p.isValid = true) :
    IsRewritten p message (setClientSubnet message p) ∧
        IsRemoved message (removeClientSubnet message) ↔
      p.addr.unmap = p.addr ∧ Settled message.extra :=
  (and_iff_left (isRemoved_removeClientSubnet message)).trans
    (isRewritten_iff message.head hp message.extra hopt)

/-- A client with a subnet of its own, or a query with one, sends a message that carries it. -/
theorem isRewritten_prepareExchangeMessage {own net : Prefix} {message : Message α}
    (ho : (message.extra.filter isOPT).length ≤ 1) (hs : Settled message.extra)
    (hv : (net.isValid || own.isValid) = true) (hu : ∀ p ∈ [net, own], p.addr.unmap = p.addr) :
    ∃ p ∈ [net, own], IsRewritten p message (prepareExchangeMessage own net false message) := by
  have hse : ∀ {p : Prefix}, p.isValid = true → p.addr.unmap = p.addr →
      IsRewritten p message (setClientSubnet message p) := fun hp hp' =>
    (isRewritten_iff message.head hp message.extra ho).mpr ⟨hp', hs⟩
  by_cases hop : net.isValid = true
  · refine ⟨net, by simp, ?_⟩
    simpa [prepareExchangeMessage, hop] using hse hop (hu _ (by simp))
  · have how : own.isValid = true := by simpa [hop] using hv
    refine ⟨own, by simp, ?_⟩
    simpa [prepareExchangeMessage, hop, how] using hse how (hu _ (by simp))

/-- A section with another record before the OPT record and one behind it. The other option and the
records stay, and the subnet is replaced. -/
theorem rewrites_iff_example :
    let cookie : EDNS0 := .other 10 [1, 2] (by decide)
    let message : Message Unit :=
      ⟨(), [.other "a", .opt { udpSize := 1232 } [cookie, .subnet { family := 2 }], .other "tsig"]⟩
    IsRewritten (prefixFrom (.v4 0x0a000000#32) 24) message
      (setClientSubnet message (prefixFrom (.v4 0x0a000000#32) 24)) := by
  intro cookie message
  refine ((rewrites_iff message _ (by decide) (by decide)).mpr ⟨rfl, ?_⟩).1
  intro header options hm
  simp only [message, mem_cons, not_mem_nil, or_false, reduceCtorEq, false_or,
    opt.injEq] at hm
  obtain ⟨-, rfl⟩ := hm
  exact .inl rfl

/-- An OPT record without subnet and a record behind it: a second OPT record. An OPT record with two
subnets: both are kept. An IPv4-mapped address: the subnet reads back as another prefix. -/
theorem not_isRewritten :
    let p := Prefix.prefixFrom (.v4 0x0a000000#32) 24
    let mapped := Prefix.prefixFrom (.v6 0xffff0a000000#128) 120
    let forgotten : Message Unit := ⟨(), [.opt {} [], .other "tsig"]⟩
    let twice : Message Unit := ⟨(), [.opt {} [.subnet {}, .subnet {}]]⟩
    ¬ IsRewritten p forgotten (setClientSubnet forgotten p) ∧
      ¬ IsRewritten p twice (setClientSubnet twice p) ∧
      ¬ IsRewritten mapped ⟨(), []⟩ (setClientSubnet ⟨(), []⟩ mapped) := by
  intro p mapped forgotten twice
  refine ⟨?_, ?_, ?_⟩
  · have hs : (setClientSubnet forgotten p).extra =
        [.opt {} [], .other "tsig", .opt {} [freshOption p]] := rfl
    rintro ⟨-, -, ⟨header, options, ho, -⟩, -⟩
    rw [hs] at ho
    have hl := congrArg length ho
    cases hl
  · rintro ⟨-, -, ⟨header, options, ho, hon, -⟩, -⟩
    obtain ⟨rfl, rfl⟩ := opt.inj (head_eq_of_cons_eq ho)
    cases hon
  · intro h
    have ha := congrArg addr h.reads
    revert ha
    decide +kernel

end SingBox.DNS.ClientSubnet
