import SingBox.Net.Addr
import SingBox.Foundation.Run
import SingBox.Foundation.Cycle

/-!
# The FakeIP store

`Store` hands out addresses of two configured ranges to domains and remembers which domain has
which address. A cursor for each family goes through its range and wraps around before the
broadcast address; the records live in `MemoryStorage`.
-/

namespace SingBox.DNS.FakeIP

open SingBox.Net Foundation Addr Function BitVec

/-! ### Ranges -/

/-- `Addr.As16`: an IPv4 address is mapped. -/
def as16 : Addr → BitVec 128
  | .invalid => 0#128
  | .v4 a => 0xffff#96 ++ a
  | .v6 a => a

/-- The loop of `broadcastAddress` from bit `i` on, for `n` rounds. Bit `i` counts from the front:
`raw[i/8] |= 1 << (7 - i%8)`. -/
def setBitsFrom (raw : BitVec 128) (i : ℕ) : ℕ → BitVec 128
  | 0 => raw
  | n + 1 => setBitsFrom (raw ||| 1#128 <<< (127 - i)) (i + 1) n

def broadcastAddress (p : Prefix) : Addr :=
  let addr := p.addr
  let bits := if addr.is4 then p.bits + 96 else p.bits
  let raw := setBitsFrom (as16 addr) bits (128 - bits)
  if addr.is4 then .v4 (raw.setWidth 32) else .v6 raw

/-- The address that `Create` hands out after `current`. -/
def nextAddress (range : Prefix) (last current : Addr) : Addr :=
  let nextAddress := current.next
  if nextAddress = last ∨ range.contains nextAddress = false then range.addr.next.next
  else nextAddress

/-! ### The storage -/

structure MemoryStorage where
  addressCache : Addr → Option String := fun _ => none
  domainCache4 : String → Option Addr := fun _ => none
  domainCache6 : String → Option Addr := fun _ => none

namespace MemoryStorage

/-- `MemoryStorage.FakeIPStore`. -/
def fakeIPStore (s : MemoryStorage) (address : Addr) (domain : String) : MemoryStorage :=
  let s := match s.addressCache address with
    | none => s
    | some oldDomain =>
      if address.is4 then { s with domainCache4 := Function.update s.domainCache4 oldDomain none }
      else { s with domainCache6 := Function.update s.domainCache6 oldDomain none }
  let s := { s with addressCache := Function.update s.addressCache address (some domain) }
  if address.is4 then
    { s with domainCache4 := Function.update s.domainCache4 domain (some address) }
  else { s with domainCache6 := Function.update s.domainCache6 domain (some address) }

/-- `MemoryStorage.FakeIPLoad`. -/
def fakeIPLoad (s : MemoryStorage) (address : Addr) : Option String := s.addressCache address

/-- `MemoryStorage.FakeIPLoadDomain`. -/
def fakeIPLoadDomain (s : MemoryStorage) (domain : String) (isIPv6 : Bool) : Option Addr :=
  if !isIPv6 then s.domainCache4 domain else s.domainCache6 domain

/-- `MemoryStorage.FakeIPReset`. -/
def fakeIPReset (_ : MemoryStorage) : MemoryStorage := {}

end MemoryStorage

/-! ### The store -/

/-- `Store`, with a `MemoryStorage`. -/
structure Store where
  inet4Range : Prefix
  inet6Range : Prefix
  inet4Last : Addr := .invalid
  inet6Last : Addr := .invalid
  storage : MemoryStorage := {}
  inet4Current : Addr := .invalid
  inet6Current : Addr := .invalid

def newStore (inet4Range inet6Range : Prefix) : Store where
  inet4Range := inet4Range
  inet6Range := inet6Range
  inet4Last := if inet4Range.isValid then broadcastAddress inet4Range else .invalid
  inet6Last := if inet6Range.isValid then broadcastAddress inet6Range else .invalid

namespace Store

/-- `Store.Start`: a `MemoryStorage` has no saved metadata. -/
def start (s : Store) : Store :=
  { s with
    inet4Current := if s.inet4Range.isValid then s.inet4Range.addr.next else s.inet4Current
    inet6Current := if s.inet6Range.isValid then s.inet6Range.addr.next else s.inet6Current
    storage := s.storage.fakeIPReset }

/-- The address that `Create` hands out to a domain without a record. -/
def allocate (s : Store) (isIPv6 : Bool) : Except String Addr :=
  if !isIPv6 then
    if !s.inet4Current.isValid then .error "missing IPv4 fakeip address range"
    else .ok (nextAddress s.inet4Range s.inet4Last s.inet4Current)
  else
    if !s.inet6Current.isValid then .error "missing IPv6 fakeip address range"
    else .ok (nextAddress s.inet6Range s.inet6Last s.inet6Current)

/-- The cursor of a family moves to an address. -/
def setCurrent (s : Store) (isIPv6 : Bool) (address : Addr) : Store :=
  if !isIPv6 then { s with inet4Current := address } else { s with inet6Current := address }

/-- `Store.Create`. -/
def create (s : Store) (domain : String) (isIPv6 : Bool) : Except String Addr × Store :=
  match s.storage.fakeIPLoadDomain domain isIPv6 with
  | some address => (.ok address, s)
  | none =>
    match s.allocate isIPv6 with
    | .error err => (.error err, s)
    | .ok address =>
      let s := s.setCurrent isIPv6 address
      (.ok address, { s with storage := s.storage.fakeIPStore address domain })

/-- `Store.Lookup`. -/
def lookup (s : Store) (address : Addr) : Option String := s.storage.fakeIPLoad address

/-- `Store.Reset`: the cursors stay where they are. -/
def reset (s : Store) : Store := { s with storage := s.storage.fakeIPReset }

end Store

/-- The operations of a store. -/
inductive Op where
  | create (domain : String) (isIPv6 : Bool)
  | lookup (address : Addr)
  | reset
deriving DecidableEq

/-- The store after an operation. -/
def step (s : Store) : Op → Store
  | .create domain isIPv6 => (s.create domain isIPv6).2
  | .lookup _ => s
  | .reset => s.reset

/-- The record that an operation writes: the address it hands out to a domain without one. -/
def assigned (s : Store) : Op → Option (Addr × String)
  | .create domain isIPv6 =>
    match s.storage.fakeIPLoadDomain domain isIPv6, s.allocate isIPv6 with
    | none, .ok address => some (address, domain)
    | _, _ => none
  | .lookup _ => none
  | .reset => none

/-- The store after the first `n` operations, started from empty. -/
def exec (inet4Range inet6Range : Prefix) (ops : ℕ → Op) (n : ℕ) : Store :=
  run step (newStore inet4Range inet6Range).start ops n

/-! ### Addresses as numbers -/

/-- The width of the addresses of a family. -/
def width (isIPv6 : Bool) : ℕ := if isIPv6 then 128 else 32

/-- The address of a family that a number denotes; numbers beyond the family give the zero value, as
`Addr.Next` does at the end. -/
def addrOfNat (isIPv6 : Bool) (n : ℕ) : Addr :=
  if n < 2 ^ width isIPv6 then
    if isIPv6 then .v6 (BitVec.ofNat 128 n) else .v4 (BitVec.ofNat 32 n)
  else .invalid

variable {a : Addr}

theorem is4_next (h : a.next.isValid) : a.isValid = true ∧ a.next.is4 = a.is4 := by
  cases a with
  | invalid => simp [next, isValid] at h
  | v4 a => cases hs : succ? a <;> simp_all [next, isValid, is4]
  | v6 a => cases hs : succ? a <;> simp_all [next, isValid, is4]

theorem isValid_of_contains {p : Prefix} (h : p.contains a) : a.isValid := by
  cases a with
  | invalid => cases hp : p.addr <;> simp [Prefix.contains, hp] at h
  | v4 _ => rfl
  | v6 _ => rfl

theorem nextAddress_cases (range : Prefix) (last current : Addr) :
    nextAddress range last current = range.addr.next.next ∨
      nextAddress range last current = current.next ∧ range.contains current.next = true := by
  unfold nextAddress
  by_cases hw : current.next = last ∨ range.contains current.next = false
  · exact Or.inl (if_pos hw)
  · refine Or.inr ⟨if_neg hw, ?_⟩
    simpa using (not_or.mp hw).2

variable {isIPv6 : Bool}

/-- A valid next address is of the family of the cursor and of the range. -/
theorem nextAddress_is4 {range : Prefix} {last current address : Addr}
    (h : nextAddress range last current = address) (hv : address.isValid)
    (hc : current.is4 = !isIPv6) (hrange : range.addr.is4 = !isIPv6) : address.is4 = !isIPv6 := by
  subst h
  rcases nextAddress_cases range last current with hf | ⟨hn, -⟩
  · rw [hf] at hv ⊢
    have hs := is4_next hv
    rw [hs.2, (is4_next hs.1).2, hrange]
  · rw [hn] at hv ⊢
    rw [(is4_next hv).2, hc]

open BitVec

open Nat

section AddrOfNat

variable {isIPv6 : Bool} {m n : ℕ}

theorem addrOfNat_isValid : (addrOfNat isIPv6 n).isValid = true ↔ n < 2 ^ width isIPv6 := by
  unfold addrOfNat
  split_ifs with h <;> cases isIPv6 <;> simp_all [isValid]

theorem toNat_addrOfNat (h : n < 2 ^ width isIPv6) : (addrOfNat isIPv6 n).toNat = n := by
  unfold addrOfNat
  cases isIPv6 with
  | false =>
    rw [if_pos h]
    exact (toNat_ofNat n _).trans (mod_eq_of_lt h)
  | true =>
    rw [if_pos h]
    exact (toNat_ofNat n _).trans (mod_eq_of_lt h)

theorem addrOfNat_inj (hm : m < 2 ^ width isIPv6) (hn : n < 2 ^ width isIPv6) :
    addrOfNat isIPv6 m = addrOfNat isIPv6 n ↔ m = n := by
  refine ⟨fun h => ?_, fun h => by rw [h]⟩
  rw [← toNat_addrOfNat hm, h, toNat_addrOfNat hn]

theorem addrOfNat_toNat (h : a.isValid) (hfamily : a.is4 = !isIPv6) :
    addrOfNat isIPv6 a.toNat = a ∧ a.toNat < 2 ^ width isIPv6 := by
  cases a with
  | invalid => simp [isValid] at h
  | v4 a =>
    obtain rfl : isIPv6 = false := by simpa [is4] using hfamily.symm
    have ha : a.toNat < 2 ^ width false := a.isLt
    exact ⟨by simp [addrOfNat, Addr.toNat, ha], ha⟩
  | v6 a =>
    obtain rfl : isIPv6 = true := by simpa [is4] using hfamily.symm
    have ha : a.toNat < 2 ^ width true := a.isLt
    exact ⟨by simp [addrOfNat, Addr.toNat, ha], ha⟩

private theorem succ?_ofNat {w : ℕ} (hw : 0 < w) (hn : n < 2 ^ w) : succ? (BitVec.ofNat w n) =
      if n + 1 < 2 ^ w then some (BitVec.ofNat w (n + 1)) else none := by
  have ht : (BitVec.ofNat w n).toNat = n := (BitVec.toNat_ofNat n w).trans (mod_eq_of_lt hn)
  cases h : succ? (BitVec.ofNat w n) with
  | none =>
    rw [succ?_eq_none_iff hw, ht] at h
    rw [if_neg (by omega)]
  | some b =>
    have hb := toNat_of_succ?_eq_some hw h
    have hlt := b.isLt
    rw [ht] at hb
    rw [if_pos (by omega), ← hb, ofNat_toNat, setWidth_eq]

theorem addrOfNat_v4 (h : n < 2 ^ 32) : addrOfNat false n = .v4 (BitVec.ofNat 32 n) := if_pos h

theorem addrOfNat_v6 (h : n < 2 ^ 128) : addrOfNat true n = .v6 (BitVec.ofNat 128 n) := if_pos h

theorem next_addrOfNat (isIPv6 : Bool) (n : ℕ) :
    (addrOfNat isIPv6 n).next = addrOfNat isIPv6 (n + 1) := by
  by_cases hn : n < 2 ^ width isIPv6
  · cases isIPv6 with
    | false =>
      have hn : n < 2 ^ 32 := hn
      rw [addrOfNat_v4 hn, next, succ?_ofNat (by decide) hn]
      by_cases hl : n + 1 < 2 ^ 32
      · rw [if_pos hl, addrOfNat_v4 hl]
      · rw [if_neg hl]
        exact (if_neg hl).symm
    | true =>
      have hn : n < 2 ^ 128 := hn
      rw [addrOfNat_v6 hn, next, succ?_ofNat (by decide) hn]
      by_cases hl : n + 1 < 2 ^ 128
      · rw [if_pos hl, addrOfNat_v6 hl]
      · rw [if_neg hl]
        exact (if_neg hl).symm
  · rw [addrOfNat, if_neg hn, addrOfNat, if_neg (by omega)]
    rfl

end AddrOfNat

/-! ### The end of a range -/

/-- The loop of `broadcastAddress` sets the bits behind the prefix. -/
theorem getLsbD_setBitsFrom (raw : BitVec 128) (i n k : ℕ) (h : i + n ≤ 128) :
    (setBitsFrom raw i n).getLsbD k =
      (raw.getLsbD k || decide (128 - (i + n) ≤ k ∧ k < 128 - i)) := by
  induction n generalizing raw i with
  | zero =>
    simp [setBitsFrom]
  | succ n ih =>
    rw [setBitsFrom, ih _ _ (by omega), getLsbD_or, Bool.or_assoc]
    congr 1
    rw [getLsbD_shiftLeft, getLsbD_one, Bool.eq_iff_iff]
    simp only [Bool.or_eq_true, Bool.and_eq_true, decide_eq_true_eq, Bool.not_eq_true',
      decide_eq_false_iff_not]
    omega

/-- A word whose low `h` bits have been set. -/
theorem toNat_of_getLsbD {w h : ℕ} {a b : BitVec w} (hw : h ≤ w)
    (hb : ∀ k < w, b.getLsbD k = (a.getLsbD k || decide (k < h))) :
    b.toNat = a.toNat / 2 ^ h * 2 ^ h + (2 ^ h - 1) := by
  have hpos : 0 < 2 ^ h := Nat.two_pow_pos h
  refine eq_of_testBit_eq fun k => ?_
  rw [mul_comm, testBit_two_pow_mul_add _ (by omega), testBit_toNat]
  by_cases hk : k < w
  · rw [hb k hk]
    by_cases hkh : k < h
    · simp [hkh, testBit_two_pow_sub_one]
    · rw [if_neg hkh, testBit_div_two_pow]
      simp [hkh, testBit_toNat, show k - h + h = k by omega]
  · rw [if_neg (by omega), testBit_div_two_pow, show k - h + h = k by omega,
      testBit_toNat, getLsbD_of_ge _ _ (by omega), getLsbD_of_ge _ _ (by omega)]

/-- A configured range of a family: its first address and its prefix length, as numbers. -/
structure IsRange (isIPv6 : Bool) (p : Prefix) (base k : ℕ) : Prop where
  valid : p.isValid = true
  addr : p.addr = addrOfNat isIPv6 base
  base_lt : base < 2 ^ width isIPv6
  bits : p.bits + k = width isIPv6

/-- The number of the last address of the block of `2 ^ k` addresses that holds `base`. -/
def lastOf (base k : ℕ) : ℕ := base / 2 ^ k * 2 ^ k + (2 ^ k - 1)

theorem div_eq_of_le_lastOf {base k n : ℕ} (h : base ≤ n) (h' : n ≤ lastOf base k) :
    n / 2 ^ k = base / 2 ^ k := by
  have hpos := Nat.two_pow_pos k
  refine le_antisymm ?_ (Nat.div_le_div_right h)
  rw [← Nat.lt_succ_iff, Nat.div_lt_iff_lt_mul hpos, Nat.succ_mul]
  unfold lastOf at h'
  omega

namespace IsRange

variable {isIPv6 : Bool} {p : Prefix} {base k n : ℕ}

theorem exists_of_isValid (hv : p.isValid) (hfamily : p.addr.is4 = !isIPv6) :
    ∃ base k, IsRange isIPv6 p base k := by
  obtain ⟨ha, hlt⟩ := addrOfNat_toNat (Prefix.addr_isValid hv) hfamily
  have hb := p.bits_le
  have hl : p.addr.bitLen = width isIPv6 := by
    have hv' := Prefix.addr_isValid hv
    cases hp : p.addr <;> cases isIPv6 <;> simp_all [bitLen, width, is4, isValid]
  exact ⟨p.addr.toNat, width isIPv6 - p.bits, hv, ha.symm, hlt, by omega⟩

variable (h : IsRange isIPv6 p base k)

include h

theorem contains_addrOfNat (hn : n < 2 ^ width isIPv6) :
    p.contains (addrOfNat isIPv6 n) = true ↔ n / 2 ^ k = base / 2 ^ k := by
  have hb := h.addr
  have hlt := h.base_lt
  have hbi := h.bits
  cases isIPv6 with
  | false =>
    have hk : 32 - p.bits = k := Nat.sub_eq_of_eq_add' hbi.symm
    have hn32 : n < 2 ^ 32 := hn
    rw [addrOfNat_v4 hlt] at hb
    rw [addrOfNat_v4 hn32, Prefix.contains_v4_iff h.valid hb, hk, toNat_ofNat,
      toNat_ofNat, mod_eq_of_lt hn32, mod_eq_of_lt (b := 2 ^ 32) hlt]
  | true =>
    have hk : 128 - p.bits = k := Nat.sub_eq_of_eq_add' hbi.symm
    have hn128 : n < 2 ^ 128 := hn
    rw [addrOfNat_v6 hlt] at hb
    rw [addrOfNat_v6 hn128, Prefix.contains_v6_iff h.valid hb, hk, toNat_ofNat,
      toNat_ofNat, mod_eq_of_lt hn128, mod_eq_of_lt (b := 2 ^ 128) hlt]

theorem broadcastAddress_eq :
    broadcastAddress p = addrOfNat isIPv6 (lastOf base k) ∧ lastOf base k < 2 ^ width isIPv6 := by
  have hb := h.addr
  have hlt := h.base_lt
  have hbi := h.bits
  cases isIPv6 with
  | false =>
    have hbi : p.bits + k = 32 := hbi
    rw [addrOfNat_v4 hlt] at hb
    have hw : ((setBitsFrom (as16 p.addr) (p.bits + 96) (128 - (p.bits + 96))).setWidth
        32).toNat = lastOf base k := by
      rw [toNat_of_getLsbD (a := BitVec.ofNat 32 base) (h := k) (by omega), BitVec.toNat_ofNat,
        mod_eq_of_lt (b := 2 ^ 32) hlt, lastOf]
      intro i hi
      rw [getLsbD_setWidth, getLsbD_setBitsFrom _ _ _ _ (by omega), hb, as16,
        getLsbD_append, if_pos hi, decide_eq_true hi, Bool.true_and]
      congr 2
      rw [eq_iff_iff]
      omega
    have hl : lastOf base k < 2 ^ 32 := hw ▸ isLt _
    refine ⟨?_, hl⟩
    rw [addrOfNat_v4 hl, ← hw, ofNat_toNat, setWidth_eq]
    simp [broadcastAddress, hb, is4]
  | true =>
    have hbi : p.bits + k = 128 := hbi
    rw [addrOfNat_v6 hlt] at hb
    have hw : (setBitsFrom (as16 p.addr) p.bits (128 - p.bits)).toNat = lastOf base k := by
      rw [toNat_of_getLsbD (a := BitVec.ofNat 128 base) (h := k) (by omega), BitVec.toNat_ofNat,
        mod_eq_of_lt (b := 2 ^ 128) hlt, lastOf]
      intro i hi
      rw [getLsbD_setBitsFrom _ _ _ _ (by omega), hb, as16]
      congr 2
      rw [eq_iff_iff]
      omega
    have hl : lastOf base k < 2 ^ 128 := hw ▸ isLt _
    refine ⟨?_, hl⟩
    rw [addrOfNat_v6 hl, ← hw, ofNat_toNat, setWidth_eq]
    simp [broadcastAddress, hb, is4]

theorem nextAddress_eq (hn : base + 1 ≤ n) (hn' : n < lastOf base k) :
    nextAddress p (broadcastAddress p) (addrOfNat isIPv6 n) =
      addrOfNat isIPv6 (cyclicSucc (base + 2) (lastOf base k) n) := by
  obtain ⟨hl, hlt⟩ := h.broadcastAddress_eq
  have hf : p.addr.next.next = addrOfNat isIPv6 (base + 2) := by
    rw [h.addr, next_addrOfNat, next_addrOfNat]
  simp only [nextAddress, next_addrOfNat, hl, hf, cyclicSucc]
  by_cases hw : n + 1 = lastOf base k
  · rw [if_pos (Or.inl (by rw [hw])), if_neg (by omega)]
  · have hc : p.contains (addrOfNat isIPv6 (n + 1)) = true :=
      (h.contains_addrOfNat (by omega)).mpr (div_eq_of_le_lastOf (by omega) (by omega))
    have hne : addrOfNat isIPv6 (n + 1) ≠ addrOfNat isIPv6 (lastOf base k) :=
      (addrOfNat_inj (by omega) hlt).not.mpr hw
    rw [if_neg (by simp [hc, hne]), if_pos (by omega)]

end IsRange

/-! ### The storage keeps its maps inverse -/

namespace MemoryStorage

theorem addressCache_fakeIPStore (s : MemoryStorage) (address : Addr) (domain : String) :
    (s.fakeIPStore address domain).addressCache = update s.addressCache address (some domain) := by
  unfold fakeIPStore
  cases s.addressCache address <;> cases address.is4 <;> rfl

/-- Writing a record touches the domain map of the address's family only: the old domain of the
address loses its entry, and the new one gets it. -/
theorem fakeIPLoadDomain_fakeIPStore (s : MemoryStorage) (address : Addr) (domain e : String)
    (isIPv6 : Bool) : (s.fakeIPStore address domain).fakeIPLoadDomain e isIPv6 =
      if address.is4 = !isIPv6 then
        if e = domain then some address
        else if s.addressCache address = some e then none else s.fakeIPLoadDomain e isIPv6
      else s.fakeIPLoadDomain e isIPv6 := by
  unfold fakeIPStore fakeIPLoadDomain
  cases ho : s.addressCache address with
  | none =>
    cases address.is4 <;> cases isIPv6 <;> by_cases he : e = domain <;> simp [he]
  | some old =>
    cases address.is4 <;> cases isIPv6 <;> by_cases he : e = domain <;>
      simp [update_apply, he, eq_comm]

/-- The address map inverts the domain maps, and a domain map holds addresses of its family. -/
def Inverse (s : MemoryStorage) : Prop :=
  ∀ isIPv6 domain address, s.fakeIPLoadDomain domain isIPv6 = some address →
    s.addressCache address = some domain ∧ address.is4 = !isIPv6

/-- The domain maps invert the address map. -/
def Current (s : MemoryStorage) : Prop :=
  ∀ address domain, s.addressCache address = some domain →
    s.fakeIPLoadDomain domain (!address.is4) = some address

theorem inverse_empty : Inverse {} := by
  intro isIPv6 domain address h
  simp [fakeIPLoadDomain] at h

theorem current_empty : Current {} := by
  intro address domain h
  cases h

variable {s : MemoryStorage}

theorem Inverse.fakeIPStore (h : s.Inverse) (address : Addr) (domain : String) :
    (s.fakeIPStore address domain).Inverse := by
  intro isIPv6 e x hx
  rw [fakeIPLoadDomain_fakeIPStore] at hx
  rw [addressCache_fakeIPStore, update_apply]
  by_cases hfamily : address.is4 = !isIPv6
  · rw [if_pos hfamily] at hx
    by_cases he : e = domain
    · rw [if_pos he] at hx
      obtain rfl := Option.some.inj hx
      exact ⟨by rw [if_pos rfl, he], hfamily⟩
    · rw [if_neg he] at hx
      split_ifs at hx with ho
      obtain ⟨hi, hx4⟩ := h isIPv6 e x hx
      -- The address was not the one that is reassigned: its old domain has just lost its entry.
      have hne : x ≠ address := by
        rintro rfl
        exact ho hi
      exact ⟨by rw [if_neg hne, hi], hx4⟩
  · rw [if_neg hfamily] at hx
    obtain ⟨hi, hx4⟩ := h isIPv6 e x hx
    have hne : x ≠ address := by
      rintro rfl
      exact hfamily hx4
    exact ⟨by rw [if_neg hne, hi], hx4⟩

theorem Current.fakeIPStore (h : s.Current) {address : Addr} {domain : String}
    (hn : s.fakeIPLoadDomain domain (!address.is4) = none) :
    (s.fakeIPStore address domain).Current := by
  intro x e hx
  rw [addressCache_fakeIPStore, update_apply] at hx
  rw [fakeIPLoadDomain_fakeIPStore]
  by_cases hxa : x = address
  · subst hxa
    rw [if_pos rfl] at hx
    obtain rfl := Option.some.inj hx
    simp
  · rw [if_neg hxa] at hx
    have hl := h x e hx
    by_cases hfamily : address.is4 = x.is4
    · have hd : e ≠ domain := by
        rintro rfl
        rw [hfamily, hl] at hn
        cases hn
      have ho : s.addressCache address ≠ some e := by
        intro ho
        have hl' := h address e ho
        rw [hfamily, hl] at hl'
        exact hxa (Option.some.inj hl')
      simp [hfamily, hd, ho, hl]
    · simp [hfamily, hl]

end MemoryStorage

/-! ### The families of a store -/

namespace Store

/-- The cursor of a family. -/
def current (s : Store) (isIPv6 : Bool) : Addr := if isIPv6 then s.inet6Current else s.inet4Current

/-- The range of a family. -/
def range (s : Store) (isIPv6 : Bool) : Prefix := if isIPv6 then s.inet6Range else s.inet4Range

/-- The broadcast address of a family. -/
def last (s : Store) (isIPv6 : Bool) : Addr := if isIPv6 then s.inet6Last else s.inet4Last

theorem allocate_eq_ok_iff {s : Store} {address : Addr} :
    s.allocate isIPv6 = .ok address ↔ (s.current isIPv6).isValid = true ∧
      nextAddress (s.range isIPv6) (s.last isIPv6) (s.current isIPv6) = address := by
  cases isIPv6 with
  | false =>
    cases hv : s.inet4Current.isValid <;> simp [allocate, current, range, last, hv]
  | true =>
    cases hv : s.inet6Current.isValid <;> simp [allocate, current, range, last, hv]

end Store

variable {s : Store} {domain : String} {address : Addr}

variable {op : Op}

theorem assigned_eq_some_iff : assigned s op = some (address, domain) ↔
    ∃ isIPv6, op = .create domain isIPv6 ∧
      s.storage.fakeIPLoadDomain domain isIPv6 = none ∧ s.allocate isIPv6 = .ok address := by
  constructor
  · intro h
    cases op with
    | create d isIPv6 =>
      cases hl : s.storage.fakeIPLoadDomain d isIPv6 <;>
        cases ha : s.allocate isIPv6 <;> simp [assigned, hl, ha] at h
      obtain ⟨rfl, rfl⟩ := h
      exact ⟨isIPv6, rfl, hl, ha⟩
    | lookup _ => cases h
    | reset => cases h
  · rintro ⟨isIPv6, rfl, hl, ha⟩
    simp [assigned, hl, ha]

open Store

theorem step_of_assigned (hl : s.storage.fakeIPLoadDomain domain isIPv6 = none)
    (ha : s.allocate isIPv6 = .ok address) : step s (.create domain isIPv6) =
      { s.setCurrent isIPv6 address with
      storage := s.storage.fakeIPStore address domain } := by
  cases isIPv6 <;> simp [step, create, hl, ha, setCurrent]

theorem step_of_assigned_eq_none (h : assigned s op = none) :
    step s op = if op = .reset then s.reset else s := by
  cases op with
  | create d isIPv6 =>
    cases hl : s.storage.fakeIPLoadDomain d isIPv6 <;> cases ha : s.allocate isIPv6 <;>
      simp_all [assigned, step, create]
  | lookup _ => rfl
  | reset => rfl

theorem step_range (s : Store) (op : Op) (isIPv6 : Bool) :
    (step s op).range isIPv6 = s.range isIPv6 ∧ (step s op).last isIPv6 = s.last isIPv6 := by
  cases ha : assigned s op with
  | none =>
    rw [step_of_assigned_eq_none ha]
    split_ifs <;> exact ⟨rfl, rfl⟩
  | some record =>
    obtain ⟨family, rfl, hl, hal⟩ := assigned_eq_some_iff.mp ha
    rw [step_of_assigned hl hal]
    cases family <;> exact ⟨rfl, rfl⟩

theorem current_step_of_assigned (hl : s.storage.fakeIPLoadDomain domain isIPv6 = none)
    (ha : s.allocate isIPv6 = .ok address) (family : Bool) :
    (step s (.create domain isIPv6)).current family =
      if family = isIPv6 then address else s.current family := by
  rw [step_of_assigned hl ha]
  cases family <;> cases isIPv6 <;> rfl

theorem current_step_of_assigned_eq_none (h : assigned s op = none) (family : Bool) :
    (step s op).current family = s.current family := by
  rw [step_of_assigned_eq_none h]
  split_ifs <;> cases family <;> rfl

/-! ### Runs -/

open MemoryStorage

section Runs

variable {inet4Range inet6Range : Prefix} {ops : ℕ → Op}

/-- The configured range of a family. -/
def rangeOf (inet4Range inet6Range : Prefix) (isIPv6 : Bool) : Prefix :=
  if isIPv6 then inet6Range else inet4Range

/-- A property of the storage that `FakeIPStore` preserves and that holds of the empty storage holds
along every run. -/
theorem storage_invariant {P : MemoryStorage → Prop} (he : P {})
    (hs : ∀ n domain isIPv6 address, let s := exec inet4Range inet6Range ops n
      ops n = .create domain isIPv6 → s.storage.fakeIPLoadDomain domain isIPv6 = none →
      s.allocate isIPv6 = .ok address → P s.storage → P (s.storage.fakeIPStore address domain))
    (n : ℕ) : P (exec inet4Range inet6Range ops n).storage := by
  induction n with
  | zero => exact he
  | succ n ih =>
    rw [exec, run_succ]
    change P (step (exec inet4Range inet6Range ops n) (ops n)).storage
    cases hasgn : assigned (exec inet4Range inet6Range ops n) (ops n) with
    | none =>
      rw [step_of_assigned_eq_none hasgn]
      split_ifs
      · exact he
      · exact ih
    | some record =>
      obtain ⟨isIPv6, hop, hl, ha⟩ := assigned_eq_some_iff.mp hasgn
      rw [hop, step_of_assigned hl ha]
      exact hs n _ isIPv6 _ hop hl ha ih

theorem exec_inverse (n : ℕ) : (exec inet4Range inet6Range ops n).storage.Inverse :=
  storage_invariant inverse_empty
    (fun _ domain _ address _ _ _ h => h.fakeIPStore address domain) n

theorem exec_range (n : ℕ) : ∀ isIPv6,
    (exec inet4Range inet6Range ops n).range isIPv6 = rangeOf inet4Range inet6Range isIPv6 ∧
      ((rangeOf inet4Range inet6Range isIPv6).isValid = true →
        (exec inet4Range inet6Range ops n).last isIPv6 =
          broadcastAddress (rangeOf inet4Range inet6Range isIPv6)) := by
  induction n with
  | zero =>
    intro isIPv6
    refine ⟨by cases isIPv6 <;> rfl, fun hv => ?_⟩
    cases isIPv6 <;> exact if_pos hv
  | succ n ih =>
    intro isIPv6
    have hk := step_range (exec inet4Range inet6Range ops n) (ops n) isIPv6
    rw [exec, run_succ]
    change (step (exec inet4Range inet6Range ops n) (ops n)).range isIPv6 = _ ∧
      (_ → (step (exec inet4Range inet6Range ops n) (ops n)).last isIPv6 = _)
    rw [hk.1, hk.2]
    exact ih isIPv6

theorem exec_succ (n : ℕ) : exec inet4Range inet6Range ops (n + 1) =
    step (exec inet4Range inet6Range ops n) (ops n) := rfl

theorem exec_zero_current (isIPv6 : Bool) : (exec inet4Range inet6Range ops 0).current isIPv6 =
    if (rangeOf inet4Range inet6Range isIPv6).isValid then
      (rangeOf inet4Range inet6Range isIPv6).addr.next else .invalid := by
  cases isIPv6 <;> rfl

variable {n : ℕ}

/-- The case rule of a cursor: it stays, or goes to an address of its family. -/
theorem exec_succ_current {P : Addr → Prop}
    (stays : P ((exec inet4Range inet6Range ops n).current isIPv6))
    (moves : ∀ address, (exec inet4Range inet6Range ops n).allocate isIPv6 = .ok address →
      P address) : P ((exec inet4Range inet6Range ops (n + 1)).current isIPv6) := by
  rw [exec_succ]
  cases hasgn : assigned (exec inet4Range inet6Range ops n) (ops n) with
  | none =>
    rw [current_step_of_assigned_eq_none hasgn]
    exact stays
  | some record =>
    obtain ⟨family, hop, hl, ha⟩ := assigned_eq_some_iff.mp hasgn
    rw [hop, current_step_of_assigned hl ha]
    by_cases hs : isIPv6 = family
    · subst hs
      rw [if_pos rfl]
      exact moves _ ha
    · rw [if_neg hs]
      exact stays

/-- An address that is handed out is where the cursor of the family stands afterwards. -/
theorem assigned_eq_current (hop : ops n = .create domain isIPv6)
    (h : assigned (exec inet4Range inet6Range ops n) (ops n) = some (address, domain)) :
    (exec inet4Range inet6Range ops (n + 1)).current isIPv6 = address := by
  obtain ⟨family, hcr, hl, ha⟩ := assigned_eq_some_iff.mp h
  obtain rfl : family = isIPv6 := by
    rw [hop] at hcr
    exact (Op.create.inj hcr).2.symm
  rw [exec_succ, hcr, current_step_of_assigned hl ha, if_pos rfl]

section Cursor

variable {isIPv6 : Bool} {base k : ℕ}
  (hrange : IsRange isIPv6 (rangeOf inet4Range inet6Range isIPv6) base k)

include hrange

/-- What is handed out when the cursor is at `m`. -/
theorem allocate_eq_addrOfNat {n m : ℕ} (hm : base + 1 ≤ m) (hm' : m < lastOf base k)
    (hc : (exec inet4Range inet6Range ops n).current isIPv6 = addrOfNat isIPv6 m)
    (h : (exec inet4Range inet6Range ops n).allocate isIPv6 = .ok address) :
    address = addrOfNat isIPv6 (cyclicSucc (base + 2) (lastOf base k) m) := by
  obtain ⟨hk, hl⟩ : (exec inet4Range inet6Range ops n).range isIPv6 = _ ∧ _ := exec_range n isIPv6
  obtain ⟨-, hn⟩ := allocate_eq_ok_iff.mp h
  rw [← hn, hk, hl hrange.valid, hc, hrange.nextAddress_eq hm hm']

/-- The cursor of a range with usable addresses stays before the broadcast address. -/
theorem exec_cursor (hroom : base + 2 < lastOf base k) (n : ℕ) :
    ∃ m, base + 1 ≤ m ∧ m < lastOf base k ∧ (exec inet4Range inet6Range ops n).current isIPv6 =
      addrOfNat isIPv6 m := by
  induction n with
  | zero =>
    refine ⟨base + 1, le_rfl, by omega, ?_⟩
    rw [← next_addrOfNat, ← hrange.addr]
    cases isIPv6 <;> exact if_pos hrange.valid
  | succ n ih =>
    obtain ⟨m, hm, hm', hc⟩ := ih
    refine exec_succ_current (P := fun address => ∃ m, base + 1 ≤ m ∧ m < lastOf base k ∧
      address = addrOfNat isIPv6 m) ⟨m, hm, hm', hc⟩ fun address ha => ?_
    refine ⟨cyclicSucc (base + 2) (lastOf base k) m, ?_, cyclicSucc_lt hroom m, ?_⟩
    · exact (le_succ _).trans (le_cyclicSucc (by omega))
    · exact allocate_eq_addrOfNat hrange hm hm' hc ha

/-- An address comes back only after every other usable address of the range. -/
theorem exists_assigned_between (hroom : base + 2 < lastOf base k) {i j : ℕ} {address x : Addr}
    {domain d' : String} (hij : i < j) (hi : ops i = .create domain isIPv6)
    (hi' : assigned (exec inet4Range inet6Range ops i) (ops i) = some (address, domain))
    (hj : ops j = .create d' isIPv6)
    (hj' : assigned (exec inet4Range inet6Range ops j) (ops j) = some (address, d'))
    (hx : x = addrOfNat isIPv6 x.toNat) (hlo : base + 2 ≤ x.toNat)
    (hhi : x.toNat < lastOf base k) (hne : x ≠ address) : ∃ t e, i < t ∧ t < j ∧
      assigned (exec inet4Range inet6Range ops t) (ops t) = some (x, e) := by
  have hlt := hrange.broadcastAddress_eq.2
  -- The position of the cursor, and the times at which it moves.
  let position (n : ℕ) := ((exec inet4Range inet6Range ops n).current isIPv6).toNat
  let moves (n : ℕ) := ∃ e a, ops n = .create e isIPv6 ∧
    assigned (exec inet4Range inet6Range ops n) (ops n) = some (a, e)
  have hp (n : ℕ) : base + 1 ≤ position n ∧ position n < lastOf base k ∧
      (exec inet4Range inet6Range ops n).current isIPv6 = addrOfNat isIPv6 (position n) := by
    obtain ⟨m, hm, hm', hc⟩ : ∃ m, base + 1 ≤ m ∧ m < lastOf base k ∧
        (exec inet4Range inet6Range ops n).current isIPv6 = _ := exec_cursor hrange hroom n
    have hpos : position n = m := by
      simp only [position, hc]
      exact toNat_addrOfNat (by omega)
    rw [hpos]
    exact ⟨hm, hm', hc⟩
  have hmo (n : ℕ) (h : moves n) :
      position (n + 1) = cyclicSucc (base + 2) (lastOf base k) (position n) := by
    obtain ⟨e, a, hop, ha⟩ := h
    obtain ⟨family, hcr, -, hal⟩ := assigned_eq_some_iff.mp ha
    obtain rfl : family = isIPv6 := by
      rw [hop] at hcr
      exact (Op.create.inj hcr).2.symm
    have hcy := cyclicSucc_lt hroom (position n)
    obtain ⟨hm, hm', hc⟩ := hp n
    rw [← toNat_addrOfNat (hcy.trans hlt), ← allocate_eq_addrOfNat hrange hm hm' hc hal,
      ← assigned_eq_current hop ha]
  have hs (n : ℕ) (h : ¬ moves n) : position (n + 1) = position n := by
    simp only [position, exec_succ]
    cases ha : assigned (exec inet4Range inet6Range ops n) (ops n) with
    | none => rw [current_step_of_assigned_eq_none ha]
    | some record =>
      obtain ⟨family, hop, hl, hal⟩ := assigned_eq_some_iff.mp ha
      have ho : isIPv6 ≠ family := by
        rintro rfl
        exact h ⟨_, _, hop, ha⟩
      rw [hop, current_step_of_assigned hl hal, if_neg ho]
  have hat {n : ℕ} {a : Addr} {e : String} (hop : ops n = .create e isIPv6)
      (ha : assigned (exec inet4Range inet6Range ops n) (ops n) = some (a, e)) :
      position (n + 1) = a.toNat := by
    simp only [position, assigned_eq_current hop ha]
  have hmv : moves j := ⟨_, _, hj, hj'⟩
  have hba := hat hj hj'
  have had : address = addrOfNat isIPv6 address.toNat := by
    rw [← hba, ← (hp (j + 1)).2.2, assigned_eq_current hj hj']
  have hb : base + 2 ≤ address.toNat ∧ address.toNat < lastOf base k := by
    rw [← hba, hmo j hmv]
    exact ⟨le_cyclicSucc (by have := (hp j).1; omega), cyclicSucc_lt hroom _⟩
  have hn : x.toNat ≠ address.toNat := by
    intro heq
    exact hne (by rw [hx, heq, ← had])
  obtain ⟨t, hit, htj, ⟨e, a, hop, ha⟩, ht⟩ := exists_move_to hmo hs hb.1 hb.2
    hij (hat hi hi') hmv hba hlo hhi hn
  refine ⟨t, e, hit, htj, ?_⟩
  have hc := (hp (t + 1)).2.2
  rw [assigned_eq_current hop ha, ht, ← hx] at hc
  rw [ha, hc]

end Cursor

variable (hfamily : ∀ isIPv6, (rangeOf inet4Range inet6Range isIPv6).isValid = true →
  (rangeOf inet4Range inet6Range isIPv6).addr.is4 = !isIPv6)

include hfamily

theorem exec_current_is4 (n : ℕ) : ∀ isIPv6,
    ((exec inet4Range inet6Range ops n).current isIPv6).isValid = true →
      (rangeOf inet4Range inet6Range isIPv6).isValid = true ∧
        ((exec inet4Range inet6Range ops n).current isIPv6).is4 = !isIPv6 := by
  induction n with
  | zero =>
    intro isIPv6 hv
    rw [exec_zero_current] at hv ⊢
    split_ifs at hv ⊢ with hrange
    · exact ⟨hrange, (is4_next hv).2.trans (hfamily isIPv6 hrange)⟩
    · cases hv
  | succ n ih =>
    intro isIPv6
    refine exec_succ_current (P := fun address => address.isValid = true →
      (rangeOf inet4Range inet6Range isIPv6).isValid = true ∧ address.is4 = !isIPv6) (ih isIPv6) ?_
    intro address ha hv
    obtain ⟨hc, hn⟩ := allocate_eq_ok_iff.mp ha
    obtain ⟨hrange, h4⟩ := ih isIPv6 hc
    rw [(exec_range n isIPv6).1] at hn
    exact ⟨hrange, nextAddress_is4 hn hv h4 (hfamily isIPv6 hrange)⟩

/-- A valid address that is handed out belongs to the family that was asked for. -/
theorem allocate_is4 (h : (exec inet4Range inet6Range ops n).allocate isIPv6 = .ok address)
    (hv : address.isValid) : address.is4 = !isIPv6 := by
  obtain ⟨hc, hn⟩ := allocate_eq_ok_iff.mp h
  obtain ⟨hrange, h4⟩ := exec_current_is4 hfamily n isIPv6 hc
  rw [(exec_range n isIPv6).1] at hn
  exact nextAddress_is4 hn hv h4 (hfamily isIPv6 hrange)

section Keep

variable (hroom : inet4Range.addr ≠ .v4 0xfffffffe#32)

include hroom

/-- The IPv4 cursor is valid only if the first address to hand out exists. -/
theorem first_isValid_of_current
    (h : ((exec inet4Range inet6Range ops n).current false).isValid = true) :
    inet4Range.addr.next.next.isValid := by
  induction n with
  | zero =>
    have hrange := (exec_current_is4 hfamily 0 false h).1
    have hst : (exec inet4Range inet6Range ops 0).current false = inet4Range.addr.next :=
      if_pos hrange
    obtain ⟨base, k, hb⟩ := IsRange.exists_of_isValid hrange (hfamily false hrange)
    have ha : inet4Range.addr = addrOfNat false base := hb.addr
    rw [hst, ha, next_addrOfNat, addrOfNat_isValid] at h
    rw [ha, next_addrOfNat, next_addrOfNat, addrOfNat_isValid]
    by_contra hl
    have hlt : base + 1 < 2 ^ 32 := h
    have hge : ¬ base + 1 + 1 < 2 ^ 32 := hl
    obtain rfl : base = 4294967294 := by omega
    exact hroom (by rw [ha]; rfl)
  | succ n ih =>
    refine exec_succ_current (P := fun address => address.isValid = true →
      inet4Range.addr.next.next.isValid = true) ih (fun address hal _ => ?_) h
    exact ih (allocate_eq_ok_iff.mp hal).1

theorem allocate_is4_of_room
    (h : (exec inet4Range inet6Range ops n).allocate isIPv6 = .ok address) :
    address.is4 = !isIPv6 := by
  cases hv : address.isValid with
  | true => exact allocate_is4 hfamily h hv
  | false =>
    obtain rfl : address = .invalid := by
      cases address <;> simp [isValid] at hv ⊢
    cases isIPv6 with
    | true => rfl
    | false =>
      obtain ⟨hcu, hn⟩ := allocate_eq_ok_iff.mp h
      have hf := first_isValid_of_current hfamily hroom hcu
      rw [(exec_range n false).1] at hn
      rcases nextAddress_cases (rangeOf inet4Range inet6Range false)
        ((exec inet4Range inet6Range ops n).last false)
        ((exec inet4Range inet6Range ops n).current false) with hw | ⟨hstep, hc⟩
      · rw [hw] at hn
        change inet4Range.addr.next.next = .invalid at hn
        rw [hn] at hf
        cases hf
      · rw [hstep] at hn
        have hv' := isValid_of_contains hc
        rw [hn] at hv'
        cases hv'

theorem exec_storage_current (n : ℕ) : (exec inet4Range inet6Range ops n).storage.Current := by
  refine storage_invariant current_empty ?_ n
  intro n domain isIPv6 address s _ hl ha hc
  refine hc.fakeIPStore ?_
  rw [allocate_is4_of_room hfamily hroom ha, Bool.not_not]
  exact hl

/-- A domain keeps its address until the address is given to another domain or the store is
reset. -/
theorem create_eq_of_create {i j : ℕ} (hij : i < j) (hop : ops i = .create domain isIPv6)
    (hi : ((exec inet4Range inet6Range ops i).create domain isIPv6).1 = .ok address)
    (hrs : ∀ t, i < t → t < j → ops t ≠ .reset) (hr : ∀ t e, i < t → t < j → e ≠ domain →
      assigned (exec inet4Range inet6Range ops t) (ops t) ≠ some (address, e)) :
    ((exec inet4Range inet6Range ops j).create domain isIPv6).1 = .ok address := by
  have hl : (exec inet4Range inet6Range ops j).storage.fakeIPLoadDomain domain isIPv6 =
      some address := by
    refine run_preserved (P := fun _ (s : Store) =>
      s.storage.fakeIPLoadDomain domain isIPv6 = some address) (i := i + 1) hij ?_ ?_
    · -- The operation at `i` leaves the record it found or wrote.
      change (exec inet4Range inet6Range ops (i + 1)).storage.fakeIPLoadDomain domain isIPv6 = _
      rw [exec_succ, hop]
      cases hl : (exec inet4Range inet6Range ops i).storage.fakeIPLoadDomain domain isIPv6 with
      | some fd =>
        obtain rfl : fd = address := by simpa [create, hl] using hi
        simp [step, create, hl]
      | none =>
        cases ha : (exec inet4Range inet6Range ops i).allocate isIPv6 with
        | error err => simp [create, hl, ha] at hi
        | ok new =>
          obtain rfl : new = address := by simpa [create, hl, ha] using hi
          rw [step_of_assigned hl ha, fakeIPLoadDomain_fakeIPStore,
            if_pos (allocate_is4_of_room hfamily hroom ha), if_pos rfl]
    · intro t hit htj hk
      change (step (exec inet4Range inet6Range ops t) (ops t)).storage.fakeIPLoadDomain domain
        isIPv6 = _
      change (exec inet4Range inet6Range ops t).storage.fakeIPLoadDomain domain isIPv6 = _ at hk
      cases hasgn : assigned (exec inet4Range inet6Range ops t) (ops t) with
      | none => rw [step_of_assigned_eq_none hasgn, if_neg (hrs t hit htj), hk]
      | some record =>
        obtain ⟨new, e⟩ := record
        obtain ⟨family, hcr, hl, ha⟩ := assigned_eq_some_iff.mp hasgn
        have hn := allocate_is4_of_room hfamily hroom ha
        rw [hcr, step_of_assigned hl ha, fakeIPLoadDomain_fakeIPStore]
        by_cases hs : new.is4 = !isIPv6
        · obtain rfl : family = isIPv6 := by simpa [hn] using hs
          have hne : domain ≠ e := by
            rintro rfl
            rw [hk] at hl
            cases hl
          have ho : (exec inet4Range inet6Range ops t).storage.addressCache new ≠
              some domain := by
            intro hol
            have hb := exec_storage_current hfamily hroom t new domain hol
            rw [hs, Bool.not_not, hk] at hb
            obtain rfl := Option.some.inj hb
            exact hr t e hit htj hne.symm hasgn
          rw [if_pos hs, if_neg hne, if_neg ho, hk]
        · rw [if_neg hs, hk]
  simp [create, hl]

end Keep

end Runs

/-! ### The store -/

/-- The addresses of a range that are handed out: those behind the second address of the range and
before the broadcast address. -/
def Usable (p : Prefix) (x : Addr) : Prop :=
  p.isValid = true ∧ x.isValid = true ∧ x.is4 = p.addr.is4 ∧ p.addr.toNat + 2 ≤ x.toNat ∧
    x.toNat < (broadcastAddress p).toNat

/-- **The maps of a FakeIP store stay inverse, and addresses come back last.** Along every sequence
of operations on a store that is started from empty, with an IPv4 and an IPv6 range, each
configured or not:

* the address map inverts the domain map of each family;
* a domain keeps its address, until the address is given to another domain or the store is reset,
  if the second address behind the start of the IPv4 range exists;
* an address is handed out again only after every other usable address of the family's range. -/
theorem store_inverse_and_fresh (inet4Range inet6Range : Prefix)
    (h4 : inet4Range.isValid = true → inet4Range.addr.is4 = true)
    (h6 : inet6Range.isValid = true → inet6Range.addr.is6 = true) (ops : ℕ → Op) :
    (∀ n isIPv6 domain address,
      (exec inet4Range inet6Range ops n).storage.fakeIPLoadDomain domain isIPv6 = some address →
        (exec inet4Range inet6Range ops n).lookup address = some domain) ∧
    (inet4Range.addr ≠ .v4 0xfffffffe#32 → ∀ i j domain isIPv6 address, i < j →
      ops i = .create domain isIPv6 →
      ((exec inet4Range inet6Range ops i).create domain isIPv6).1 = .ok address →
      (∀ t, i < t → t < j → ops t ≠ .reset) → (∀ t e, i < t → t < j → e ≠ domain →
        assigned (exec inet4Range inet6Range ops t) (ops t) ≠ some (address, e)) →
      ((exec inet4Range inet6Range ops j).create domain isIPv6).1 = .ok address) ∧
    (∀ i j address domain domain' isIPv6, i < j →
      assigned (exec inet4Range inet6Range ops i) (ops i) = some (address, domain) →
      ops j = .create domain' isIPv6 →
      assigned (exec inet4Range inet6Range ops j) (ops j) = some (address, domain') →
      ∀ x, Usable (rangeOf inet4Range inet6Range isIPv6) x → x ≠ address → ∃ t e, i < t ∧ t < j ∧
          assigned (exec inet4Range inet6Range ops t) (ops t) = some (x, e)) := by
  have hfamily : ∀ isIPv6, (rangeOf inet4Range inet6Range isIPv6).isValid = true →
      (rangeOf inet4Range inet6Range isIPv6).addr.is4 = !isIPv6 := by
    intro isIPv6 hv
    cases isIPv6 with
    | false => exact h4 hv
    | true =>
      have his6 : inet6Range.addr.is6 = true := h6 hv
      change inet6Range.addr.is4 = false
      cases hp : inet6Range.addr <;> simp_all [is4, is6]
  refine ⟨fun n isIPv6 domain address h => (exec_inverse n isIPv6 domain address h).1, ?_, ?_⟩
  · intro hroom i j domain isIPv6 address hij hop hi hrs hr
    exact create_eq_of_create hfamily hroom hij hop hi hrs hr
  · intro i j address domain domain' isIPv6 hij hi hj hj' x hx hne
    obtain ⟨hv, hxv, hx4, hlo, hhi⟩ := hx
    obtain ⟨base, k, hrange⟩ := IsRange.exists_of_isValid hv (hfamily isIPv6 hv)
    obtain ⟨hl, hlt⟩ := hrange.broadcastAddress_eq
    rw [hrange.addr, toNat_addrOfNat hrange.base_lt] at hlo
    rw [hl, toNat_addrOfNat hlt] at hhi
    have hroom : base + 2 < lastOf base k := by omega
    have hxa := (addrOfNat_toNat hxv (hx4.trans (hfamily isIPv6 hv))).1
    -- Both times the address is one of the family of the range.
    obtain ⟨family, hi', -, ha⟩ := assigned_eq_some_iff.mp hi
    obtain ⟨m, -, hm, hc⟩ : ∃ m, base + 1 ≤ m ∧ m < lastOf base k ∧
        (exec inet4Range inet6Range ops (j + 1)).current isIPv6 = _ :=
      exec_cursor hrange hroom (j + 1)
    rw [assigned_eq_current hj hj'] at hc
    have had : address.isValid = true := by
      rw [hc, addrOfNat_isValid]
      omega
    have hj4 : address.is4 = !isIPv6 := by
      obtain ⟨family', hj'', -, ha'⟩ := assigned_eq_some_iff.mp hj'
      rw [hj] at hj''
      obtain ⟨-, rfl⟩ := Op.create.inj hj''
      exact allocate_is4 hfamily ha' had
    obtain rfl : family = isIPv6 := by
      have hi4 := allocate_is4 hfamily ha had
      simpa [hj4] using hi4.symm
    exact exists_assigned_between hrange hroom hij hi' hi hj hj' hxa.symm hlo hhi hne

/-- Six domains in a range with five usable addresses: the sixth gets the address of the first, and
the third address has been handed out in between. -/
theorem store_inverse_and_fresh_wrap :
    let inet4Range := Prefix.prefixFrom (.v4 0xc6120000#32) 29
    let ops : ℕ → Op := fun n => .create (["a", "b", "c", "d", "e", "f"].getD n "") false
    assigned (exec inet4Range .zero ops 5) (ops 5) = some (.v4 0xc6120002#32, "f") ∧
      ∃ t e, 0 < t ∧ t < 5 ∧
        assigned (exec inet4Range .zero ops t) (ops t) = some (.v4 0xc6120004#32, e) := by
  intro inet4Range ops
  have hf : assigned (exec inet4Range .zero ops 0) (ops 0) =
      some (.v4 0xc6120002#32, "a") := by decide +kernel
  have hl : assigned (exec inet4Range .zero ops 5) (ops 5) =
      some (.v4 0xc6120002#32, "f") := by decide +kernel
  refine ⟨hl, (store_inverse_and_fresh inet4Range .zero (fun _ => by decide) (by decide)
    ops).2.2 0 5 _ _ _ false (by decide) hf rfl hl _ ?_ (by decide)⟩
  refine ⟨by decide, by decide, by decide, by decide, by decide +kernel⟩

/-- A reset takes the records and keeps the cursor: the domain gets another address, although its
first one was not given to any other domain. -/
theorem create_after_reset :
    let inet4Range := Prefix.prefixFrom (.v4 0xc6120000#32) 15
    let ops : ℕ → Op := fun n => if n = 1 then .reset else .create "a" false
    ((exec inet4Range .zero ops 0).create "a" false).1 = .ok (.v4 0xc6120002#32) ∧
      (∀ t e, 0 < t → t < 2 →
        assigned (exec inet4Range .zero ops t) (ops t) ≠ some (.v4 0xc6120002#32, e)) ∧
      ops 2 = .create "a" false ∧
      ((exec inet4Range .zero ops 2).create "a" false).1 = .ok (.v4 0xc6120003#32) := by
  intro inet4Range ops
  refine ⟨by decide +kernel, ?_, rfl, by decide +kernel⟩
  intro t e ht ht' h
  obtain rfl : t = 1 := by omega
  cases h

end SingBox.DNS.FakeIP
