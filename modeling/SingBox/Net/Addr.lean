import Mathlib

/-!
# Addresses and prefixes of the `netip` package

The code stores addresses as `netip.Addr` and ranges as `netip.Prefix`. An address is the zero
value, an IPv4 address or an IPv6 address. An `Addr` has no zone; where the code meets addresses
with a zone and the zone matters, they are of the type `ZonedAddr`. A prefix stores `bitsPlusOne`,
which is `0` for the invalid prefixes, exactly as the standard library does.
-/

namespace SingBox.Net

/-- `netip.Addr`: the zero value `Addr{}` is `invalid`. -/
inductive Addr where
  | invalid
  | v4 (a : BitVec 32)
  | v6 (a : BitVec 128)
deriving DecidableEq, Repr

namespace Addr

/-- `Addr.IsValid`. -/
def isValid : Addr → Bool
  | invalid => false
  | _ => true

/-- `Addr.Is4`; an IPv4-mapped IPv6 address is not one. -/
def is4 : Addr → Bool
  | v4 _ => true
  | _ => false

/-- `Addr.Is6`, IPv4-mapped addresses included. -/
def is6 : Addr → Bool
  | v6 _ => true
  | _ => false

/-- `Addr.BitLen`, `0` for the zero value. -/
def bitLen : Addr → ℕ
  | invalid => 0
  | v4 _ => 32
  | v6 _ => 128

/-- The successor of a machine word, if there is one. -/
def succ? {w : ℕ} (a : BitVec w) : Option (BitVec w) :=
  if a + 1#w = 0#w then none else some (a + 1#w)

/-- `Addr.Next`: the zero value when there is no next address. -/
def next : Addr → Addr
  | invalid => invalid
  | v4 a => match succ? a with
    | none => invalid
    | some b => v4 b
  | v6 a => match succ? a with
    | none => invalid
    | some b => v6 b

/-- `Addr.Unmap`: the IPv4 address in an IPv4-mapped IPv6 address. -/
def unmap : Addr → Addr
  | v6 a => if a.extractLsb' 32 96 = 0xffff#96 then v4 (a.setWidth 32) else v6 a
  | a => a

/-- The number that an address denotes within its family. -/
def toNat : Addr → ℕ
  | invalid => 0
  | v4 a => a.toNat
  | v6 a => a.toNat

theorem succ?_eq_none_iff {w : ℕ} (hw : 0 < w) (a : BitVec w) :
    succ? a = none ↔ a.toNat + 1 = 2 ^ w := by
  have ha := a.isLt
  have h1 : (1 : ℕ) < 2 ^ w := Nat.one_lt_two_pow hw.ne'
  simp only [succ?, ite_eq_left_iff, reduceCtorEq, imp_false, not_not]
  rw [← BitVec.toNat_inj, BitVec.toNat_add]
  simp only [BitVec.toNat_one hw, BitVec.toNat_ofNat, Nat.zero_mod]
  constructor
  · intro h
    by_contra hne
    rw [Nat.mod_eq_of_lt (by omega)] at h
    omega
  · intro h
    rw [h, Nat.mod_self]

open BitVec Nat

theorem toNat_of_succ?_eq_some {w : ℕ} (hw : 0 < w) {a b : BitVec w} (h : succ? a = some b) :
    b.toNat = a.toNat + 1 := by
  have hne : succ? a ≠ none := by simp [h]
  have ha := a.isLt
  have hlt : a.toNat + 1 < 2 ^ w := by
    have := mt (succ?_eq_none_iff hw a).2 hne
    omega
  have h1 : (1 : ℕ) < 2 ^ w := Nat.one_lt_two_pow hw.ne'
  simp only [succ?] at h
  split_ifs at h
  rw [← Option.some.inj h, toNat_add, toNat_one hw, mod_eq_of_lt hlt]

end Addr

/-- `netip.Addr` with its zone, which only IPv6 addresses have. -/
structure ZonedAddr where
  addr : Addr
  zone : String
  zone_eq : (∀ a, addr ≠ .v6 a) → zone = ""
deriving DecidableEq

namespace ZonedAddr

def ofAddr (a : Addr) : ZonedAddr := ⟨a, "", fun _ => rfl⟩

/-- `Addr.Unmap`; an IPv4-mapped address loses its zone. -/
def unmap (a : ZonedAddr) : ZonedAddr :=
  if a.addr.unmap = a.addr then a else ofAddr a.addr.unmap

theorem unmap_addr (a : ZonedAddr) : a.unmap.addr = a.addr.unmap := by
  unfold unmap
  split
  · next h => exact h.symm
  · rfl

theorem eq_ofAddr {a : ZonedAddr} (h : a.zone = "") : a = ofAddr a.addr := by
  obtain ⟨addr, zone, hz⟩ := a
  cases h
  rfl

end ZonedAddr

/-- `netip.Prefix`: `bitsPlusOne` is `0` for an invalid prefix, and never exceeds what the address
allows. -/
structure Prefix where
  addr : Addr
  bitsPlusOne : ℕ
  valid : bitsPlusOne ≠ 0 → addr.isValid ∧ bitsPlusOne ≤ addr.bitLen + 1
deriving DecidableEq

namespace Prefix

/-- The zero value `Prefix{}`. -/
def zero : Prefix := ⟨.invalid, 0, by simp⟩

/-- `netip.PrefixFrom`: bits out of range make an invalid prefix. -/
def prefixFrom (ip : Addr) (bits : ℕ) : Prefix :=
  if h : ip.isValid ∧ bits ≤ ip.bitLen then ⟨ip, bits + 1, fun _ => ⟨h.1, by omega⟩⟩
  else ⟨ip, 0, by simp⟩

/-- `Prefix.IsValid`. -/
def isValid (p : Prefix) : Bool := decide (0 < p.bitsPlusOne)

/-- `Prefix.Bits`, used for valid prefixes only. -/
def bits (p : Prefix) : ℕ := p.bitsPlusOne - 1

/-- `Prefix.Contains`: an address of the other family and the zero value are never contained. -/
def contains (p : Prefix) (ip : Addr) : Bool :=
  p.isValid && match p.addr, ip with
    | .v4 a, .v4 b => decide ((b ^^^ a) >>> (32 - p.bits) = 0#32)
    | .v6 a, .v6 b => decide ((b ^^^ a) >>> (128 - p.bits) = 0#128)
    | _, _ => false

theorem bits_le (p : Prefix) : p.bits ≤ p.addr.bitLen := by
  by_cases h : p.bitsPlusOne = 0
  · simp [bits, h]
  · have := (p.valid h).2
    simp only [bits]
    omega

variable {p : Prefix}

theorem addr_isValid (h : p.isValid) : p.addr.isValid :=
  (p.valid (by simp only [isValid, decide_eq_true_eq] at h; omega)).1

theorem ushiftRight_xor_eq_zero_iff {w : ℕ} (a b : BitVec w) (k : ℕ) :
    (b ^^^ a) >>> k = 0#w ↔ b.toNat / 2 ^ k = a.toNat / 2 ^ k := by
  rw [← BitVec.toNat_inj]
  simp only [BitVec.toNat_ushiftRight, BitVec.toNat_xor, BitVec.toNat_ofNat, Nat.zero_mod]
  rw [Nat.shiftRight_xor_distrib, Nat.shiftRight_eq_div_pow, Nat.shiftRight_eq_div_pow]
  constructor
  · intro h
    have hx := congrArg (· ^^^ a.toNat / 2 ^ k) h
    simpa [Nat.xor_assoc] using hx
  · intro h
    rw [h, Nat.xor_self]

theorem contains_v4_iff (h : p.isValid) {a : BitVec 32} (ha : p.addr = .v4 a) (b : BitVec 32) :
    p.contains (.v4 b) = true ↔ b.toNat / 2 ^ (32 - p.bits) = a.toNat / 2 ^ (32 - p.bits) := by
  simp only [contains, h, ha, Bool.true_and, decide_eq_true_eq]
  exact ushiftRight_xor_eq_zero_iff a b _

theorem contains_v6_iff (h : p.isValid) {a : BitVec 128} (ha : p.addr = .v6 a) (b : BitVec 128) :
    p.contains (.v6 b) = true ↔ b.toNat / 2 ^ (128 - p.bits) = a.toNat / 2 ^ (128 - p.bits) := by
  simp only [contains, h, ha, Bool.true_and, decide_eq_true_eq]
  exact ushiftRight_xor_eq_zero_iff a b _

end Prefix

end SingBox.Net
