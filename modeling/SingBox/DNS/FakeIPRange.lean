import SingBox.DNS.FakeIP

/-!
# The addresses that a FakeIP store hands out

The cursor of a range starts after the address of the prefix, host bits included, and moves before
each use. When it meets the broadcast address or leaves the prefix, it goes to the second address
after that of the prefix, whether this one is usable or not. It is also the first one handed out.
-/

namespace SingBox.DNS.FakeIP

open SingBox.Net Foundation Store

/-- The address is in the prefix, and is not its broadcast address. -/
def Handed (p : Prefix) (address : Addr) : Prop :=
  p.contains address = true ∧ address ≠ broadcastAddress p

instance (p : Prefix) (address : Addr) : Decidable (Handed p address) :=
  inferInstanceAs (Decidable (_ ∧ _))

/-- The prefixes that are configured are of the families they are configured for. -/
def OwnFamilies (inet4Range inet6Range : Prefix) : Prop :=
  ∀ isIPv6, (rangeOf inet4Range inet6Range isIPv6).isValid = true →
    (rangeOf inet4Range inet6Range isIPv6).addr.is4 = !isIPv6

/-- Whatever `Create` returns was handed out, then or before, of a configured prefix that contains
it, and is not the broadcast address of this prefix. If the prefixes are of their own families, it
is the prefix of the family that was asked for. -/
def StaysInRange (inet4Range inet6Range : Prefix) : Prop :=
  ∀ (ops : ℕ → Op) (n : ℕ) (domain : String) (isIPv6 : Bool) (address : Addr),
    ops n = .create domain isIPv6 →
    ((exec inet4Range inet6Range ops n).create domain isIPv6).1 = .ok address →
    (∃ i ≤ n, ∃ first family, ops i = .create first family ∧
      assigned (exec inet4Range inet6Range ops i) (ops i) = some (address, first) ∧
        Handed (rangeOf inet4Range inet6Range family) address) ∧
      (OwnFamilies inet4Range inet6Range →
        Handed (rangeOf inet4Range inet6Range isIPv6) address)

/-- The second address after that of the prefix may be handed out. If the prefix starts at the last
address of its family, there is nothing to hand out. -/
def HasRoom (p : Prefix) : Prop :=
  p.isValid = true → p.addr.next.isValid = true → Handed p p.addr.next.next

instance (p : Prefix) : Decidable (HasRoom p) := inferInstanceAs (Decidable (_ → _ → _))

section Runs

variable {inet4Range inet6Range : Prefix} {ops : ℕ → Op}

/-- A valid cursor belongs to a configured range with an address after its first. -/
theorem isValid_of_current (n : ℕ) (isIPv6 : Bool)
    (h : ((exec inet4Range inet6Range ops n).current isIPv6).isValid = true) :
    (rangeOf inet4Range inet6Range isIPv6).isValid = true ∧
      (rangeOf inet4Range inet6Range isIPv6).addr.next.isValid = true := by
  induction n with
  | zero =>
    rw [exec_zero_current] at h
    split_ifs at h with hr
    · exact ⟨hr, h⟩
    · cases h
  | succ n ih =>
    refine exec_succ_current (P := fun address => address.isValid = true →
      (rangeOf inet4Range inet6Range isIPv6).isValid = true ∧
        (rangeOf inet4Range inet6Range isIPv6).addr.next.isValid = true) ih
      (fun address ha _ => ?_) h
    exact ih (allocate_eq_ok_iff.mp ha).1

theorem handed_of_nextAddress {p : Prefix} {current : Addr} (hr : Handed p p.addr.next.next) :
    Handed p (nextAddress p (broadcastAddress p) current) := by
  unfold nextAddress
  by_cases hw : current.next = broadcastAddress p ∨ p.contains current.next = false
  · rw [if_pos hw]
    exact hr
  · rw [if_neg hw]
    obtain ⟨hl, hc⟩ := not_or.mp hw
    exact ⟨by simpa using hc, hl⟩

variable {address : Addr} {isIPv6 : Bool}

theorem handed_of_allocate {n : ℕ} (hro : HasRoom (rangeOf inet4Range inet6Range isIPv6))
    (h : (exec inet4Range inet6Range ops n).allocate isIPv6 = .ok address) :
    Handed (rangeOf inet4Range inet6Range isIPv6) address := by
  obtain ⟨hc, hn⟩ := allocate_eq_ok_iff.mp h
  obtain ⟨hv, hf⟩ := isValid_of_current n isIPv6 hc
  obtain ⟨hr, hl⟩ : (exec inet4Range inet6Range ops n).range isIPv6 = _ ∧ _ :=
    exec_range n isIPv6
  rw [hr, hl hv] at hn
  rw [← hn]
  exact handed_of_nextAddress (hro hv hf)

theorem exists_assigned_of_load (n : ℕ) {domain : String}
    (h : (exec inet4Range inet6Range ops n).storage.fakeIPLoadDomain domain isIPv6 = some address) :
    ∃ i < n, ∃ first,
      assigned (exec inet4Range inet6Range ops i) (ops i) = some (address, first) := by
  induction n with
  | zero => cases isIPv6 <;> cases h
  | succ n ih =>
    rw [exec_succ] at h
    cases ha : assigned (exec inet4Range inet6Range ops n) (ops n) with
    | none =>
      rw [step_of_assigned_eq_none ha] at h
      split_ifs at h
      · cases isIPv6 <;> cases h
      · obtain ⟨i, hi, hf⟩ := ih h
        exact ⟨i, Nat.lt_succ_of_lt hi, hf⟩
    | some record =>
      obtain ⟨family, hop, hl, hal⟩ := assigned_eq_some_iff.mp ha
      rw [hop, step_of_assigned hl hal] at h
      have h' := MemoryStorage.fakeIPLoadDomain_fakeIPStore
        (exec inet4Range inet6Range ops n).storage record.1 record.2 domain isIPv6
      rw [h] at h'
      split_ifs at h' with hfa hd ho
      · exact ⟨n, Nat.lt_succ_self n, record.2, Option.some.inj h' ▸ ha⟩
      · obtain ⟨i, hi, hf⟩ := ih h'.symm
        exact ⟨i, Nat.lt_succ_of_lt hi, hf⟩
      · obtain ⟨i, hi, hf⟩ := ih h'.symm
        exact ⟨i, Nat.lt_succ_of_lt hi, hf⟩

theorem is4_of_contains {p : Prefix} (h : p.contains address) :
    p.isValid = true ∧ address.is4 = p.addr.is4 := by
  unfold Prefix.contains at h
  rw [Bool.and_eq_true] at h
  refine ⟨h.1, ?_⟩
  cases hp : p.addr <;> cases address <;> simp_all [Addr.is4]

theorem family_eq_of_handed (ho : OwnFamilies inet4Range inet6Range) {family isIPv6 : Bool}
    (h : Handed (rangeOf inet4Range inet6Range family) address) (h4 : address.is4 = !isIPv6) :
    family = isIPv6 := by
  obtain ⟨hv, hf⟩ := is4_of_contains h.1
  rw [ho family hv, h4] at hf
  simpa using hf.symm

/-- The first address of a range is the second one after that of the prefix. -/
theorem create_first (hv : (rangeOf inet4Range inet6Range isIPv6).isValid)
    (hn : (rangeOf inet4Range inet6Range isIPv6).addr.next.isValid) (domain : String) :
    ((exec inet4Range inet6Range ops 0).create domain isIPv6).1 =
      .ok (rangeOf inet4Range inet6Range isIPv6).addr.next.next := by
  have hl :
      (exec inet4Range inet6Range ops 0).storage.fakeIPLoadDomain domain isIPv6 = none := by
    cases isIPv6 <;> rfl
  have hc : (exec inet4Range inet6Range ops 0).current isIPv6 =
      (rangeOf inet4Range inet6Range isIPv6).addr.next := by
    rw [exec_zero_current, if_pos hv]
  have ha : (exec inet4Range inet6Range ops 0).allocate isIPv6 =
      .ok (rangeOf inet4Range inet6Range isIPv6).addr.next.next := by
    rw [allocate_eq_ok_iff, hc]
    refine ⟨hn, ?_⟩
    rw [(exec_range 0 isIPv6).1, nextAddress]
    split_ifs <;> rfl
  rw [create, hl, ha]

end Runs

theorem StaysInRange.hasRoom {inet4Range inet6Range : Prefix}
    (h : StaysInRange inet4Range inet6Range) (isIPv6 : Bool) :
    HasRoom (rangeOf inet4Range inet6Range isIPv6) := by
  intro hv hn
  obtain ⟨⟨i, hi, first, family, hop, -, hh⟩, -⟩ :=
    h (fun _ => .create "a" isIPv6) 0 "a" isIPv6 _ rfl (create_first hv hn "a")
  obtain ⟨-, rfl⟩ := Op.create.inj hop
  exact hh

/-- The addresses of every run stay in range exactly if both prefixes have room. -/
theorem staysInRange_iff (inet4Range inet6Range : Prefix) : StaysInRange inet4Range inet6Range ↔
      ∀ isIPv6, HasRoom (rangeOf inet4Range inet6Range isIPv6) := by
  constructor
  · exact StaysInRange.hasRoom
  · intro hr ops n dom isIPv6 address hop hcr
    cases hl : (exec inet4Range inet6Range ops n).storage.fakeIPLoadDomain dom isIPv6 with
    | some fd =>
      obtain rfl : fd = address := by simpa [create, hl] using hcr
      obtain ⟨i, hi, fst, hasgn⟩ := exists_assigned_of_load n hl
      obtain ⟨fam, hf, -, ha⟩ := assigned_eq_some_iff.mp hasgn
      have hh := handed_of_allocate (hr fam) ha
      refine ⟨⟨i, hi.le, fst, fam, hf, hasgn, hh⟩, fun ho => ?_⟩
      obtain rfl := family_eq_of_handed ho hh (exec_inverse n isIPv6 dom fd hl).2
      exact hh
    | none =>
      cases ha : (exec inet4Range inet6Range ops n).allocate isIPv6 with
      | error err => simp [create, hl, ha] at hcr
      | ok fd =>
        obtain rfl : fd = address := by simpa [create, hl, ha] using hcr
        have hh := handed_of_allocate (hr isIPv6) ha
        refine ⟨⟨n, le_rfl, dom, isIPv6, hop, ?_, hh⟩, fun _ => hh⟩
        exact assigned_eq_some_iff.mpr ⟨isIPv6, hop, hl, ha⟩

/-- A range of one address, a range of two, and one whose address is before the broadcast address:
the first address that is handed out is not in the range. -/
theorem not_staysInRange : ¬ StaysInRange (Prefix.prefixFrom (.v4 0xc6120000#32) 32) .zero ∧
    ¬ StaysInRange (Prefix.prefixFrom (.v4 0xc6120000#32) 31) .zero ∧
    ¬ StaysInRange (Prefix.prefixFrom (.v4 0xc61200fe#32) 24) .zero := by
  refine ⟨fun h => ?_, fun h => ?_, fun h => ?_⟩ <;>
    exact absurd (h.hasRoom false) (by decide +kernel)

end SingBox.DNS.FakeIP
