import SingBox.Net.Addr

/-!
# The addresses of a gVisor device

`UpdateConfiguration` of the OpenVPN device, and likewise of the OpenConnect one, removes the
addresses that only the previous configuration has and adds those that only the new one has. The
configuration is replaced first, and stays so when an operation fails: the next call then starts
from addresses that the stack does not have.
-/

namespace SingBox.OpenVPN

open Function List Net

/-- The addresses of the NIC, each with its prefix. -/
abbrev Stack := Addr → Option Prefix

structure StackDevice where
  /-- `options.Configuration.Address`. -/
  address : List Prefix := []
  stack : Stack := fun _ => none

/-- The first loop of `updateAddresses`; `false`: it returns an error. -/
def removeAddresses (addresses : List Prefix) : List Prefix → Stack → Stack × Bool
  | [], s => (s, true)
  | p :: ps, s =>
    if p ∈ addresses then removeAddresses addresses ps s
    else if s p.addr = none then (s, false)
    else removeAddresses addresses ps (update s p.addr none)

/-- The second loop; `fails`: the addition fails although the address is absent. -/
def addAddresses (fails : Prefix → Bool) (previous : List Prefix) :
    List Prefix → Stack → Stack × Bool
  | [], s => (s, true)
  | p :: ps, s =>
    if p ∈ previous then addAddresses fails previous ps s
    else if s p.addr ≠ none ∨ fails p then (s, false)
    else addAddresses fails previous ps (update s p.addr (some p))

def updateAddresses (fails : Prefix → Bool) (previous addresses : List Prefix) (s : Stack) :
    Stack × Bool :=
  let r := removeAddresses addresses previous s
  if r.2 then addAddresses fails previous addresses r.1 else r

/-- The argument of a call, with what happens to its additions. -/
structure Configuration where
  address : List Prefix
  fails : Prefix → Bool := fun _ => false

/-- A new device is an empty one after a first call. -/
def StackDevice.updateConfiguration (d : StackDevice) (c : Configuration) : StackDevice × Bool :=
  let r := updateAddresses c.fails d.address c.address d.stack
  (⟨c.address, r.1⟩, r.2)

/-- The stack has exactly these addresses. -/
def Stack.Holds (s : Stack) (l : List Prefix) : Prop := ∀ a p, s a = some p ↔ p ∈ l ∧ p.addr = a

def Distinct (l : List Prefix) : Prop := (l.map Prefix.addr).Nodup

/-- The addresses are distinct, and no addition fails. -/
def Configuration.Installable (c : Configuration) : Prop :=
  Distinct c.address ∧ ∀ p ∈ c.address, c.fails p = false

/-- Whatever the next call is, it returns `nil` only if the stack has its addresses, and it does if
they can be installed. -/
def StackDevice.Recovers (d : StackDevice) : Prop :=
  ∀ c, ((d.updateConfiguration c).2 → (d.updateConfiguration c).1.stack.Holds c.address) ∧
    (c.Installable → (d.updateConfiguration c).2)

variable {previous ps : List Prefix} {s : Stack} {fails : Prefix → Bool}

theorem removeAddresses_spec (l : List Prefix) (hd : Distinct ps) (h : ∀ p ∈ ps, s p.addr ≠ none) :
    (removeAddresses l ps s).2 ∧ ∀ a p, (removeAddresses l ps s).1 a = some p ↔
      s a = some p ∧ ∀ q ∈ ps, q.addr = a → q ∈ l := by
  induction ps generalizing s with
  | nil => simp [removeAddresses]
  | cons p ps ih =>
    obtain ⟨hp, hd⟩ := nodup_cons.mp hd
    obtain ⟨hpa, h⟩ := forall_mem_cons.mp h
    rw [removeAddresses]
    split_ifs with hm
    · obtain ⟨hok, he⟩ := ih hd h
      exact ⟨hok, by grind⟩
    · obtain ⟨hok, he⟩ := ih (s := update s p.addr none) hd fun q hq => by
        rw [update_of_ne fun he => hp (mem_map.mpr ⟨q, hq, he⟩)]
        exact h q hq
      exact ⟨hok, by grind⟩

theorem addAddresses_eq_some (h : (addAddresses fails previous ps s).2) (a : Addr) (p : Prefix) :
    (addAddresses fails previous ps s).1 a = some p ↔
      s a = some p ∨ (p ∈ ps ∧ p ∉ previous) ∧ p.addr = a := by
  induction ps generalizing s with
  | nil => simp [addAddresses]
  | cons q ps ih =>
    rw [addAddresses] at h ⊢
    split_ifs at h ⊢ with hm hf
    · rw [ih h]
      grind
    · rw [ih h, update_apply]
      grind

theorem addAddresses_ok (hd : Distinct ps) (hn : ∀ p ∈ ps, p ∉ previous → s p.addr = none)
    (hf : ∀ p ∈ ps, fails p = false) : (addAddresses fails previous ps s).2 := by
  induction ps generalizing s with
  | nil => rfl
  | cons p ps ih =>
    obtain ⟨hp, hd⟩ := nodup_cons.mp hd
    obtain ⟨hnp, hn⟩ := forall_mem_cons.mp hn
    obtain ⟨hfp, hf⟩ := forall_mem_cons.mp hf
    rw [addAddresses]
    split_ifs with hm hx
    · exact ih hd hn hf
    · simp [hnp hm, hfp] at hx
    · refine ih hd (fun q hq hqp => ?_) hf
      rw [update_of_ne fun he => hp (mem_map.mpr ⟨q, hq, he⟩)]
      exact hn q hq hqp

variable {d : StackDevice}

/-- A device of which the stack has the addresses of the configuration, and these are distinct. -/
def StackDevice.Sound (d : StackDevice) : Prop := d.stack.Holds d.address ∧ Distinct d.address

theorem StackDevice.Sound.recovers (h : d.Sound) : d.Recovers := by
  obtain ⟨hs, hd⟩ := h
  intro c
  obtain ⟨hok, hr⟩ := removeAddresses_spec (s := d.stack) c.address hd fun p hp => by
    simp [(hs p.addr p).mpr ⟨hp, rfl⟩]
  simp only [updateConfiguration, updateAddresses, hok, if_true]
  -- What is in both configurations stays.
  have hk : ∀ a p, (removeAddresses c.address d.address d.stack).1 a = some p ↔
      (p ∈ c.address ∧ p ∈ d.address) ∧ p.addr = a := by
    intro a p
    have hi := inj_on_of_nodup_map hd
    rw [hr, hs]
    grind
  refine ⟨fun hok a p => ?_, fun ⟨hdc, hf⟩ => addAddresses_ok hdc (fun p hp hn => ?_) hf⟩
  · rw [addAddresses_eq_some hok, hk, ← or_and_right, ← and_or_left]
    simp [em]
  · by_contra hne
    obtain ⟨q, hq⟩ := Option.ne_none_iff_exists'.mp hne
    obtain ⟨⟨hqc, hqd⟩, ha⟩ := (hk _ q).mp hq
    exact hn (inj_on_of_nodup_map hdc hqc hp ha ▸ hqd)

theorem StackDevice.Sound.update (h : d.Sound) {c : Configuration} (hc : c.Installable) :
    (d.updateConfiguration c).1.Sound :=
  ⟨(h.recovers c).1 ((h.recovers c).2 hc), hc.1⟩

/-- After calls, the first of which makes the device, with distinct addresses that can be added, the
next call recovers. -/
theorem recovers_run (calls : List Configuration) (h : ∀ c ∈ calls, c.Installable) :
    (calls.foldl (fun d c => (StackDevice.updateConfiguration d c).1) {}).Recovers := by
  have hs : StackDevice.Sound {} := ⟨by simp [Stack.Holds], nodup_nil⟩
  exact (foldlRecOn calls _ hs fun _ hd c hc => hd.update (h c hc)).recovers

/-- The loopback address, with a prefix length. -/
def loopback (bits : ℕ) : Prefix := Prefix.prefixFrom (.v4 0x7f000001#32) bits

theorem recovers_run_example : StackDevice.Recovers
    ([{ address := [loopback 8] }, { address := [loopback 32] }].foldl
      (fun d c => (StackDevice.updateConfiguration d c).1) {}) :=
  recovers_run _ (by simp [Configuration.Installable, Distinct])

/-- An addition fails, and the next call removes the address that was not added. -/
theorem not_recovers : ¬StackDevice.Recovers
    ([{ address := [] }, ⟨[loopback 8], fun _ => true⟩].foldl
      (fun d c => (StackDevice.updateConfiguration d c).1) {}) := by
  intro h
  exact absurd ((h { address := [] }).2 ⟨nodup_nil, by simp⟩) (by decide)

end SingBox.OpenVPN
