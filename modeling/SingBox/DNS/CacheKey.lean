import SingBox.Net.Addr

/-!
# Keys of the two DNS caches

The memory cache of the DNS client is keyed by the whole `dnsCacheKey`. The persistent cache is
addressed by a string made of the transport tag, the client subnet and the environment, and by the
name and the type of the question; the class of the question is not part of the address.

Strings are byte lists. `netip.Prefix.String` is a parameter: it is injective on valid prefixes
and its texts have no control bytes.
-/

namespace SingBox.DNS

open SingBox.Net List Function

/-- A digit of `strconv.FormatUint`. -/
def digitByte (d : ℕ) : UInt8 := UInt8.ofNat (if d < 10 then 48 + d else 87 + d)

/-- `strconv.FormatUint(n, 36)`. -/
def formatUint (n : ℕ) : List UInt8 :=
  if n = 0 then [48] else ((Nat.digits 36 n).map digitByte).reverse

/-- `dnsCacheKey`. -/
structure CacheKey where
  name : List UInt8
  qtype : UInt16
  qclass : UInt16
  transportTag : List UInt8
  clientSubnet : Prefix
  environment : UInt64
deriving DecidableEq

section

variable (prefixString : Prefix → List UInt8)

/-- The part of the name for the client subnet. -/
def CacheKey.subnetPart (k : CacheKey) : List UInt8 :=
  if k.clientSubnet.isValid then 0 :: prefixString k.clientSubnet else []

/-- The part of the name for the environment. -/
def CacheKey.environmentPart (k : CacheKey) : List UInt8 :=
  if k.environment ≠ 0 then 1 :: formatUint k.environment.toNat else []

/-- `dnsCacheKey.persistentName`. -/
def CacheKey.persistentName (k : CacheKey) : List UInt8 :=
  k.transportTag ++ k.subnetPart prefixString ++ k.environmentPart

/-- The arguments with which `storeCache` and `loadPersistentResponse` address the persistent
cache. -/
def CacheKey.address (k : CacheKey) : List UInt8 × List UInt8 × UInt16 :=
  (k.persistentName prefixString, k.name, k.qtype)

variable {α : Type}

/-- `storeCache` with a persistent cache; `α` is the stored message with its expiry. -/
def storePersistent (cache : List UInt8 × List UInt8 × UInt16 → Option α) (entry : CacheKey × α) :
    List UInt8 × List UInt8 × UInt16 → Option α :=
  Function.update cache (entry.1.address prefixString) (some entry.2)

/-- `storeCache` with a memory cache. -/
def storeMemory (cache : CacheKey → Option α) (entry : CacheKey × α) : CacheKey → Option α :=
  Function.update cache entry.1 (some entry.2)

/-- The persistent cache after a history of stores. -/
def persistentAfter (history : List (CacheKey × α)) : List UInt8 × List UInt8 × UInt16 → Option α :=
  history.foldl (storePersistent prefixString) fun _ => none

/-- The memory cache after a history of stores. -/
def memoryAfter (history : List (CacheKey × α)) : CacheKey → Option α :=
  history.foldl storeMemory fun _ => none

end

/-- The tag is free of the separators. -/
def CacheKey.Plain (k : CacheKey) : Prop := ∀ b ∈ k.transportTag, b ≠ 0 ∧ b ≠ 1

/-- The persistent cache does not tell the subnets of the keys apart: they are equal, or no prefix
is written into either name. -/
def CacheKey.SameSubnet (k k' : CacheKey) : Prop :=
  k.clientSubnet = k'.clientSubnet ∨
    (k.clientSubnet.isValid = false ∧ k'.clientSubnet.isValid = false)

/-- The keys differ at most in what the address leaves out: the class, and subnets that are no
valid prefixes. -/
def CacheKey.SameButLeftOut (k k' : CacheKey) : Prop :=
  k.name = k'.name ∧ k.qtype = k'.qtype ∧ k.transportTag = k'.transportTag ∧
    k.environment = k'.environment ∧ k.SameSubnet k'

/-- What is assumed of `netip.Prefix.String`. -/
structure PrefixString where
  text : Prefix → List UInt8
  injective : ∀ {p q : Prefix}, p.isValid → q.isValid → text p = text q → p = q
  noControl : ∀ p, ∀ b ∈ text p, b ≠ 0 ∧ b ≠ 1

/-! ### Numbers in base 36 -/

/-- The digit with a given byte. -/
def byteDigit (b : UInt8) : ℕ := if b.toNat < 58 then b.toNat - 48 else b.toNat - 87

theorem byteDigit_digitByte {d : ℕ} (hd : d < 36) : byteDigit (digitByte d) = d := by
  have key : ∀ d < 36, byteDigit (digitByte d) = d := by decide
  exact key d hd

theorem formatUint_injective {m n : ℕ} (hm : m ≠ 0) (hn : n ≠ 0)
    (h : formatUint m = formatUint n) : m = n := by
  have hde : ∀ k : ℕ, ((Nat.digits 36 k).map digitByte).map byteDigit = Nat.digits 36 k := by
    intro k
    rw [map_map]
    refine (map_congr_left fun d hd => ?_).trans (map_id _)
    exact byteDigit_digitByte (Nat.digits_lt_base (by decide) hd)
  rw [formatUint, formatUint, if_neg hm, if_neg hn, reverse_inj] at h
  have := congrArg (map byteDigit) h
  rw [hde, hde] at this
  exact Nat.digits_inj_iff.mp this

/-! ### The separators -/

/-- A text that is empty or starts with a separator. -/
def Separated (r : List UInt8) : Prop := ∀ b ∈ r.head?, b = 0 ∨ b = 1

theorem append_inj_of_separated {a a' r r' : List UInt8} (ha : ∀ b ∈ a, b ≠ 0 ∧ b ≠ 1)
    (ha' : ∀ b ∈ a', b ≠ 0 ∧ b ≠ 1) (hr : Separated r) (hr' : Separated r')
    (h : a ++ r = a' ++ r') : a = a' ∧ r = r' := by
  induction a generalizing a' with
  | nil =>
    cases a' with
    | nil => exact ⟨rfl, h⟩
    | cons b a' =>
      have hb := ha' b (mem_cons_self ..)
      rw [nil_append] at h
      rcases hr b (by rw [h]; rfl) with h0 | h1
      · exact absurd h0 hb.1
      · exact absurd h1 hb.2
  | cons b a ih =>
    have hb := ha b (mem_cons_self ..)
    cases a' with
    | nil =>
      rw [nil_append] at h
      rcases hr' b (by rw [← h]; rfl) with h0 | h1
      · exact absurd h0 hb.1
      · exact absurd h1 hb.2
    | cons b' a' =>
      obtain ⟨rfl, ht⟩ := cons.inj h
      obtain ⟨rfl, hre⟩ := ih (fun c hc => ha c (mem_cons_of_mem _ hc))
        (fun c hc => ha' c (mem_cons_of_mem _ hc)) ht
      exact ⟨rfl, hre⟩

theorem CacheKey.separated_environmentPart (k : CacheKey) : Separated k.environmentPart := by
  intro b hb
  rw [environmentPart] at hb
  split_ifs at hb
  · exact Or.inr (Option.some.inj hb).symm
  · cases hb

theorem CacheKey.separated_parts (ps : PrefixString) (k : CacheKey) :
    Separated (k.subnetPart ps.text ++ k.environmentPart) := by
  rw [subnetPart]
  split_ifs
  · intro b hb
    exact Or.inl (Option.some.inj hb).symm
  · exact k.separated_environmentPart

theorem CacheKey.environment_inj {k k' : CacheKey} (h : k.environmentPart = k'.environmentPart) :
    k.environment = k'.environment := by
  rw [environmentPart, environmentPart] at h
  split_ifs at h with h1 h2 h3
  · have hd := (cons.inj h).2
    have hne : ∀ e : UInt64, e ≠ 0 → e.toNat ≠ 0 := fun e he h0 => he (UInt64.toNat_inj.mp h0)
    exact UInt64.toNat_inj.mp (formatUint_injective (hne _ h1) (hne _ h2) hd)
  · rw [not_not.mp h1, not_not.mp h3]

section

variable {k k' : CacheKey} (ps : PrefixString)

theorem CacheKey.subnet_inj
    (h : k.subnetPart ps.text ++ k.environmentPart = k'.subnetPart ps.text ++ k'.environmentPart) :
    k.SameSubnet k' ∧ k.environmentPart = k'.environmentPart := by
  by_cases hv : k.clientSubnet.isValid <;> by_cases hv' : k'.clientSubnet.isValid
  · rw [subnetPart, subnetPart, if_pos hv, if_pos hv', cons_append, cons_append] at h
    obtain ⟨ht, he⟩ := append_inj_of_separated (ps.noControl _) (ps.noControl _)
      k.separated_environmentPart k'.separated_environmentPart (cons.inj h).2
    exact ⟨.inl (ps.injective hv hv' ht), he⟩
  · -- one name goes on with a subnet, the other ends or goes on with an environment
    rw [subnetPart, subnetPart, if_pos hv, if_neg hv', nil_append, environmentPart,
      environmentPart] at h
    split_ifs at h <;> simp at h
  · rw [subnetPart, subnetPart, if_neg hv, if_pos hv', nil_append, environmentPart,
      environmentPart] at h
    split_ifs at h <;> simp at h
  · rw [subnetPart, subnetPart, if_neg hv, if_neg hv', nil_append, nil_append] at h
    exact ⟨.inr ⟨Bool.eq_false_iff.mpr hv, Bool.eq_false_iff.mpr hv'⟩, h⟩

theorem CacheKey.SameSubnet.subnetPart_eq (h : k.SameSubnet k') :
    k.subnetPart ps.text = k'.subnetPart ps.text := by
  rw [subnetPart, subnetPart]
  rcases h with heq | ⟨hv, hv'⟩
  · rw [heq]
  · simp [hv, hv']

/-- The address says which key was meant, but for what it leaves out. -/
theorem CacheKey.address_eq_iff (hk : k.Plain) (hk' : k'.Plain) :
    k.address ps.text = k'.address ps.text ↔ k.SameButLeftOut k' := by
  constructor
  · intro h
    obtain ⟨hpersistent, hr⟩ := Prod.mk.inj h
    obtain ⟨hname, htype⟩ := Prod.mk.inj hr
    rw [persistentName, persistentName, append_assoc, append_assoc] at hpersistent
    obtain ⟨htag, hparts⟩ := append_inj_of_separated hk hk' (k.separated_parts ps)
      (k'.separated_parts ps) hpersistent
    obtain ⟨hsubnet, he⟩ := CacheKey.subnet_inj ps hparts
    exact ⟨hname, htype, htag, environment_inj he, hsubnet⟩
  · rintro ⟨hname, htype, htag, he, hsubnet⟩
    rw [address, address, persistentName, persistentName, hname, htype, htag,
      hsubnet.subnetPart_eq ps, environmentPart, environmentPart, he]

end

theorem storePersistent_agrees (ps : PrefixString) {α : Type}
    {persistent : List UInt8 × List UInt8 × UInt16 → Option α} {memory : CacheKey → Option α}
    {entry : CacheKey × α} {k : CacheKey} (hentry : entry.1.Plain) (hk : k.Plain)
    (hapart : entry.1.SameButLeftOut k → entry.1 = k)
    (h : persistent (k.address ps.text) = memory k) :
    storePersistent ps.text persistent entry (k.address ps.text) = storeMemory memory entry k := by
  rw [storePersistent, storeMemory]
  by_cases heq : k = entry.1
  · rw [heq, update_self, update_self]
  · have hne : k.address ps.text ≠ entry.1.address ps.text := fun ha =>
      heq (hapart ((CacheKey.address_eq_iff ps hentry hk).mp ha.symm)).symm
    rw [update_of_ne hne, update_of_ne heq, h]

theorem persistentAfter_agrees (ps : PrefixString) {α : Type} {history : List (CacheKey × α)}
    {k : CacheKey} (hk : k.Plain) (hhistory : ∀ entry ∈ history, entry.1.Plain)
    (hapart : ∀ entry ∈ history, entry.1.SameButLeftOut k → entry.1 = k) :
    persistentAfter ps.text history (k.address ps.text) = memoryAfter history k := by
  have hr : ∀ (persistent : List UInt8 × List UInt8 × UInt16 → Option α)
      (memory : CacheKey → Option α), persistent (k.address ps.text) = memory k →
      history.foldl (storePersistent ps.text) persistent (k.address ps.text) =
        history.foldl storeMemory memory k := by
    induction history with
    | nil => exact fun _ _ h => h
    | cons entry history ih =>
      intro persistent memory h
      obtain ⟨hentry, hhistory⟩ := forall_mem_cons.mp hhistory
      obtain ⟨hap, hapart⟩ := forall_mem_cons.mp hapart
      exact ih hhistory hapart _ _ (storePersistent_agrees ps hentry hk hap h)
  exact hr _ _ rfl

/-- **When the two caches distinguish two queries.** For every two keys: the persistent cache keeps
them apart, or they are equal, exactly if they do not differ just in the class and in subnets that
are no valid prefixes; and exactly then the persistent cache serves, after the answer to one of
them is stored, for the other what the memory cache holds for it. -/
theorem address_injective_iff (ps : PrefixString) (k k' : CacheKey) (hk : k.Plain)
    (hk' : k'.Plain) :
    ((k.address ps.text = k'.address ps.text → k = k') ↔
      k = k' ∨ k.name ≠ k'.name ∨ k.qtype ≠ k'.qtype ∨ k.transportTag ≠ k'.transportTag ∨
        k.environment ≠ k'.environment ∨ (k.clientSubnet ≠ k'.clientSubnet ∧
          (k.clientSubnet.isValid = true ∨ k'.clientSubnet.isValid = true))) ∧
    ((k.address ps.text = k'.address ps.text → k = k') ↔
      ∀ (α : Type) (history : List (CacheKey × α)), (∀ entry ∈ history, entry.1 = k) →
        persistentAfter ps.text history (k'.address ps.text) = memoryAfter history k') := by
  rw [CacheKey.address_eq_iff ps hk hk']
  refine ⟨?_, fun h α history hh => ?_, fun h hleft => ?_⟩
  · simp only [CacheKey.SameButLeftOut, CacheKey.SameSubnet]
    rcases hv : k.clientSubnet.isValid <;> rcases hv' : k'.clientSubnet.isValid <;>
      simp <;> tauto
  · exact persistentAfter_agrees ps hk' (fun entry he => hh entry he ▸ hk)
      fun entry he => hh entry he ▸ h
  · by_contra hne
    have hs := h Unit [(k, ())] (by simp)
    have ha := (CacheKey.address_eq_iff ps hk hk').mpr hleft
    rw [← ha, persistentAfter, memoryAfter, foldl_cons, foldl_cons, foldl_nil, foldl_nil,
      storePersistent, storeMemory, update_self, update_of_ne (Ne.symm hne)] at hs
    cases hs

/-- The number of a prefix, with its family in the lowest bit. -/
def prefixNumber (p : Prefix) : ℕ :=
  (p.addr.toNat * 256 + p.bitsPlusOne) * 2 + (if p.addr.is4 then 1 else 0) + 1

theorem prefixNumber_injective {p q : Prefix} (hp : p.isValid) (hq : q.isValid)
    (h : prefixNumber p = prefixNumber q) : p = q := by
  obtain ⟨a, m, hm⟩ := p
  obtain ⟨b, n, hn⟩ := q
  simp only [Prefix.isValid, decide_eq_true_eq] at hp hq
  have ha := hm (by omega)
  have hb := hn (by omega)
  cases a <;> cases b <;>
    simp [prefixNumber, Addr.isValid, Addr.toNat, Addr.is4, Addr.bitLen] at h ha hb ⊢
  · rw [← BitVec.toNat_inj]
    omega
  · omega
  · omega
  · rw [← BitVec.toNat_inj]
    omega

/-- Prefixes written as numbers in base 36. -/
def numberString : PrefixString where
  text p := formatUint (prefixNumber p)
  injective hp hq h := prefixNumber_injective hp hq
    (formatUint_injective (by simp [prefixNumber]) (by simp [prefixNumber]) h)
  noControl p b hb := by
    have key : ∀ d < 36, digitByte d ≠ 0 ∧ digitByte d ≠ 1 := by decide
    rw [formatUint, if_neg (by simp [prefixNumber]), List.mem_reverse, List.mem_map] at hb
    obtain ⟨d, hd, rfl⟩ := hb
    exact key d (Nat.digits_lt_base (by decide) hd)

/-- The key of a question of a given class, from a transport with the tag `t`. -/
def exampleKey (qclass : UInt16) : CacheKey where
  name := [97, 46]
  qtype := 16
  qclass := qclass
  transportTag := [116]
  clientSubnet := .zero
  environment := 5

theorem exampleKey_plain (qclass : UInt16) : (exampleKey qclass).Plain := by
  simp [exampleKey, CacheKey.Plain]

/-- The question for another type has an address of its own, in whatever class it is asked. -/
theorem address_injective_iff_example :
    let k := exampleKey 1
    let k' := { exampleKey 3 with qtype := 1 }
    k.address numberString.text ≠ k'.address numberString.text ∧
      persistentAfter numberString.text [(k, "answer")] (k'.address numberString.text) = none := by
  intro k k'
  have hne : k ≠ k' := by decide
  obtain ⟨hkeys, hcaches⟩ := address_injective_iff numberString k k' (exampleKey_plain 1)
    (exampleKey_plain 3)
  have hapart := hkeys.mpr (.inr (.inr (.inl (by decide))))
  refine ⟨fun ha => hne (hapart ha), ?_⟩
  rw [hcaches.mp hapart String [(k, "answer")] (by simp)]
  decide

/-- Questions that differ in the class only have one address: the answer to one is served for the
other. -/
theorem address_ignores_class :
    exampleKey 1 ≠ exampleKey 3 ∧
    (exampleKey 1).address numberString.text = (exampleKey 3).address numberString.text ∧
    persistentAfter numberString.text [(exampleKey 1, "answer")]
      ((exampleKey 3).address numberString.text) = some "answer" ∧
    memoryAfter [(exampleKey 1, "answer")] (exampleKey 3) = none := by
  have ha : (exampleKey 3).address numberString.text =
      (exampleKey 1).address numberString.text := rfl
  refine ⟨by decide, rfl, ?_, by decide⟩
  rw [persistentAfter, foldl_cons, foldl_nil, storePersistent, ha, update_self]

end SingBox.DNS
