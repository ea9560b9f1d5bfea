import SingBox.DNS.FakeIP

/-!
# The FakeIP store over the cache file

`CacheFile` keeps the records of the FakeIP store in three buckets of a database, and those of
background saves in maps until the saves are done. `Store.Create` writes through `FakeIPStore`,
which returns when its transaction is committed; `FakeIPStoreAsync`, which starts a background save,
has no caller.

Whether the database commits a transaction is a parameter: it refuses blank keys. A key of the
address bucket is what `AsSlice` gives, so the zone of an address is no part of it, and
`M.AddrFromIP` reads the address back from these bytes.
-/

namespace SingBox.DNS.FakeIP.File

open SingBox.Net Foundation Function MemoryStorage

/-! ### The database -/

/-- The buckets of the database. -/
structure Buckets where
  address : Addr → Option String
  domain4 : String → Option Addr
  domain6 : String → Option Addr

/-- Deletes the old domain of an address and puts the new one. -/
def replaceDomain (bucket : String → Option Addr) (oldDomain : Option String) (domain : String)
    (address : Addr) : String → Option Addr :=
  let bucket := match oldDomain with
    | none => bucket
    | some oldDomain => Function.update bucket oldDomain none
  Function.update bucket domain (some address)

/-- The transaction of `FakeIPStore`. -/
def Buckets.put (b : Buckets) (address : Addr) (domain : String) : Buckets :=
  let oldDomain := b.address address
  let b := { b with address := Function.update b.address address (some domain) }
  if address.is4 then { b with domain4 := replaceDomain b.domain4 oldDomain domain address }
  else { b with domain6 := replaceDomain b.domain6 oldDomain domain address }

/-- Which transactions of `FakeIPStore` are committed: `Put` fails on a blank key, and
the zero address has no bytes. -/
structure Bolt where
  commits : Addr → String → Bool
  commits_invalid : ∀ domain, commits .invalid domain = false
  commits_blank : ∀ address, commits address "" = false

/-! ### The cache file -/

/-- A goroutine of `FakeIPStoreAsync`; `saved` after its transaction. -/
structure Save where
  address : Addr
  domain : String
  saved : Bool
deriving DecidableEq, Repr

/-- `CacheFile`, as far as FakeIP uses it. -/
structure CacheFile where
  db : Buckets
  saveDomain : Addr → Option String := fun _ => none
  saveAddress4 : String → Option Addr := fun _ => none
  saveAddress6 : String → Option Addr := fun _ => none
  saves : List Save := []

namespace CacheFile

variable (B : Bolt) (c : CacheFile)

/-- `CacheFile.FakeIPStore`; `none` when the transaction fails. -/
def fakeIPStore (address : Addr) (domain : String) : Option CacheFile :=
  if B.commits address domain then some { c with db := c.db.put address domain } else none

/-- The entry of a domain in the map of a family is set. -/
def setSaveAddress (isIPv4 : Bool) (domain : String) (address : Option Addr) : CacheFile :=
  if isIPv4 then { c with saveAddress4 := Function.update c.saveAddress4 domain address }
  else { c with saveAddress6 := Function.update c.saveAddress6 domain address }

/-- The transaction of the `i`-th background save. -/
def saveTransaction (i : ℕ) : CacheFile :=
  match c.saves[i]? with
  | some ⟨address, domain, false⟩ =>
    let c := (c.fakeIPStore B address domain).getD c
    { c with saves := c.saves.set i ⟨address, domain, true⟩ }
  | _ => c

/-- The `i`-th background save removes its entries and ends. -/
def saveRemove (i : ℕ) : CacheFile :=
  match c.saves[i]? with
  | some ⟨address, domain, true⟩ =>
    let c := { c with saveDomain := Function.update c.saveDomain address none }
    let c := c.setSaveAddress address.is4 domain none
    { c with saves := c.saves.eraseIdx i }
  | _ => c

/-- `CacheFile.FakeIPLoad`. No key of the map has a zone; the key of the bucket loses it. -/
def fakeIPLoad (address : ZonedAddr) : Option String :=
  match (if address.zone = "" then c.saveDomain address.addr else none) with
  | some cachedDomain => some cachedDomain
  | none => (c.db.address address.addr).filter fun domain => domain ≠ ""

/-- `CacheFile.FakeIPLoadDomain`. -/
def fakeIPLoadDomain (domain : String) (isIPv6 : Bool) : Option Addr :=
  match (if !isIPv6 then c.saveAddress4 domain else c.saveAddress6 domain) with
  | some cachedAddress => some cachedAddress
  | none =>
    (if isIPv6 then c.db.domain6 domain else c.db.domain4 domain).filter Addr.isValid

/-- `CacheFile.FakeIPReset`: background saves and their entries stay. -/
def fakeIPReset : CacheFile :=
  { c with db := ⟨fun _ => none, fun _ => none, fun _ => none⟩ }

end CacheFile

/-! ### The store -/

/-- `Store` over the cache file. -/
structure FileStore where
  /-- The ranges and the cursors; the records are in `storage`. -/
  pool : Store
  storage : CacheFile

/-- `Store.Start` with a cache file that was just opened and whose metadata, if it has any, are of
other ranges. -/
def startFile (inet4Range inet6Range : Prefix) (db : Buckets) : FileStore where
  pool := (newStore inet4Range inet6Range).start
  storage := CacheFile.fakeIPReset { db := db }

namespace FileStore

/-- `Store.Create`: a failed transaction is only logged. -/
def create (B : Bolt) (s : FileStore) (domain : String) (isIPv6 : Bool) :
    Except String Addr × FileStore :=
  match s.storage.fakeIPLoadDomain domain isIPv6 with
  | some address => (.ok address, s)
  | none =>
    match s.pool.allocate isIPv6 with
    | .error err => (.error err, s)
    | .ok address =>
      (.ok address,
        { pool := s.pool.setCurrent isIPv6 address
          storage := (s.storage.fakeIPStore B address domain).getD s.storage })

/-- `Store.Lookup`. -/
def lookup (s : FileStore) (address : ZonedAddr) : Option String := s.storage.fakeIPLoad address

/-- `Store.Reset`. -/
def reset (s : FileStore) : FileStore := { s with storage := s.storage.fakeIPReset }

end FileStore

/-- The calls of a store, and the steps of the background saves. -/
inductive Event
  | create (domain : String) (isIPv6 : Bool)
  | lookup (address : ZonedAddr)
  | reset
  | saveTransaction (i : ℕ)
  | saveRemove (i : ℕ)

/-- What a call returns. -/
inductive Answer
  | created (result : Except String Addr)
  | looked (domain : Option String)
  | nothing
deriving DecidableEq

/-- The store after an event. -/
def step (B : Bolt) (s : FileStore) : Event → FileStore
  | .create domain isIPv6 => (s.create B domain isIPv6).2
  | .lookup _ => s
  | .reset => s.reset
  | .saveTransaction i => { s with storage := s.storage.saveTransaction B i }
  | .saveRemove i => { s with storage := s.storage.saveRemove i }

/-- What a call of the store returns. -/
def answer (B : Bolt) (s : FileStore) : Event → Answer
  | .create domain isIPv6 => .created (s.create B domain isIPv6).1
  | .lookup address => .looked (s.lookup address)
  | _ => .nothing

/-- The store over `MemoryStorage` after an event; it has no background saves. -/
def memoryStep (s : Store) : Event → Store
  | .create domain isIPv6 => (s.create domain isIPv6).2
  | .reset => s.reset
  | _ => s

/-- What a call of the store over `MemoryStorage` returns. The map is keyed by the whole address,
and no key has a zone. -/
def memoryAnswer (s : Store) : Event → Answer
  | .create domain isIPv6 => .created (s.create domain isIPv6).1
  | .lookup address => .looked (if address.zone = "" then s.lookup address.addr else none)
  | _ => .nothing

/-- The transaction of an event, if it has one, succeeds. -/
def Succeeds (B : Bolt) (s : FileStore) : Event → Prop
  | .create domain isIPv6 =>
    match s.storage.fakeIPLoadDomain domain isIPv6, s.pool.allocate isIPv6 with
    | none, .ok address => B.commits address domain = true
    | _, _ => True
  | .saveTransaction i => ∀ save ∈ s.storage.saves[i]?, B.commits save.address save.domain = true
  | _ => True

/-- The event is not the lookup of an address with a zone. -/
def Zoneless : Event → Prop
  | .lookup address => address.zone = ""
  | _ => True

/-! ### The records of both storages -/

/-- The maps of a `MemoryStorage` as buckets. -/
def toBuckets (m : MemoryStorage) : Buckets := ⟨m.addressCache, m.domainCache4, m.domainCache6⟩

/-- The transaction does to the buckets what `MemoryStorage` does to its maps. -/
theorem toBuckets_fakeIPStore (m : MemoryStorage) (address : Addr) (domain : String) :
    toBuckets (m.fakeIPStore address domain) = (toBuckets m).put address domain := by
  have ho : (toBuckets m).address address = m.addressCache address := rfl
  unfold fakeIPStore Buckets.put
  rw [ho]
  cases m.addressCache address <;> cases address.is4 <;> rfl

/-- No record has a blank domain or the zero address, which loading takes for a missing record. -/
structure Buckets.Sound (b : Buckets) : Prop where
  address : ∀ a, b.address a ≠ some ""
  domain4 : ∀ d, b.domain4 d ≠ some .invalid
  domain6 : ∀ d, b.domain6 d ≠ some .invalid

theorem Buckets.sound_empty : Sound ⟨fun _ => none, fun _ => none, fun _ => none⟩ where
  address := by simp
  domain4 := by simp
  domain6 := by simp

variable {domain : String} {bucket : String → Option Addr} {address : Addr}

theorem replaceDomain_ne_invalid {oldDomain : Option String} (h : ∀ d, bucket d ≠ some .invalid)
    (ha : address ≠ .invalid) (d : String) :
    replaceDomain bucket oldDomain domain address d ≠ some .invalid := by
  unfold replaceDomain
  by_cases hd : d = domain
  · rw [hd, update_self]
    exact fun h => ha (Option.some.inj h)
  · rw [update_of_ne hd]
    cases oldDomain with
    | none => exact h d
    | some old =>
      dsimp only
      rw [update_apply]
      split_ifs
      · exact fun h => nomatch h
      · exact h d

theorem Buckets.Sound.put {b : Buckets} (h : b.Sound) (ha : address ≠ .invalid) (hd : domain ≠ "") :
    (b.put address domain).Sound := by
  have had : ∀ a, update b.address address (some domain) a ≠ some "" := by
    intro a
    rw [update_apply]
    split_ifs
    · exact fun h => hd (Option.some.inj h)
    · exact h.address a
  unfold Buckets.put
  cases address.is4 with
  | true => exact ⟨had, replaceDomain_ne_invalid h.domain4 ha, h.domain6⟩
  | false => exact ⟨had, h.domain4, replaceDomain_ne_invalid h.domain6 ha⟩

/-- The cache file holds the records of a `MemoryStorage` and has no background save. -/
structure Matches (c : CacheFile) (m : MemoryStorage) : Prop where
  db : c.db = toBuckets m
  sound : c.db.Sound
  saveDomain : c.saveDomain = fun _ => none
  saveAddress4 : c.saveAddress4 = fun _ => none
  saveAddress6 : c.saveAddress6 = fun _ => none
  saves : c.saves = []

namespace Matches

variable {B : Bolt} {c : CacheFile} {m : MemoryStorage}

theorem fakeIPLoad (h : Matches c m) {address : ZonedAddr} (hz : address.zone = "") :
    c.fakeIPLoad address = m.fakeIPLoad address.addr := by
  have hdb : c.db.address address.addr = m.addressCache address.addr := by rw [h.db, toBuckets]
  have hb := h.sound.address address.addr
  rw [CacheFile.fakeIPLoad, if_pos hz, h.saveDomain, MemoryStorage.fakeIPLoad, ← hdb]
  cases hd : c.db.address address.addr with
  | none => rfl
  | some domain =>
    have hne : domain ≠ "" := fun he => hb (he ▸ hd)
    simp [hne]

theorem filter_isValid (h : ∀ d, bucket d ≠ some .invalid) (domain : String) :
    (bucket domain).filter Addr.isValid = bucket domain := by
  cases hd : bucket domain with
  | none => rfl
  | some address =>
    cases address with
    | invalid => exact absurd hd (h domain)
    | v4 a => rfl
    | v6 a => rfl

variable (h : Matches c m)

include h

theorem fakeIPLoadDomain (domain : String) (isIPv6 : Bool) :
    c.fakeIPLoadDomain domain isIPv6 = m.fakeIPLoadDomain domain isIPv6 := by
  rw [CacheFile.fakeIPLoadDomain, MemoryStorage.fakeIPLoadDomain, h.saveAddress4, h.saveAddress6]
  cases isIPv6 with
  | false =>
    have h4 : c.db.domain4 = m.domainCache4 := by rw [h.db, toBuckets]
    rw [← h4]
    exact filter_isValid h.sound.domain4 domain
  | true =>
    have h6 : c.db.domain6 = m.domainCache6 := by rw [h.db, toBuckets]
    rw [← h6]
    exact filter_isValid h.sound.domain6 domain

theorem fakeIPStore (hc : B.commits address domain) :
    Matches ((c.fakeIPStore B address domain).getD c) (m.fakeIPStore address domain) := by
  have ha : address ≠ .invalid := by
    rintro rfl
    rw [B.commits_invalid] at hc
    cases hc
  have hd : domain ≠ "" := by
    rintro rfl
    rw [B.commits_blank] at hc
    cases hc
  rw [CacheFile.fakeIPStore, if_pos hc, Option.getD_some]
  refine ⟨?_, h.sound.put ha hd, h.saveDomain, h.saveAddress4, h.saveAddress6, h.saves⟩
  rw [toBuckets_fakeIPStore, ← h.db]

theorem fakeIPReset : Matches c.fakeIPReset m.fakeIPReset where
  __ := h
  db := rfl
  sound := Buckets.sound_empty

theorem saveTransaction (i : ℕ) : c.saveTransaction B i = c := by
  simp [CacheFile.saveTransaction, h.saves]

theorem saveRemove (i : ℕ) : c.saveRemove i = c := by
  simp [CacheFile.saveRemove, h.saves]

end Matches

/-! ### Whole runs -/

/-- A store over the cache file and one over `MemoryStorage` with the same cursors and records. -/
structure StoresMatch (s : FileStore) (t : Store) : Prop where
  pool : t = { s.pool with storage := t.storage }
  storage : Matches s.storage t.storage

namespace StoresMatch

variable {B : Bolt} {s : FileStore} {t : Store} (h : StoresMatch s t)

include h

theorem allocate (isIPv6 : Bool) : t.allocate isIPv6 = s.pool.allocate isIPv6 := by
  rw [h.pool]
  rfl

theorem setCurrent (isIPv6 : Bool) (address : Addr) (storage : MemoryStorage) :
    { t.setCurrent isIPv6 address with storage := storage } =
      { s.pool.setCurrent isIPv6 address with storage := storage } := by
  rw [h.pool]
  cases isIPv6 <;> rfl

theorem create {isIPv6 : Bool} (hok : Succeeds B s (.create domain isIPv6)) :
    (s.create B domain isIPv6).1 = (t.create domain isIPv6).1 ∧
      StoresMatch (s.create B domain isIPv6).2 (t.create domain isIPv6).2 := by
  have hlo := h.storage.fakeIPLoadDomain domain isIPv6
  rw [Succeeds] at hok
  rw [FileStore.create, Store.create, ← hlo, h.allocate]
  cases hl : s.storage.fakeIPLoadDomain domain isIPv6 with
  | some address => exact ⟨rfl, h⟩
  | none =>
    cases ha : s.pool.allocate isIPv6 with
    | error err => exact ⟨rfl, h⟩
    | ok address =>
      rw [hl, ha] at hok
      have hs : (t.setCurrent isIPv6 address).storage = t.storage := by
        cases isIPv6 <;> rfl
      refine ⟨rfl, h.setCurrent isIPv6 address _, ?_⟩
      dsimp only
      rw [hs]
      exact h.storage.fakeIPStore hok

theorem step {e : Event} (hok : Succeeds B s e) : StoresMatch (step B s e) (memoryStep t e) := by
  cases e with
  | create domain isIPv6 => exact (h.create hok).2
  | lookup address => exact h
  | reset =>
    refine ⟨?_, h.storage.fakeIPReset⟩
    rw [memoryStep, Store.reset, h.pool]
    rfl
  | saveTransaction i =>
    rw [File.step, h.storage.saveTransaction]
    exact h
  | saveRemove i =>
    rw [File.step, h.storage.saveRemove]
    exact h

theorem answer {e : Event} (hok : Succeeds B s e) (hz : Zoneless e) :
    answer B s e = memoryAnswer t e := by
  cases e with
  | create domain isIPv6 => rw [File.answer, memoryAnswer, (h.create hok).1]
  | lookup address =>
    have hz : address.zone = "" := hz
    rw [File.answer, memoryAnswer, if_pos hz, FileStore.lookup, Store.lookup,
      h.storage.fakeIPLoad hz]
  | reset => rfl
  | saveTransaction i => rfl
  | saveRemove i => rfl

end StoresMatch

theorem storesMatch_start (inet4Range inet6Range : Prefix) (db : Buckets) :
    StoresMatch (startFile inet4Range inet6Range db) (newStore inet4Range inet6Range).start where
  pool := rfl
  storage :=
    { db := rfl
      sound := Buckets.sound_empty
      saveDomain := rfl
      saveAddress4 := rfl
      saveAddress6 := rfl
      saves := rfl }

theorem run_storesMatch (B : Bolt) (inet4Range inet6Range : Prefix) (db : Buckets)
    (events : ℕ → Event)
    (hok : ∀ n, Succeeds B (run (step B) (startFile inet4Range inet6Range db) events n) (events n))
    (n : ℕ) : StoresMatch (run (step B) (startFile inet4Range inet6Range db) events n)
      (run memoryStep (newStore inet4Range inet6Range).start events n) := by
  induction n with
  | zero => exact storesMatch_start inet4Range inet6Range db
  | succ n ih => exact ih.step (hok n)

/-- In every run whose transactions succeed, with whatever steps of background saves in between,
every `Create` and every `Lookup` of an address without a zone returns over the cache file what it
returns over `MemoryStorage`. -/
theorem run_answer_eq (B : Bolt) (inet4Range inet6Range : Prefix) (db : Buckets)
    (events : ℕ → Event)
    (hok : ∀ n, Succeeds B (run (step B) (startFile inet4Range inet6Range db) events n) (events n))
    (n : ℕ) (hzone : Zoneless (events n)) :
    answer B (run (step B) (startFile inet4Range inet6Range db) events n) (events n) =
      memoryAnswer (run memoryStep (newStore inet4Range inet6Range).start events n) (events n) := by
  exact (run_storesMatch B inet4Range inet6Range db events hok n).answer (hok n) hzone

instance (B : Bolt) (s : FileStore) (e : Event) : Decidable (Succeeds B s e) := by
  cases e with
  | create domain isIPv6 =>
    simp only [Succeeds]
    cases s.storage.fakeIPLoadDomain domain isIPv6 with
    | some address => exact instDecidableTrue
    | none =>
      cases s.pool.allocate isIPv6 with
      | error err => exact instDecidableTrue
      | ok address => exact instDecidableEqBool (B.commits address domain) true
  | saveTransaction i =>
    simp only [Succeeds]
    cases s.storage.saves[i]? with
    | none => exact .isTrue fun _ h => nomatch h
    | some save =>
      exact decidable_of_iff (B.commits save.address save.domain = true) (by simp)
  | lookup _ => exact instDecidableTrue
  | reset => exact instDecidableTrue
  | saveRemove _ => exact instDecidableTrue

/-- A database that commits whatever has keys of the allowed sizes. -/
def healthy : Bolt where
  commits address domain :=
    address.isValid && decide (0 < domain.utf8ByteSize ∧ domain.utf8ByteSize ≤ 32768)
  commits_invalid _ := rfl
  commits_blank _ := by simp

/-- An address without a zone. -/
def ZonedAddr.ofAddr (addr : Addr) : ZonedAddr := ⟨addr, "", fun _ => rfl⟩

/-- Six domains in a range with five usable addresses, over a file with records of other ranges: the
address of the first domain belongs to the sixth. -/
theorem run_answer_eq_wrap :
    let inet4Range := Prefix.prefixFrom (.v4 0xc6120000#32) 29
    let db : Buckets := ⟨fun _ => some "old", fun _ => none, fun _ => none⟩
    let events : ℕ → Event := fun n =>
      [.create "a" false, .create "b" false, .create "c" false, .create "d" false,
        .create "e" false, .create "f" false, .lookup (.ofAddr (.v4 0xc6120002#32))].getD n .reset
    answer healthy (run (step healthy) (startFile inet4Range .zero db) events 6) (events 6) =
        memoryAnswer (run memoryStep (newStore inet4Range .zero).start events 6) (events 6) ∧
      memoryAnswer (run memoryStep (newStore inet4Range .zero).start events 6) (events 6) =
        .looked (some "f") := by
  intro inet4Range db events
  refine ⟨run_answer_eq healthy inet4Range .zero db events ?_ 6 rfl, by decide +kernel⟩
  exact forall_getD _ _ (by decide +kernel) fun _ => trivial

/-- The lookup of an address with a zone finds the record of the address in the cache file, and none
in `MemoryStorage`. -/
theorem lookup_zone_ne :
    let inet6Range := Prefix.prefixFrom (.v6 0xfc000000000000000000000000000000#128) 18
    let address : ZonedAddr :=
      ⟨.v6 0xfc000000000000000000000000000002#128, "eth0", fun h => absurd rfl (h _)⟩
    let db : Buckets := ⟨fun _ => none, fun _ => none, fun _ => none⟩
    let events : ℕ → Event := fun n => if n = 0 then .create "a" true else .lookup address
    (∀ n, Succeeds healthy (run (step healthy) (startFile .zero inet6Range db) events n)
        (events n)) ∧
      answer healthy (run (step healthy) (startFile .zero inet6Range db) events 1) (events 1) =
        .looked (some "a") ∧
      memoryAnswer (run memoryStep (newStore .zero inet6Range).start events 1) (events 1) =
        .looked none := by
  intro inet6Range address db events
  refine ⟨fun n => ?_, by decide +kernel, by decide +kernel⟩
  cases n with
  | zero => decide +kernel
  | succ n => trivial

end SingBox.DNS.FakeIP.File
