import Mathlib

/-!
# Times to live of DNS answers

The DNS client computes one TTL for a response, writes it into every record, and stores the response
in one of two caches until that time has passed. An answer from the cache gets the rest of it. In
the computation of the minimum `0` also means that nothing was seen yet; a response without answers
takes its TTL from the first SOA record of the authority section, and looks at nothing else.

Instants and durations are numbers of nanoseconds. The rounding of a duration to seconds, which goes
through a floating-point number, and the expiry that the LRU cache gives to an entry are parameters.
-/

namespace SingBox.DNS.TimeToLive

open List

/-- A resource record, as far as its TTL is concerned. -/
structure Record where
  rrtype : ℕ
  /-- The UDP size, in an OPT record. -/
  rrclass : ℕ
  ttl : ℕ
  soa : Option ℕ
deriving DecidableEq, Repr

/-- `dns.TypeOPT`. -/
def typeOPT : ℕ := 41

def Record.isOPT (r : Record) : Bool := r.rrtype = typeOPT

/-- `Version` of an OPT record. -/
def Record.version (r : Record) : ℕ := r.ttl / 2 ^ 16 % 2 ^ 8

/-- `Do` of an OPT record. -/
def Record.isDo (r : Record) : Bool := r.ttl / 2 ^ 15 % 2 = 1

/-- `dns.Msg`. -/
structure Message where
  rcode : ℕ
  answer : List Record
  ns : List Record
  extra : List Record
deriving DecidableEq, Repr

/-- The records of all sections, in the order in which the client goes through them. -/
def Message.records (m : Message) : List Record := m.answer ++ m.ns ++ m.extra

/-- `Rcode` is neither success nor a name error. -/
def Message.failed (m : Message) : Bool := m.rcode ≠ 0 && m.rcode ≠ 3

def extractNegativeTTL (m : Message) : Option ℕ :=
  m.ns.findSome? fun r => r.soa.map fun minimum => if r.ttl < minimum then r.ttl else minimum

/-- One round of the loop of `computeTimeToLive`. -/
def lowerTTL (timeToLive : ℕ) (r : Record) : ℕ :=
  if r.isOPT then timeToLive
  else if timeToLive = 0 ∨ (r.ttl > 0 ∧ r.ttl < timeToLive) then r.ttl
  else timeToLive

def computeTimeToLive (m : Message) : ℕ :=
  match if m.answer = [] then extractNegativeTTL m else none with
  | some soaTTL => soaTTL
  | none => m.records.foldl lowerTTL 0

/-- The TTL of a record in `normalizeTTL`. -/
def Record.setTTL (timeToLive : ℕ) (r : Record) : Record :=
  if r.isOPT then r else { r with ttl := timeToLive }

def normalizeTTL (m : Message) (timeToLive : ℕ) : Message :=
  { m with
    answer := m.answer.map (Record.setTTL timeToLive)
    ns := m.ns.map (Record.setTTL timeToLive)
    extra := m.extra.map (Record.setTTL timeToLive) }

/-- One second. -/
def second : ℕ := 10 ^ 9

/-- What the client relies on. -/
structure Runtime where
  /-- `int(d.Seconds())`. The quotient is a floating-point number, and may be rounded up. -/
  seconds : ℕ → ℕ
  seconds_le : ∀ d, seconds d ≤ (d + (second - 1)) / second
  /-- The expiry of an entry that is added to the LRU cache with a lifetime. -/
  lruExpiry : ℕ → ℕ → ℕ
  lruExpiry_le : ∀ now lifetime, lruExpiry now lifetime ≤ now + lifetime

inductive Backend
  | memory
  | file
deriving DecidableEq, Repr

/-- The options of a client. -/
structure Client where
  backend : Backend
  disableExpire : Bool
  optimisticTimeout : ℕ
deriving DecidableEq, Repr

/-- A response in a cache. -/
structure Cached where
  message : Message
  expireAt : ℕ
deriving DecidableEq, Repr

/-- `storeCache` at the instant `now`; `packs`: the message can be packed. -/
def storeCache (rt : Runtime) (c : Client) (packs : Bool) (now : ℕ) (m : Message)
    (timeToLive : ℕ) : Option Cached :=
  if timeToLive = 0 then none
  else
    match c.backend with
    | .file => if packs then some ⟨m, now + timeToLive * second⟩ else none
    | .memory =>
      if c.disableExpire then some ⟨m, 0⟩
      else some ⟨m, rt.lruExpiry now (timeToLive * second)⟩

/-- The expiry as the cache returns it. The file has seconds, once the entry is written. -/
def Cached.loadedExpiry (c : Client) (flushed : Bool) (entry : Cached) : ℕ :=
  match c.backend with
  | .file => if flushed then entry.expireAt / second * second else entry.expireAt
  | .memory => entry.expireAt

/-- An answer from the cache. -/
structure Served where
  message : Message
  ttl : ℕ
  isStale : Bool
deriving DecidableEq, Repr

/-- `loadResponse` at the instant `now`, of an entry that the cache has. -/
def loadResponse (rt : Runtime) (c : Client) (flushed : Bool) (now : ℕ) (entry : Cached) :
    Option Served :=
  let expireAt := entry.loadedExpiry c flushed
  if c.disableExpire then some ⟨entry.message, 0, false⟩
  else if now > expireAt then
    if c.optimisticTimeout > 0 ∧ now < expireAt + c.optimisticTimeout then
      some ⟨normalizeTTL entry.message 1, 0, true⟩
    else none
  else
    let nowTTL := rt.seconds (expireAt - now)
    some ⟨normalizeTTL entry.message nowTTL, nowTTL, false⟩

/-- What a query comes with. -/
structure Operation where
  disableCache : Bool
  rewriteTTL : Option ℕ
  responseChecker : Option (Message → Bool)
  /-- The environment has not changed since the query began. -/
  storable : Bool
  packs : Bool
  /-- The OPT record of the query. -/
  edns : Option Record

/-- `applyResponseOptions`, as far as it changes TTLs. -/
def applyResponseOptions (m : Message) (o : Operation) : Message × ℕ :=
  let timeToLive := o.rewriteTTL.getD (computeTimeToLive m)
  (normalizeTTL m timeToLive, timeToLive)

/-- `IsEdns0`: the last OPT record of the additional section. -/
def Message.isEdns0 (m : Message) : Option Record := m.extra.reverse.find? Record.isOPT

def Message.setEdns0 (m : Message) (udpSize : ℕ) (isDo : Bool) : Message :=
  { m with extra := m.extra ++ [⟨typeOPT, udpSize, if isDo then 2 ^ 15 else 0, none⟩] }

/-- The OPT records of the answer are made to fit the query. -/
def adjustEDNS (m : Message) (edns : Option Record) : Message :=
  match m.isEdns0 with
  | none => m
  | some responseOpt =>
    let stripped := { m with extra := m.extra.filter fun r => !r.isOPT }
    match edns with
    | none => stripped
    | some requestOpt =>
      if requestOpt.version < responseOpt.version then
        stripped.setEdns0 responseOpt.rrclass responseOpt.isDo
      else m

/-- `finishExchange` at the instant `now`: the answer, unless it is rejected, and what is stored. -/
def finishExchange (rt : Runtime) (c : Client) (o : Operation) (now : ℕ) (response : Message) :
    Option Message × Option Cached :=
  let rejected := o.responseChecker.any fun check => response.failed || !check response
  if rejected then (none, none)
  else
    let applied := applyResponseOptions response o
    let stored :=
      if o.disableCache || response.failed || !o.storable then none
      else storeCache rt c o.packs now applied.1 applied.2
    (some (adjustEDNS applied.1 o.edns), stored)

/-! ### The property and the condition -/

/-- The records other than OPT records, which have no TTL. -/
def Message.proper (m : Message) : List Record := m.records.filter fun r => !r.isOPT

/-- Every record of the answer has at most the TTL it arrived with, less `t` seconds. -/
def WithinTTL (t : ℕ) (arrived given : Message) : Prop :=
  List.Forall₂ (fun a g => g.ttl + t ≤ a.ttl) arrived.proper given.proper

/-- Whatever a query without `rewrite_ttl` does with a response that arrives: the answer to the
query is within the TTLs of the response; if it is stored, it has no record with TTL zero, and an
answer from the cache that is not stale is within the TTLs less the seconds that have passed. -/
def NeverOutlives (rt : Runtime) (m : Message) : Prop :=
  ∀ (c : Client) (o : Operation) (arrival : ℕ), c.disableExpire = false → o.rewriteTTL = none →
    (∀ given, (finishExchange rt c o arrival m).1 = some given → WithinTTL 0 m given) ∧
    ∀ entry, (finishExchange rt c o arrival m).2 = some entry →
      (∀ r ∈ m.proper, r.ttl ≠ 0) ∧
      ∀ flushed now served, arrival ≤ now → loadResponse rt c flushed now entry = some served →
        served.isStale = false → WithinTTL ((now - arrival) / second) m served.message

/-- The record that a negative response takes its TTL from. -/
def Message.negativeSOA (m : Message) : Option Record :=
  if m.answer = [] then m.ns.find? fun r => r.soa.isSome else none

/-- In a negative response with a SOA record no other record has a TTL below the smaller one of its
TTL and its minimum; in all others no record with TTL zero meets one with another TTL. -/
def Message.Uniform (m : Message) : Prop :=
  match m.negativeSOA with
  | some r => ∀ r' ∈ m.proper, min r.ttl (r.soa.getD 0) ≤ r'.ttl
  | none => (∀ r ∈ m.proper, r.ttl = 0) ∨ ∀ r ∈ m.proper, 0 < r.ttl

/-! ### The common TTL -/

theorem extractNegativeTTL_eq (m : Message) : extractNegativeTTL m =
      (m.ns.find? fun r => r.soa.isSome).map fun r => min r.ttl (r.soa.getD 0) := by
  unfold extractNegativeTTL
  induction m.ns with
  | nil => rfl
  | cons r rs ih =>
    cases hs : r.soa with
    | none => simpa [findSome?_cons, find?_cons, hs] using ih
    | some minimum =>
      simp only [findSome?_cons, find?_cons, hs, Option.map_some, Option.isSome_some,
        Option.getD_some, Option.some.injEq]
      split_ifs <;> omega

open Message

theorem computeTimeToLive_eq (m : Message) :
    computeTimeToLive m =
      match m.negativeSOA with
      | some r => min r.ttl (r.soa.getD 0)
      | none => m.records.foldl lowerTTL 0 := by
  unfold computeTimeToLive negativeSOA
  by_cases ha : m.answer = []
  · rw [if_pos ha, if_pos ha, extractNegativeTTL_eq]
    cases m.ns.find? fun r => r.soa.isSome <;> rfl
  · rw [if_neg ha, if_neg ha]

variable {m : Message}

theorem mem_proper {r : Record} : r ∈ m.proper ↔ r ∈ m.records ∧ r.isOPT = false := by
  simp [proper]

variable {rt : Runtime} {rs : List Record}

theorem foldl_lowerTTL_eq_zero {timeToLive : ℕ} (h : rs.foldl lowerTTL timeToLive = 0) :
    timeToLive = 0 ∧ ∀ r ∈ rs, r.isOPT = false → r.ttl = 0 := by
  induction rs generalizing timeToLive with
  | nil => exact ⟨h, nofun⟩
  | cons r rs ih =>
    obtain ⟨h0, hr⟩ := ih h
    have hh : timeToLive = 0 ∧ (r.isOPT = false → r.ttl = 0) := by
      unfold lowerTTL at h0
      cases ho : r.isOPT with
      | true => simpa [ho] using h0
      | false =>
        simp only [ho, Bool.false_eq_true, if_false] at h0
        split_ifs at h0 with hl
        · refine ⟨?_, fun _ => h0⟩
          rcases hl with hu | ⟨hpos, -⟩
          · exact hu
          · omega
        · omega
    refine ⟨hh.1, fun r' hr' => ?_⟩
    rcases mem_cons.mp hr' with rfl | hr'
    · exact hh.2
    · exact hr r' hr'

theorem foldl_lowerTTL_of_zero (h : ∀ r ∈ rs, r.isOPT = false → r.ttl = 0) :
    rs.foldl lowerTTL 0 = 0 := by
  induction rs with
  | nil => rfl
  | cons r rs ih =>
    have hh : lowerTTL 0 r = 0 := by
      unfold lowerTTL
      cases ho : r.isOPT with
      | true => rfl
      | false => simp [h r mem_cons_self ho]
    rw [foldl_cons, hh]
    exact ih fun r' hr' => h r' (mem_cons_of_mem _ hr')

open Nat

theorem foldl_lowerTTL_le (h : ∀ r ∈ rs, r.isOPT = false → 0 < r.ttl) (timeToLive : ℕ) :
    (timeToLive ≠ 0 → rs.foldl lowerTTL timeToLive ≤ timeToLive) ∧
      ∀ r ∈ rs, r.isOPT = false → rs.foldl lowerTTL timeToLive ≤ r.ttl := by
  induction rs generalizing timeToLive with
  | nil => exact ⟨fun _ => le_refl _, nofun⟩
  | cons r rs ih =>
    obtain ⟨hst, hr⟩ := ih (fun r' hr' => h r' (mem_cons_of_mem _ hr')) (lowerTTL timeToLive r)
    have hl : (timeToLive ≠ 0 → lowerTTL timeToLive r ≠ 0 ∧ lowerTTL timeToLive r ≤ timeToLive) ∧
        (r.isOPT = false → lowerTTL timeToLive r ≠ 0 ∧ lowerTTL timeToLive r ≤ r.ttl) := by
      unfold lowerTTL
      cases ho : r.isOPT with
      | true => simp
      | false =>
        have hpos := h r mem_cons_self ho
        simp only [Bool.false_eq_true, if_false]
        split_ifs with hc
        · omega
        · omega
    rw [foldl_cons]
    refine ⟨fun hne => ?_, fun r' hr' ho => ?_⟩
    · obtain ⟨hne', hle⟩ := hl.1 hne
      exact le_trans (hst hne') hle
    · rcases mem_cons.mp hr' with rfl | hr'
      · obtain ⟨hne', hle⟩ := hl.2 ho
        exact le_trans (hst hne') hle
      · exact hr r' hr' ho

theorem uniform_iff (m : Message) : m.Uniform ↔ ∀ r ∈ m.proper, computeTimeToLive m ≤ r.ttl := by
  rw [computeTimeToLive_eq, Message.Uniform]
  cases m.negativeSOA with
  | some soa => exact Iff.rfl
  | none =>
    dsimp only
    constructor
    · rintro (h0 | hpos) r hr
      · rw [foldl_lowerTTL_of_zero fun r hr ho => h0 r (mem_proper.mpr ⟨hr, ho⟩)]
        exact zero_le _
      · obtain ⟨hm, ho⟩ := mem_proper.mp hr
        exact (foldl_lowerTTL_le (fun r hr ho => hpos r (mem_proper.mpr ⟨hr, ho⟩)) 0).2 r hm ho
    · intro hle
      by_cases h0 : m.records.foldl lowerTTL 0 = 0
      · left
        intro r hr
        obtain ⟨hm, ho⟩ := mem_proper.mp hr
        exact (foldl_lowerTTL_eq_zero h0).2 r hm ho
      · right
        intro r hr
        exact lt_of_lt_of_le (pos_of_ne_zero h0) (hle r hr)

/-! ### Answers -/

theorem isOPT_setTTL (timeToLive : ℕ) (r : Record) : (r.setTTL timeToLive).isOPT = r.isOPT := by
  unfold Record.setTTL
  split_ifs <;> rfl

theorem proper_normalizeTTL (m : Message) (timeToLive : ℕ) :
    (normalizeTTL m timeToLive).proper = m.proper.map fun r => { r with ttl := timeToLive } := by
  have hre : (normalizeTTL m timeToLive).records = m.records.map (Record.setTTL timeToLive) := by
    simp [normalizeTTL, records]
  have hc : ((fun r : Record => !r.isOPT) ∘ Record.setTTL timeToLive) = fun r => !r.isOPT := by
    funext r
    exact congrArg not (isOPT_setTTL timeToLive r)
  rw [proper, hre, filter_map, hc, proper]
  refine map_congr_left fun r hr => ?_
  have ho := (mem_proper.mp hr).2
  rw [Record.setTTL, if_neg (by rw [ho]; exact Bool.false_ne_true)]

theorem proper_adjustEDNS (m : Message) (edns : Option Record) :
    (adjustEDNS m edns).proper = m.proper := by
  unfold adjustEDNS
  cases m.isEdns0 with
  | none => rfl
  | some responseOpt =>
    have hs : ∀ extra : List Record, (∀ r ∈ extra, r.isOPT = true) →
        proper { m with extra := (m.extra.filter fun r => !r.isOPT) ++ extra } =
          m.proper := by
      intro extra he
      have hn : extra.filter (fun r => !r.isOPT) = [] :=
        filter_eq_nil_iff.mpr fun r hr => by simp [he r hr]
      simp [proper, records, filter_append, hn]
    cases edns with
    | none => simpa using hs [] nofun
    | some requestOpt =>
      dsimp only
      split_ifs
      · refine hs _ fun r hr => ?_
        rw [mem_singleton.mp hr]
        rfl
      · rfl

theorem withinTTL_iff {t timeToLive : ℕ} {m given : Message}
    (hg : given.proper = m.proper.map fun r => { r with ttl := timeToLive }) :
    WithinTTL t m given ↔ ∀ r ∈ m.proper, timeToLive + t ≤ r.ttl := by
  rw [WithinTTL, hg, forall₂_map_right_iff, forall₂_same]

variable {c : Client} {now : ℕ}

theorem finishExchange_answer {o : Operation} {m given : Message} (hrw : o.rewriteTTL = none)
    (h : (finishExchange rt c o now m).1 = some given) :
    given.proper = m.proper.map fun r => { r with ttl := computeTimeToLive m } := by
  unfold finishExchange at h
  dsimp only at h
  by_cases hr : (o.responseChecker.any fun check => m.failed || !check m) = true
  · rw [if_pos hr] at h
    cases h
  · rw [if_neg hr] at h
    cases h
    rw [proper_adjustEDNS, applyResponseOptions, hrw]
    exact proper_normalizeTTL _ _

/-- What is stored has the common TTL, which is not zero, and expires after that time at most. -/
theorem finishExchange_stored {o : Operation} {entry : Cached} (he : c.disableExpire = false)
    (hrw : o.rewriteTTL = none) (h : (finishExchange rt c o now m).2 = some entry) :
    computeTimeToLive m ≠ 0 ∧ entry.message = normalizeTTL m (computeTimeToLive m) ∧
      entry.expireAt ≤ now + computeTimeToLive m * second := by
  have hs : storeCache rt c o.packs now (normalizeTTL m (computeTimeToLive m))
      (computeTimeToLive m) = some entry := by
    unfold finishExchange at h
    simp only [applyResponseOptions, hrw, Option.getD_none] at h
    split_ifs at h with hr hd
    exact h
  unfold storeCache at hs
  by_cases h0 : computeTimeToLive m = 0
  · rw [if_pos h0] at hs
    cases hs
  rw [if_neg h0] at hs
  refine ⟨h0, ?_⟩
  cases hb : c.backend with
  | file =>
    simp only [hb] at hs
    split_ifs at hs
    cases hs
    exact ⟨rfl, le_refl _⟩
  | memory =>
    simp only [hb, he, Bool.false_eq_true, if_false] at hs
    cases hs
    exact ⟨rfl, rt.lruExpiry_le _ _⟩

theorem loadedExpiry_le (c : Client) (fl : Bool) (entry : Cached) :
    entry.loadedExpiry c fl ≤ entry.expireAt := by
  unfold Cached.loadedExpiry
  cases c.backend with
  | file =>
    dsimp only
    split_ifs
    · exact div_mul_le_self _ _
    · exact le_refl _
  | memory => exact le_refl _

theorem seconds_add_le (rt : Runtime) {expireAt ar now timeToLive : ℕ}
    (he : expireAt ≤ ar + timeToLive * second) (hn : ar ≤ now) (hnew : now ≤ expireAt) :
    rt.seconds (expireAt - now) + (now - ar) / second ≤ timeToLive := by
  have hs := rt.seconds_le (expireAt - now)
  unfold second at *
  omega

theorem loadResponse_fresh {fl : Bool} {entry : Cached} {served : Served}
    (he : c.disableExpire = false) (h : loadResponse rt c fl now entry = some served)
    (hn : served.isStale = false) :
    now ≤ entry.loadedExpiry c fl ∧ served.message = normalizeTTL entry.message
        (rt.seconds (entry.loadedExpiry c fl - now)) := by
  unfold loadResponse at h
  simp only [he, Bool.false_eq_true, if_false] at h
  split_ifs at h with ha ho
  · cases h
    cases hn
  · cases h
    exact ⟨Nat.le_of_not_lt ha, rfl⟩

theorem NeverOutlives.computeTimeToLive_le (h : NeverOutlives rt m) (r : Record)
    (hr : r ∈ m.proper) : computeTimeToLive m ≤ r.ttl := by
  let c : Client := ⟨.memory, false, 0⟩
  let o : Operation := ⟨true, none, none, false, false, none⟩
  have hg : (finishExchange rt c o 0 m).1 =
      some (adjustEDNS (normalizeTTL m (computeTimeToLive m)) none) := rfl
  have ha := (h c o 0 rfl rfl).1 _ hg
  exact (withinTTL_iff (finishExchange_answer rfl hg)).mp ha r hr

/-- No answer made from a response outlives its records exactly if the TTLs of the response are
uniform. -/
theorem neverOutlives_iff (rt : Runtime) (m : Message) : NeverOutlives rt m ↔ m.Uniform := by
  rw [uniform_iff]
  constructor
  · exact NeverOutlives.computeTimeToLive_le
  · intro hu c o ar he hrw
    refine ⟨fun given hg => ?_, fun ent hen => ?_⟩
    · exact (withinTTL_iff (finishExchange_answer hrw hg)).mpr hu
    · obtain ⟨h0, hm, hex⟩ := finishExchange_stored he hrw hen
      refine ⟨fun r hr hr0 => ?_, fun fl now served hn hs hne => ?_⟩
      · have hle := hu r hr
        omega
      · obtain ⟨hpr, ha⟩ := loadResponse_fresh he hs hne
        have hp : served.message.proper = m.proper.map fun r =>
            { r with ttl := rt.seconds (ent.loadedExpiry c fl - now) } := by
          rw [ha, hm, proper_normalizeTTL, proper_normalizeTTL, map_map]
          rfl
        have hre := seconds_add_le rt (le_trans (loadedExpiry_le c fl ent) hex) hn hpr
        refine (withinTTL_iff hp).mpr fun r hr => ?_
        exact le_trans hre (hu r hr)

/-! ### Responses that outlive their records -/

/-- Durations are rounded down, and entries live as long as they are told. -/
def exactRuntime : Runtime where
  seconds d := d / second
  seconds_le d := by unfold second; omega
  lruExpiry now lifetime := now + lifetime
  lruExpiry_le _ _ := Nat.le_refl _

/-- An address with TTL 0 and one with TTL 300. -/
def zeroAndLong : Message := ⟨0, [⟨1, 1, 0, none⟩, ⟨1, 1, 300, none⟩], [], []⟩

/-- A negative response: a NS record with TTL 10, and a SOA record with TTL 3600 and minimum 900. -/
def negativeWithNS : Message := ⟨3, [], [⟨2, 1, 10, none⟩, ⟨6, 1, 3600, some 900⟩], []⟩

/-- A query that may be cached. -/
def plainQuery : Operation := ⟨false, none, none, true, true, none⟩

/-- Both addresses are served from the cache with TTL 290 after ten seconds; the NS record is given
the TTL 900. -/
theorem answers_outlive :
    (¬ NeverOutlives exactRuntime zeroAndLong ∧
      ((finishExchange exactRuntime ⟨.memory, false, 0⟩ plainQuery 0 zeroAndLong).2.bind
        (loadResponse exactRuntime ⟨.memory, false, 0⟩ false (10 * second))) =
        some ⟨⟨0, [⟨1, 1, 290, none⟩, ⟨1, 1, 290, none⟩], [], []⟩, 290, false⟩) ∧
    (¬ NeverOutlives exactRuntime negativeWithNS ∧
      (finishExchange exactRuntime ⟨.file, false, 0⟩ plainQuery 0 negativeWithNS).1 =
        some ⟨3, [], [⟨2, 1, 900, none⟩, ⟨6, 1, 900, some 900⟩], []⟩) := by
  refine ⟨⟨fun hn => ?_, by decide⟩, fun hn => ?_, by decide⟩
  · exact absurd (hn.computeTimeToLive_le ⟨1, 1, 0, none⟩ (by decide)) (by decide)
  · exact absurd (hn.computeTimeToLive_le ⟨2, 1, 10, none⟩ (by decide)) (by decide)

end SingBox.DNS.TimeToLive
