import SingBox.XHTTP.Xmux

/-!
# The limits of the XHTTP connection pool

`acquire` runs under the lock of the manager; here it is one step, and the clock, the requests and
their failures come between two calls of it. The limits of a connection are rolled when it is
opened. They are enforced at the next `acquire`, which takes the connections with a cause for
eviction out of the pool before it looks for one to hand out.
-/

namespace SingBox.XHTTP

open Foundation Function XmuxClient

/-- `intRange`, as `parseRange` returns it. -/
structure IntRange where
  min : ℤ
  max : ℤ
  le : min ≤ max

/-- `rand`, with the draw `k` of `randIntn`. -/
def IntRange.rand (r : IntRange) (k : ℕ) : ℤ :=
  if r.max ≤ r.min then r.min else r.min + (k : ℤ) % (r.max - r.min + 1)

theorem IntRange.rand_le (r : IntRange) (k : ℕ) : r.rand k ≤ r.max := by
  have hle := r.le
  unfold IntRange.rand
  split_ifs with h
  · exact hle
  · have := Int.emod_lt_of_pos (k : ℤ) (b := r.max - r.min + 1) (by omega)
    omega

/-- The test of `normalizeXmux`: not both limits are set. -/
def normalizeXmux (maxConcurrency maxConnections : IntRange) : Bool :=
  !(decide (0 < maxConnections.max) && decide (0 < maxConcurrency.max))

/-- `newXmuxManager` rolls the two limits. -/
def newXmuxManager (maxConcurrency maxConnections : IntRange) (j k : ℕ) : XmuxConfig where
  concurrency := (maxConcurrency.rand j).toNat
  connections := (maxConnections.rand k).toNat

/-- The pool with the clock, the limits that were rolled, and the number of times that each
connection was handed out. -/
structure Pool where
  clients : List ℕ := []
  client : ℕ → XmuxClient := fun _ => {}
  next : ℕ := 0
  backoff : Backoff := {}
  now : ℕ := 0
  limits : ℕ → Limits := fun _ => ⟨0, 0, 0⟩
  handed : ℕ → ℕ := fun _ => 0

/-- The steps. -/
inductive PoolEvent where
  | acquire (limits : Limits) (k : ℕ)
  | addOpenUsage (c : ℕ) (delta : ℤ)
  | takeRequest (c : ℕ)
  | noteFailure (c : ℕ)
  | noteSuccess (c : ℕ)
  | advance (time : ℕ)
deriving DecidableEq

namespace Pool

/-- A connection is changed. -/
def setClient (s : Pool) (c : ℕ) (x : XmuxClient) : Pool :=
  { s with client := Function.update s.client c x }

/-- `newClientLocked`. -/
def newClient (s : Pool) (limits : Limits) : Pool :=
  { s with
    clients := s.clients ++ [s.next]
    client := Function.update s.client s.next (.new s.now limits)
    limits := Function.update s.limits s.next limits
    handed := Function.update s.handed s.next 1
    next := s.next + 1 }

/-- A connection of the pool is handed out. -/
def handOut (s : Pool) (c : ℕ) : Pool :=
  { s with
    client := Function.update s.client c (s.client c).handOut
    handed := Function.update s.handed c (s.handed c + 1) }

/-- The connections that stay in the pool. -/
def kept (s : Pool) : List ℕ := s.clients.filter fun c => ((s.client c).evictCause s.now).isNone

/-- The eviction loop of `acquire`, with the `close` of the evicted connections. -/
def evict (s : Pool) : Pool :=
  { s with
    clients := s.kept
    client := fun c => if c ∈ s.clients ∧ c ∉ s.kept then (s.client c).close else s.client c }

/-- The connections that may be handed out. -/
def candidates (conf : XmuxConfig) (s : Pool) : List ℕ :=
  if 0 < conf.concurrency then
    s.clients.filter fun c => (s.client c).openUsage < conf.concurrency
  else s.clients

/-- The backoff window is open. -/
def blocked (s : Pool) : Bool := s.backoff.armed && s.now < s.backoff.blockedUntil

/-- `acquire` after the eviction. -/
def choose (conf : XmuxConfig) (s : Pool) (limits : Limits) (k : ℕ) : Pool :=
  if s.clients = [] then if s.blocked then s else s.newClient limits
  else if 0 < conf.connections ∧ s.clients.length < conf.connections then s.newClient limits
  else match (s.candidates conf)[k % (s.candidates conf).length]? with
    | none => s.newClient limits
    | some c => s.handOut c

def acquire (conf : XmuxConfig) (s : Pool) (limits : Limits) (k : ℕ) : Pool :=
  s.evict.choose conf limits k

/-- A step. The calls are made for connections that were opened, and the clock does not go back. -/
def step (conf : XmuxConfig) (s : Pool) : PoolEvent → Pool
  | .acquire limits k => s.acquire conf limits k
  | .addOpenUsage c delta =>
    if c < s.next then s.setClient c ((s.client c).addOpenUsage delta) else s
  | .takeRequest c => if c < s.next then s.setClient c (s.client c).takeRequest else s
  | .noteFailure c =>
    if c < s.next then
      let s' := s.setClient c (s.client c).noteFailure
      if (s.client c).consecFails + 1 = XmuxClient.breakerThreshold then
        { s' with backoff := s.backoff.noteBreakerTrip s.now }
      else s'
    else s
  | .noteSuccess c =>
    if c < s.next then
      { s.setClient c (s.client c).noteSuccess with backoff := s.backoff.resetBackoff }
    else s
  | .advance time => { s with now := s.now + time }

/-! ### What must hold -/

/-- The breaker of a connection has tripped, its requests are used up, or its time has passed. -/
def Spent (s : Pool) (c : ℕ) : Prop :=
  (s.client c).failing = true ∨ (s.client c).leftRequests ≤ 0 ∨
    ∃ t, (s.client c).unreusableAt = some t ∧ t < s.now

/-- The limits of the pool in a run. -/
structure KeepsLimits (conf : XmuxConfig) (run : ℕ → Pool) (n : ℕ) : Prop where
  connections : 0 < conf.connections → (run n).clients.length ≤ conf.connections
  reuse : ∀ c, 0 < ((run n).limits c).cMaxReuseTimes →
    (run n).handed c ≤ ((run n).limits c).cMaxReuseTimes
  spent : ∀ t ≤ n, ∀ c < (run t).next, (run t).Spent c → (run n).handed c = (run t).handed c
  blocked : (run n).blocked = true → (run n).kept = [] → ∀ limits k,
    ((run n).acquire conf limits k).next = (run n).next

/-- The condition on a step: the request counter of the connection does not wrap. -/
def CountsOn (s : Pool) (e : PoolEvent) : Prop :=
  ∀ c, e = .takeRequest c → (s.client c).leftRequests ≠ -2 ^ 31

variable {conf : XmuxConfig} {s : Pool} {c : ℕ}

/-! ### What a step can do -/

open Int List Nat Pool

theorem evictCause_eq_none {x : XmuxClient} {now : ℕ} (h : x.evictCause now = none) :
    x.failing = false ∧ x.leftUsage ≠ 0 ∧ 0 < x.leftRequests ∧
      ∀ t, x.unreusableAt = some t → ¬ t < now := by
  unfold evictCause at h
  split_ifs at h with _ hf hu hr
  refine ⟨by simpa using hf, hu, not_le.mp hr, ?_⟩
  intro t ht hlt
  rw [ht] at h
  simp [hlt] at h

/-- The part of a connection that its limits look at is not changed, or only for the worse. -/
structure Later (x y : XmuxClient) : Prop where
  leftUsage : y.leftUsage = x.leftUsage
  unreusableAt : y.unreusableAt = x.unreusableAt
  failing : x.failing = true → y.failing = true

theorem later_close (x : XmuxClient) : Later x x.close ∧ x.close.leftRequests = x.leftRequests := by
  unfold close connClose
  dsimp only
  split_ifs <;> exact ⟨⟨rfl, rfl, id⟩, rfl⟩

theorem later_addOpenUsage (x : XmuxClient) (delta : ℤ) :
    Later x (x.addOpenUsage delta) ∧ (x.addOpenUsage delta).leftRequests = x.leftRequests := by
  unfold addOpenUsage connClose
  dsimp only
  split_ifs <;> exact ⟨⟨rfl, rfl, id⟩, rfl⟩

theorem later_evict (s : Pool) (c : ℕ) : Later (s.client c) (s.evict.client c) ∧
    (s.evict.client c).leftRequests = (s.client c).leftRequests := by
  simp only [evict]
  split_ifs
  · exact later_close _
  · exact ⟨⟨rfl, rfl, id⟩, rfl⟩

theorem not_spent_of_mem_kept (h : c ∈ s.kept) : ¬ s.Spent c ∧ (s.client c).leftUsage ≠ 0 := by
  have hc := evictCause_eq_none (Option.isNone_iff_eq_none.mp (List.mem_filter.mp h).2)
  obtain ⟨hf, hu, hr, hti⟩ := hc
  refine ⟨?_, hu⟩
  rintro (hs | hs | ⟨t, ht, hlt⟩)
  · cases hf.symm.trans hs
  · omega
  · exact hti t ht hlt

theorem step_cases {P : Pool → Prop} (e : PoolEvent) (same : P s) (evd : P s.evict)
    (new : ∀ limits, (s.kept = [] ∨ s.kept.length < conf.connections ∨ 0 < conf.concurrency) →
      P (s.evict.newClient limits))
    (handOut : ∀ c ∈ s.kept, P (s.evict.handOut c)) (adjust : ∀ c x b, Later (s.client c) x →
      (x.leftRequests = (s.client c).leftRequests ∨
        e = .takeRequest c ∧ x.leftRequests = Int.bmod ((s.client c).leftRequests - 1) (2 ^ 32)) →
      P { s.setClient c x with backoff := b })
    (advance : ∀ time, P { s with now := s.now + time }) : P (s.step conf e) := by
  cases e with
  | acquire limits k =>
    simp only [step, acquire, choose]
    split_ifs with he _ hro
    · exact evd
    · exact new limits (.inl he)
    · exact new limits (.inr (.inl hro.2))
    · split
      · next hn =>
        -- Without a bound on the streams every connection of the pool is a candidate.
        refine new limits (.inr (.inr ?_))
        by_contra hco
        rw [candidates, if_neg hco, getElem?_eq_none_iff] at hn
        exact absurd (Nat.mod_lt k (List.length_pos_iff.mpr he)) (Nat.not_lt.mpr hn)
      · next c hc =>
        refine handOut c ?_
        have hm := List.mem_of_getElem? hc
        rw [candidates] at hm
        split_ifs at hm
        · exact (mem_filter.mp hm).1
        · exact hm
  | addOpenUsage c delta =>
    simp only [step]
    split_ifs
    · obtain ⟨hl, hr⟩ := later_addOpenUsage (s.client c) delta
      exact adjust c _ s.backoff hl (.inl hr)
    · exact same
  | takeRequest c =>
    simp only [step]
    split_ifs
    · exact adjust c _ s.backoff ⟨rfl, rfl, id⟩ (.inr ⟨rfl, rfl⟩)
    · exact same
  | noteFailure c =>
    have hl : Later (s.client c) (s.client c).noteFailure :=
      ⟨rfl, rfl, fun h => by simp [noteFailure, h]⟩
    simp only [step]
    split_ifs
    · exact adjust c _ _ hl (.inl rfl)
    · exact adjust c _ s.backoff hl (.inl rfl)
    · exact same
  | noteSuccess c =>
    simp only [step]
    split_ifs
    · exact adjust c _ _ ⟨rfl, rfl, id⟩ (.inl rfl)
    · exact same
  | advance time => exact advance time

/-! ### The limits -/

/-- The pool is within its bounds, and the uses of a connection that are left and those it has had
are together what was rolled. -/
structure Inv (conf : XmuxConfig) (s : Pool) : Prop where
  bound : 0 < conf.connections → s.clients.length ≤ conf.connections
  reuse : ∀ c, 0 < (s.limits c).cMaxReuseTimes → 0 ≤ (s.client c).leftUsage ∧
    s.handed c + (s.client c).leftUsage = (s.limits c).cMaxReuseTimes
  range : ∀ c, -2 ^ 31 ≤ (s.client c).leftRequests

theorem Inv.evict (h : Inv conf s) : Inv conf s.evict := by
  refine ⟨fun hco => ?_, fun c hc => ?_, fun c => ?_⟩
  · exact Nat.le_trans (List.length_filter_le _ _) (h.bound hco)
  · rw [(later_evict s c).1.leftUsage]
    exact h.reuse c hc
  · rw [(later_evict s c).2]
    exact h.range c

theorem neg_le_maxInt32 : (-2 ^ 31 : ℤ) ≤ 2 ^ 31 - 1 := by decide

theorem neg_le_bmod (x : ℤ) : -2 ^ 31 ≤ Int.bmod x (2 ^ 32) :=
  Int.le_bmod (by decide)

theorem Inv.newClient (h : Inv conf s)
    (hr : 0 < conf.connections → s.clients.length < conf.connections) (limits : Limits) :
    Inv conf (s.newClient limits) := by
  refine ⟨fun hco => ?_, fun c hc => ?_, fun c => ?_⟩
  · simpa [Pool.newClient, Nat.succ_le_iff] using hr hco
  · rcases eq_or_ne c s.next with rfl | hne
    · simp only [Pool.newClient, update_self, new] at hc ⊢
      rw [if_pos hc]
      omega
    · simp only [Pool.newClient, update_of_ne hne] at hc ⊢
      exact h.reuse c hc
  · rcases eq_or_ne c s.next with rfl | hne
    · simp only [Pool.newClient, update_self, new]
      split_ifs
      · exact neg_le_bmod _
      · exact neg_le_maxInt32
    · simp only [Pool.newClient, update_of_ne hne]
      exact h.range c

theorem Inv.handOut (h : Inv conf s) (hu : (s.client c).leftUsage ≠ 0) :
    Inv conf (s.handOut c) := by
  refine ⟨h.bound, fun c' hc' => ?_, fun c' => ?_⟩
  · have hr := h.reuse c' hc'
    rcases eq_or_ne c' c with rfl | hne
    · simp only [handOut, update_self, XmuxClient.handOut]
      split_ifs <;> omega
    · simpa only [Pool.handOut, update_of_ne hne] using hr
  · rcases eq_or_ne c' c with rfl | hne
    · simpa only [handOut, update_self, XmuxClient.handOut] using h.range c'
    · simpa only [Pool.handOut, update_of_ne hne] using h.range c'

theorem Inv.step (hcn : 0 < conf.connections → conf.concurrency = 0)
    (h : Inv conf s) (e : PoolEvent) : Inv conf (s.step conf e) := by
  refine step_cases e h h.evict ?_ ?_ ?_ ?_
  · intro limits hf
    refine h.evict.newClient (fun hpos => ?_) limits
    change s.kept.length < _
    rcases hf with hn | hro | hco
    · simpa [hn] using hpos
    · exact hro
    · exact absurd (hcn hpos) (Nat.ne_of_gt hco)
  · intro c hc
    refine h.evict.handOut ?_
    rw [(later_evict s c).1.leftUsage]
    exact (not_spent_of_mem_kept hc).2
  · intro c x b hx hr
    refine ⟨h.bound, fun c' hc' => ?_, fun c' => ?_⟩ <;> rcases eq_or_ne c' c with rfl | hne
    · simp only [setClient, update_self, hx.leftUsage]
      exact h.reuse c' hc'
    · simp only [setClient, update_of_ne hne]
      exact h.reuse c' hc'
    · simp only [setClient, update_self]
      rcases hr with heq | ⟨-, heq⟩
      · exact heq ▸ h.range c'
      · exact heq ▸ neg_le_bmod _
    · simp only [setClient, update_of_ne hne]
      exact h.range c'
  · exact fun _ => ⟨h.bound, h.reuse, h.range⟩

theorem Spent.later {s' : Pool} (h : s.Spent c) (hl : Later (s.client c) (s'.client c))
    (hr : (s.client c).leftRequests ≤ 0 → (s'.client c).leftRequests ≤ 0)
    (hn : s.now ≤ s'.now) : s'.Spent c := by
  rcases h with hf | h0 | ⟨t, ht, hlt⟩
  · exact .inl (hl.failing hf)
  · exact .inr (.inl (hr h0))
  · exact .inr (.inr ⟨t, hl.unreusableAt.trans ht, lt_of_lt_of_le hlt hn⟩)

theorem spent_step (h : Inv conf s) {e : PoolEvent}
    (hcn : s.CountsOn e) (hc : c < s.next) (hs : s.Spent c) :
    c < (s.step conf e).next ∧ (s.step conf e).Spent c ∧ (s.step conf e).handed c = s.handed c := by
  have he : s.evict.Spent c := hs.later (later_evict s c).1
    (fun h0 => (later_evict s c).2 ▸ h0) (Nat.le_refl _)
  refine step_cases (P := fun s' => c < s'.next ∧ s'.Spent c ∧ s'.handed c = s.handed c) e
    ⟨hc, hs, rfl⟩ ⟨hc, he, rfl⟩ ?_ ?_ ?_ ?_
  · intro limits _
    have hne : c ≠ s.evict.next := Nat.ne_of_lt hc
    refine ⟨Nat.lt_succ_of_lt hc, ?_, update_of_ne hne _ _⟩
    simpa only [Spent, newClient, update_of_ne hne] using he
  · intro c' hc'
    have hne : c ≠ c' := fun heq => (not_spent_of_mem_kept hc').1 (heq ▸ hs)
    refine ⟨hc, ?_, update_of_ne hne _ _⟩
    simpa only [Spent, handOut, update_of_ne hne] using he
  · intro c' x b hx hr
    refine ⟨hc, ?_, rfl⟩
    rcases eq_or_ne c c' with rfl | hne
    · refine hs.later (by simpa [setClient] using hx) (fun h0 => ?_) (Nat.le_refl _)
      simp only [setClient, update_self]
      rcases hr with heq | ⟨rfl, heq⟩
      · exact heq ▸ h0
      · -- The counter is above its least value, so it does not wrap.
        have hl := hcn c rfl
        have hra := h.range c
        rw [heq, Int.bmod_eq_of_le (by omega) (by omega)]
        omega
    · simpa only [Spent, setClient, update_of_ne hne] using hs
  · exact fun time => ⟨hc, hs.later ⟨rfl, rfl, id⟩ id (Nat.le_add_right _ _), rfl⟩

/-! ### Runs -/

/-- In every run of a pool with a normalized configuration, in which no request counter wraps, the
limits are kept. -/
theorem run_keepsLimits (maxConcurrency maxConnections : IntRange)
    (hnormal : normalizeXmux maxConcurrency maxConnections = true) (j k : ℕ)
    (events : ℕ → PoolEvent) (n : ℕ)
    (hcounts : ∀ t < n, CountsOn
      (run (step (newXmuxManager maxConcurrency maxConnections j k)) {} events t) (events t)) :
    KeepsLimits (newXmuxManager maxConcurrency maxConnections j k)
      (run (step (newXmuxManager maxConcurrency maxConnections j k)) {} events) n := by
  have hconf : 0 < (newXmuxManager maxConcurrency maxConnections j k).connections →
      (newXmuxManager maxConcurrency maxConnections j k).concurrency = 0 := by
    have hcn := maxConnections.rand_le k
    have hco := maxConcurrency.rand_le j
    simp only [normalizeXmux, Bool.not_eq_true', Bool.and_eq_false_iff, decide_eq_false_iff_not,
      newXmuxManager] at hnormal ⊢
    omega
  generalize newXmuxManager maxConcurrency maxConnections j k = conf at hconf hcounts ⊢
  have hinit : Inv conf {} := ⟨fun _ => Nat.zero_le _, nofun, fun _ => neg_le_maxInt32⟩
  have hi : ∀ t, Inv conf (run (step conf) {} events t) :=
    run_invariant hinit fun s e h => h.step hconf e
  refine ⟨(hi n).bound, fun c hc => ?_, fun t ht c hc hsp => ?_, fun hb he _ _ => ?_⟩
  · obtain ⟨hl, hsu⟩ := (hi n).reuse c hc
    omega
  · refine (run_preserved (P := fun _ (s : Pool) => c < s.next ∧ s.Spent c ∧
      s.handed c = (run (step conf) {} events t).handed c) ht ⟨hc, hsp, rfl⟩ ?_).2.2
    intro m _ hm ⟨hlt, hs, hsa⟩
    obtain ⟨hlt', hs', hsa'⟩ := spent_step (hi m) (hcounts m hm) hlt hs
    exact ⟨hlt', hs', hsa'.trans hsa⟩
  · have hcl : (run (step conf) {} events n).evict.clients = [] := he
    have hw : (run (step conf) {} events n).evict.blocked = true := hb
    rw [acquire, choose, if_pos hcl, if_pos hw]
    rfl

/-- One connection at a time. -/
def oneConnection : XmuxConfig := newXmuxManager ⟨0, 0, Int.le_refl _⟩ ⟨1, 1, Int.le_refl _⟩ 0 0

/-- The connection may be used twice, and takes two requests of the four it may take. -/
def reuseEvents (n : ℕ) : PoolEvent :=
  if n = 1 ∨ n = 3 then .takeRequest 0 else .acquire ⟨2, 4, 0⟩ 0

theorem run_keepsLimits_reuse :
    (run (step oneConnection) {} reuseEvents 3).handed 0 = 2 ∧
      ((run (step oneConnection) {} reuseEvents 4).client 0).leftRequests = 2 ∧
      (run (step oneConnection) {} reuseEvents 5).next = 2 ∧
      KeepsLimits oneConnection (run (step oneConnection) {} reuseEvents) 5 := by
  refine ⟨by decide, by decide, by decide, ?_⟩
  refine run_keepsLimits ⟨0, 0, le_refl _⟩ ⟨1, 1, le_refl _⟩ (by decide) 0 0 reuseEvents 5 ?_
  intro t ht c hc
  interval_cases t
  · cases hc
  · cases hc
    decide
  · cases hc
  · cases hc
    decide
  · cases hc

/-- The connection gets one request, and `2 ^ 31 + 1` further ones before the next `acquire`. -/
def wrapEvents (n : ℕ) : PoolEvent :=
  if n = 0 ∨ n = 2 ^ 31 + 3 then .acquire ⟨0, 1, 0⟩ 0 else .takeRequest 0

/-- The pool after `m` requests. -/
def requested (m : ℕ) : Pool where
  clients := [0]
  client := Function.update (fun _ => {}) 0
    { XmuxClient.new 0 ⟨0, 1, 0⟩ with leftRequests := Int.bmod (1 - m) (2 ^ 32) }
  next := 1
  limits := Function.update (fun _ => ⟨0, 0, 0⟩) 0 ⟨0, 1, 0⟩
  handed := Function.update (fun _ => 0) 0 1

theorem run_wrapEvents {m : ℕ} (hm : m ≤ 2 ^ 31 + 2) :
    run (step oneConnection) {} wrapEvents (m + 1) = requested m := by
  induction m with
  | zero => rfl
  | succ m ih =>
    have hev : wrapEvents (m + 1) = .takeRequest 0 := if_neg (by omega)
    have hc : Int.bmod (Int.bmod (1 - m) (2 ^ 32) - 1) (2 ^ 32) =
        Int.bmod (1 - (m + 1 : ℕ)) (2 ^ 32) := by
      rw [bmod_sub_bmod]
      congr 1
      omega
    rw [run_succ, ih (by omega), hev]
    simp [step, requested, setClient, takeRequest]

/-- The connection is handed out again after its only request is used up. -/
theorem not_keepsLimits :
    ¬ KeepsLimits oneConnection (run (step oneConnection) {} wrapEvents) (2 ^ 31 + 4) := by
  intro h
  have hsp : (run (step oneConnection) {} wrapEvents 2).Spent 0 := by
    rw [run_wrapEvents (m := 1) (by decide)]
    exact .inr (.inl (by decide))
  have hs := h.spent 2 (by decide) 0 (by decide) hsp
  have hev : wrapEvents (2 ^ 31 + 3) = .acquire ⟨0, 1, 0⟩ 0 := if_pos (.inr rfl)
  have hw : run (step oneConnection) {} wrapEvents (2 ^ 31 + 4) =
      (requested (2 ^ 31 + 2)).acquire oneConnection ⟨0, 1, 0⟩ 0 := by
    rw [run_succ, hev, run_wrapEvents (m := 2 ^ 31 + 2) (le_refl _)]
    rfl
  rw [hw, run_wrapEvents (m := 1) (by decide)] at hs
  exact absurd hs (by decide)

end Pool

end SingBox.XHTTP
