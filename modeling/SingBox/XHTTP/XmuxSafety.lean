import SingBox.Foundation.Count
import SingBox.XHTTP.Xmux

/-!
# Retirement and the use of pooled connections

A connection is retired by `close`, which tears it down at once when its counter is zero and
otherwise leaves that to the last `release`. A dial is counted after `acquire` has released the lock
of the manager; if nobody looks at the counter in between, a connection is not closed while a dial
has it, `max_concurrency` is kept, and a retired connection is torn down with its last release.
-/

namespace SingBox.XHTTP

open Foundation Function XmuxClient Phase List

variable {ι : Type} [DecidableEq ι]

/-- The connections that `acquire` has evicted and not yet closed. -/
def evicting : Option (ι × Critical) → List ℕ
  | some (_, .scanning _ evicted) | some (_, .closing evicted) => evicted
  | _ => []

/-- The connections that `acquire` is still to weigh, or has admitted. -/
def weighing : Option (ι × Critical) → List ℕ
  | some (_, .weighing rest candidates) => rest ++ candidates
  | _ => []

namespace XmuxManager

/-! ### What a step can do -/

/-- The parts of a connection that matter for its retirement. -/
def SameUse (x y : XmuxClient) : Prop :=
  x.openUsage = y.openUsage ∧ x.closed = y.closed ∧ x.connClosed = y.connClosed ∧
    x.tornDown = y.tornDown

variable {s : XmuxManager ι} {conf : XmuxConfig}

theorem step_cases {P : XmuxManager ι → Prop} (e : Event ι) (same : P s)
    (acquire : ∀ d, s.critical = none → s.phase d = .idle →
      P { s.setPhase d .acquiring with critical := some (d, .scanning 0 []) })
    (scanEnd : ∀ d i evd, s.critical = some (d, .scanning i evd) →
      P { s with critical := some (d, .closing evd) })
    (scanEvict : ∀ d i evd c, s.critical = some (d, .scanning i evd) → s.clients[i]? = some c →
      P { s with clients := s.clients.eraseIdx i, critical := some (d, .scanning i (evd ++ [c])) })
    (scanKeep : ∀ d i evd, s.critical = some (d, .scanning i evd) →
      P { s with critical := some (d, .scanning (i + 1) evd) })
    (evictClose : ∀ d c evd, e = .evictClose → s.critical = some (d, .closing (c :: evd)) →
      P { s.setClient c (s.client c).close with critical := some (d, .closing evd) })
    (wait : ∀ d k, s.critical = some (d, k) → P { s.setPhase d .idle with critical := none })
    (new : ∀ d k now lims, s.critical = some (d, k) → P (s.newClient d now lims))
    (weighStart : ∀ d k, s.critical = some (d, k) →
      P { s with critical := some (d, .weighing s.clients []) })
    (weighAdmit : ∀ d c rest cands, e = .weigh →
      s.critical = some (d, .weighing (c :: rest) cands) →
      (s.client c).openUsage < conf.concurrency →
      P { s with critical := some (d, .weighing rest (cands ++ [c])) })
    (weighSkip : ∀ d c rest cands, s.critical = some (d, .weighing (c :: rest) cands) →
      P { s with critical := some (d, .weighing rest cands) })
    (handOut : ∀ d k cands c, s.critical = some (d, k) → c ∈ cands →
      (k = .weighing [] cands ∨ conf.concurrency = 0 ∧ cands = s.clients) →
      P { (s.setClient c (s.client c).handOut).setPhase d (.acquired c) with critical := none })
    (count : ∀ d c, s.phase d = .acquired c →
      P ((s.setClient c ((s.client c).addOpenUsage 1)).setPhase d (.holding c)))
    (release : ∀ d c, e = .release d → s.phase d = .holding c →
      P ((s.setClient c (s.client c).release).setPhase d .released))
    (managerClose : ∀ d, s.critical = none → s.phase d = .idle →
      P { s.setPhase d (.retiring s.clients) with clients := [] })
    (retire : ∀ d c rest, e = .retire d → s.phase d = .retiring (c :: rest) →
      P ((s.setClient c (s.client c).close).setPhase d (.retiring rest)))
    (adjust : ∀ c x, SameUse x (s.client c) → P (s.setClient c x))
    (backoff : ∀ b, P { s with backoff := b }) : P (s.step conf e) := by
  have hh : ∀ d k cands now lims r, s.critical = some (d, k) →
      (k = .weighing [] cands ∨ conf.concurrency = 0 ∧ cands = s.clients) →
      P (s.handOut d cands now lims r) := by
    intro d k cands now lims r hcr hf
    unfold XmuxManager.handOut
    split
    · exact new d k now lims hcr
    · next c hc => exact handOut d k cands c hcr (mem_of_getElem? hc) hf
  have hcr : ∀ d k, s.critical = some (d, k) → P (s.criticalStep conf d k e) := by
    intro d k hk
    unfold criticalStep
    split
    · next i evd now =>
      unfold scan
      split
      · exact scanEnd d i evd hk
      · next c hc =>
        split_ifs
        · exact scanEvict d i evd c hk hc
        · exact scanKeep d i evd hk
    · next c evd => exact evictClose d c evd rfl hk
    · next now lims r =>
      unfold choose
      split_ifs with _ _ _ hco
      · exact wait d _ hk
      · exact new d _ now lims hk
      · exact new d _ now lims hk
      · exact weighStart d _ hk
      · exact hh d _ _ now lims r hk (.inr ⟨Nat.eq_zero_of_not_pos hco, rfl⟩)
    · next c rest cands =>
      split_ifs with hu
      · exact weighAdmit d c rest cands rfl hk hu
      · exact weighSkip d c rest cands hk
    · next cands now lims r => exact hh d _ cands now lims r hk (.inl rfl)
    · exact same
  cases e with
  | acquire d =>
    simp only [step]
    split_ifs with h
    · exact acquire d h.1 h.2
    · exact same
  | count d =>
    simp only [step]
    split
    · next c hc => exact count d c hc
    · exact same
  | release d =>
    simp only [step]
    split
    · next c hc => exact release d c rfl hc
    · exact same
  | managerClose d =>
    simp only [step]
    split_ifs with h
    · exact managerClose d h.1 h.2
    · exact same
  | retire d =>
    simp only [step]
    split
    · next c rest hc => exact retire d c rest rfl hc
    · exact same
  | takeRequest c | noteFailure c | noteSuccess c => exact adjust c _ ⟨rfl, rfl, rfl, rfl⟩
  | noteBreakerTrip | resetBackoff =>
    simp only [step]
    split_ifs
    · exact backoff _
    · exact same
  | scan _ | evictClose | choose _ _ _ | weigh | pick _ _ _ =>
    simp only [step]
    split
    · next d k hk => exact hcr d k hk
    · exact same

/-! ### The lists of the pool -/

/-- The lists of the manager and of the goroutines. A connection that somebody is about to close is
no longer in the pool. -/
structure PoolOk (s : XmuxManager ι) : Prop where
  nodup : s.clients.Nodup
  mem_lt : ∀ c ∈ s.clients, c < s.next
  mem_open : ∀ c ∈ s.clients, (s.client c).closed = false
  has_lt : ∀ d c, (s.phase d).client? = some c → c < s.next
  owner : ∀ d k, s.critical = some (d, k) → s.phase d = .acquiring
  evicting : ∀ c ∈ evicting s.critical, c ∉ s.clients ∧ c < s.next
  weighing : ∀ c ∈ weighing s.critical, c ∈ s.clients
  retiring : ∀ d rest, s.phase d = .retiring rest → ∀ c ∈ rest, c ∉ s.clients ∧ c < s.next

section

variable {c : ℕ} (h : ∀ c ∈ s.clients, (s.client c).closed = false)

include h

omit [DecidableEq ι] in
/-- `close` of a connection that is not in the pool. -/
theorem closed_of_ne (hc : c ∉ s.clients) (x : XmuxClient) :
    ∀ c' ∈ s.clients, (update s.client c x c').closed = false := by
  intro c' hc'
  have hne : c' ≠ c := fun heq => hc (heq ▸ hc')
  rw [update_of_ne hne]
  exact h c' hc'

omit [DecidableEq ι] in
theorem closed_of_eq {x : XmuxClient} (hx : x.closed = (s.client c).closed) :
    ∀ c' ∈ s.clients, (update s.client c x c').closed = false := by
  intro c' hc'
  by_cases heq : c' = c
  · subst heq
    rw [update_self, hx]
    exact h c' hc'
  · rw [update_of_ne heq]
    exact h c' hc'

end

open Nat XHTTP XmuxClient

@[simp] theorem addOpenUsage_closed (c : XmuxClient) (delta : ℤ) :
    (c.addOpenUsage delta).closed = c.closed := by
  simp only [addOpenUsage, connClose]
  split_ifs <;> rfl

variable {p : Phase}

theorem forall_phase_update {P : Phase → Prop} (h : ∀ d, P (s.phase d)) (d : ι) (hp : P p)
    (d' : ι) : P (update s.phase d p d') := by
  rw [update_apply]
  split_ifs
  · exact hp
  · exact h d'

variable {d : ι}

theorem owner_update (h : ∀ d k, s.critical = some (d, k) → s.phase d = .acquiring)
    (hd : s.phase d ≠ .acquiring) (p : Phase) (d' : ι) (k : Critical)
    (hc : s.critical = some (d', k)) : update s.phase d p d' = .acquiring := by
  have hne : d' ≠ d := fun heq => hd (heq ▸ h d' k hc)
  rw [update_of_ne hne]
  exact h d' k hc

omit [DecidableEq ι] in
theorem PoolOk.setCritical (h : PoolOk s) {k k' : Critical} (hk : s.critical = some (d, k))
    (he : ∀ c ∈ XHTTP.evicting (some (d, k')), c ∉ s.clients ∧ c < s.next)
    (hw : ∀ c ∈ XHTTP.weighing (some (d, k')), c ∈ s.clients) :
    PoolOk { s with critical := some (d, k') } := by
  refine ⟨h.nodup, h.mem_lt, h.mem_open, h.has_lt, ?_, he, hw, h.retiring⟩
  rintro d' _ ⟨⟩
  exact h.owner d k hk

section

variable (h : PoolOk s)

include h

theorem PoolOk.has_update (d : ι) (hp : ∀ c, p.client? = some c → c < s.next) (d' : ι) (c : ℕ)
    (hc : (update s.phase d p d').client? = some c) : c < s.next :=
  forall_phase_update (P := fun p => ∀ c, p.client? = some c → c < s.next) h.has_lt d hp d' c hc

theorem PoolOk.retiring_update (d : ι)
    (hp : ∀ rest, p = .retiring rest → ∀ c ∈ rest, c ∉ s.clients ∧ c < s.next) (d' : ι)
    (rest : List ℕ) (hr : update s.phase d p d' = .retiring rest) :
    ∀ c ∈ rest, c ∉ s.clients ∧ c < s.next :=
  forall_phase_update
    (P := fun p => ∀ rest, p = .retiring rest → ∀ c ∈ rest, c ∉ s.clients ∧ c < s.next)
    h.retiring d hp d' rest hr

omit [DecidableEq ι] in
/-- `acquire` takes a connection out of the pool. -/
theorem PoolOk.evict {i c : ℕ} {evd : List ℕ}
    (hcr : s.critical = some (d, .scanning i evd)) (hc : s.clients[i]? = some c) : PoolOk { s with
      clients := s.clients.eraseIdx i, critical := some (d, .scanning i (evd ++ [c])) } := by
  have he := h.evicting
  rw [hcr] at he
  have hs : ∀ c' ∈ s.clients.eraseIdx i, c' ∈ s.clients :=
    fun c' hc' => mem_of_mem_eraseIdx hc'
  -- There are no duplicates, so the connection is gone from the pool.
  have hg : c ∉ s.clients.eraseIdx i := by
    intro hm
    obtain ⟨j, hj, hcj⟩ := mem_eraseIdx_iff_getElem?.mp hm
    have hjl : j < s.clients.length := (List.getElem?_eq_some_iff.mp hcj).1
    exact hj ((getElem?_inj hjl h.nodup).mp (hcj.trans hc.symm))
  have hin : c ∈ s.clients := mem_of_getElem? hc
  refine ⟨h.nodup.eraseIdx i, fun c' hc' => h.mem_lt c' (hs c' hc'),
    fun c' hc' => h.mem_open c' (hs c' hc'), h.has_lt, ?_, ?_, by simp [XHTTP.weighing], ?_⟩
  · rintro d' k' ⟨⟩
    exact h.owner d _ hcr
  · intro c' hc'
    rcases mem_append.mp hc' with hc' | hc'
    · exact ⟨fun hm => (he c' hc').1 (hs c' hm), (he c' hc').2⟩
    · obtain rfl := mem_singleton.mp hc'
      exact ⟨hg, h.mem_lt c' hin⟩
  · intro d' rest hd' c' hc'
    have ho := h.retiring d' rest hd' c' hc'
    exact ⟨fun hm => ho.1 (hs c' hm), ho.2⟩

theorem PoolOk.newClient (d : ι) (now : ℕ) (lims : Limits) : PoolOk (s.newClient d now lims) := by
  have hn : s.next ∉ s.clients := fun hm => absurd (h.mem_lt _ hm) (lt_irrefl _)
  refine ⟨?_, ?_, ?_, ?_, by simp [XmuxManager.newClient],
    by simp [XmuxManager.newClient, XHTTP.evicting],
    by simp [XmuxManager.newClient, XHTTP.weighing], ?_⟩
  · exact nodup_append.mpr ⟨h.nodup, nodup_singleton _, by
      rintro c hc _ hc' rfl
      exact hn (mem_singleton.mp hc' ▸ hc)⟩
  · intro c hc
    rcases mem_append.mp hc with hc | hc
    · exact lt_succ_of_lt (h.mem_lt c hc)
    · exact mem_singleton.mp hc ▸ lt_succ_self _
  · intro c hc
    rcases mem_append.mp hc with hc | hc
    · exact closed_of_ne h.mem_open hn _ c hc
    · obtain rfl := mem_singleton.mp hc
      exact congrArg closed (update_self s.next _ s.client)
  · refine forall_phase_update (P := fun p => ∀ c, p.client? = some c → c < s.next + 1)
      (fun d c hc => lt_succ_of_lt (h.has_lt d c hc)) d ?_
    rintro c ⟨⟩
    exact lt_succ_self _
  · intro d' rest hd' c hc
    have ho := h.retiring_update d (by rintro _ ⟨⟩) d' rest hd' c hc
    refine ⟨fun hm => ?_, lt_succ_of_lt ho.2⟩
    rcases mem_append.mp hm with hm | hm
    · exact ho.1 hm
    · exact absurd ho.2 (mem_singleton.mp hm ▸ lt_irrefl _)

end

theorem PoolOk.step (h : PoolOk s) (e : Event ι) : PoolOk (s.step conf e) := by
  have ⟨hnd, hlt, ho, hh, how, he, hw, hr⟩ := h
  refine step_cases e ?same ?acquire ?scanEnd ?scanEvict ?scanKeep ?evictClose ?wait ?new
    ?weighStart ?weighAdmit ?weighSkip ?handOut ?count ?release ?managerClose ?retire ?adjust
    ?backoff
  case same => exact h
  case backoff => exact fun b => ⟨hnd, hlt, ho, hh, how, he, hw, hr⟩
  case adjust =>
    exact fun c x hx => ⟨hnd, hlt, closed_of_eq ho hx.2.1, hh, how, he, hw, hr⟩
  case acquire =>
    intro d hcr hd
    refine ⟨hnd, hlt, ho, h.has_update d (by rintro _ ⟨⟩), ?_, by simp [XHTTP.evicting],
      by simp [XHTTP.weighing], h.retiring_update d (by rintro _ ⟨⟩)⟩
    rintro d' k' ⟨⟩
    exact update_self d _ s.phase
  case scanEnd | scanKeep =>
    intro d i evd hcr
    rw [hcr] at he
    exact h.setCritical hcr he (by simp [XHTTP.weighing])
  case scanEvict => exact fun d i evd c => h.evict
  case evictClose =>
    intro d c evd _ hcr
    rw [hcr] at he
    simp only [XHTTP.evicting] at he
    have hc := he c mem_cons_self
    refine ⟨hnd, hlt, closed_of_ne ho hc.1 _, hh, ?_, ?_, by simp [XHTTP.weighing], hr⟩
    · rintro d' k' ⟨⟩
      exact how d _ hcr
    · exact fun c' hc' => he c' (mem_cons_of_mem c hc')
  case wait =>
    intro d k hcr
    exact ⟨hnd, hlt, ho, h.has_update d (by rintro _ ⟨⟩), by simp, by simp [XHTTP.evicting],
      by simp [XHTTP.weighing], h.retiring_update d (by rintro _ ⟨⟩)⟩
  case new => exact fun d k now lims _ => h.newClient d now lims
  case weighStart =>
    intro d k hcr
    exact h.setCritical hcr (by simp [XHTTP.evicting]) (by simp [XHTTP.weighing])
  case weighAdmit =>
    intro d c rest cands _ hcr _
    rw [hcr] at hw
    exact h.setCritical hcr (by simp [XHTTP.evicting]) (by grind -linarith [XHTTP.weighing])
  case weighSkip =>
    intro d c rest cands hcr
    rw [hcr] at hw
    exact h.setCritical hcr (by simp [XHTTP.evicting]) (by grind -linarith [XHTTP.weighing])
  case handOut =>
    intro d k cands c hcr hc hf
    have hin : c ∈ s.clients := by
      rcases hf with rfl | ⟨-, rfl⟩
      · exact hw c (by simpa [hcr, XHTTP.weighing] using hc)
      · exact hc
    refine ⟨hnd, hlt, closed_of_eq ho rfl, h.has_update d ?_, by simp,
      by simp [XHTTP.evicting], by simp [XHTTP.weighing], h.retiring_update d (by rintro _ ⟨⟩)⟩
    rintro _ ⟨⟩
    exact hlt c hin
  case count =>
    intro d c hd
    refine ⟨hnd, hlt, closed_of_eq ho (by simp), h.has_update d ?_,
      owner_update how (by simp [hd]) _, he, hw, h.retiring_update d (by rintro _ ⟨⟩)⟩
    rintro _ ⟨⟩
    exact hh d c (by rw [hd, client?])
  case release =>
    intro d c _ hd
    exact ⟨hnd, hlt, closed_of_eq ho (by simp [release]),
      h.has_update d (by rintro _ ⟨⟩), owner_update how (by simp [hd]) _, he, hw,
      h.retiring_update d (by rintro _ ⟨⟩)⟩
  case managerClose =>
    intro d hcr hd
    refine ⟨nodup_nil, by simp, by simp, h.has_update d (by rintro _ ⟨⟩),
      owner_update how (by simp [hd]) _, ?_, ?_, ?_⟩
    · simp [setPhase, hcr, XHTTP.evicting]
    · simp [setPhase, hcr, XHTTP.weighing]
    · refine forall_phase_update
        (P := fun p => ∀ rest, p = .retiring rest → ∀ c ∈ rest, c ∉ [] ∧ c < s.next)
        (fun d' rest hd' c hc => ⟨not_mem_nil, (hr d' rest hd' c hc).2⟩) d ?_
      rintro _ ⟨⟩ c hc
      exact ⟨not_mem_nil, hlt c hc⟩
  case retire =>
    intro d c rest _ hd
    have hre := hr d _ hd
    refine ⟨hnd, hlt, closed_of_ne ho (hre c mem_cons_self).1 _,
      h.has_update d (by rintro _ ⟨⟩), owner_update how (by simp [hd]) _, he, hw,
      h.retiring_update d ?_⟩
    rintro _ ⟨⟩ c' hc'
    exact hre c' (mem_cons_of_mem c hc')

/-! ### The counters -/

section Usage

variable [Fintype ι]

/-- The number of dials that `acquire` has handed the connection to and that have not released
it. -/
def holders (s : XmuxManager ι) (c : ℕ) : ℕ := countOf (fun p => p.client? = some c) s.phase

/-- The number of those among them that have not run `addOpenUsage(1)` yet. -/
def uncounted (s : XmuxManager ι) (c : ℕ) : ℕ := countOf (fun p => p = .acquired c) s.phase

/-- The candidates of the goroutine that weighs the connections. -/
def candidates : Option (ι × Critical) → List ℕ
  | some (_, .weighing _ candidates) => candidates
  | _ => []

/-- The counters, and what is known of closed and of retired connections. -/
structure UsageOk (conf : XmuxConfig) (s : XmuxManager ι) : Prop where
  counted : ∀ c, (s.client c).openUsage = s.holders c - s.uncounted c
  closed_free : ∀ c, (s.client c).connClosed = true →
    s.holders c = 0 ∧ (s.client c).closed = true ∧ (s.client c).tornDown = true
  retired : ∀ c, (s.client c).closed = true → s.holders c = 0 → (s.client c).tornDown = true
  bounded : 0 < conf.concurrency → ∀ c, s.holders c ≤ conf.concurrency
  admitted : ∀ c ∈ candidates s.critical, s.holders c < conf.concurrency

/-- A step is settled if nobody acts on a counter that misses a dial: when a connection is about to
be torn down, or is let through by the test of `max_concurrency`, the dials that were handed the
connection and are not counted yet make no difference. -/
def Settled (conf : XmuxConfig) (s : XmuxManager ι) : Event ι → Prop
  | .evictClose => ∀ d c evicted, s.critical = some (d, .closing (c :: evicted)) →
      (s.client c).openUsage ≤ 0 → s.uncounted c = 0
  | .retire d => ∀ c rest, s.phase d = .retiring (c :: rest) →
      (s.client c).openUsage ≤ 0 → s.uncounted c = 0
  | .release d => ∀ c, s.phase d = .holding c → (s.client c).closed = true →
      (s.client c).openUsage ≤ 1 → s.uncounted c = 0
  | .weigh => ∀ d c rest candidates, s.critical = some (d, .weighing (c :: rest) candidates) →
      (s.client c).openUsage < conf.concurrency →
      (s.client c).openUsage + s.uncounted c < conf.concurrency
  | _ => True

theorem holders_setPhase (s : XmuxManager ι) (d : ι) (p : Phase) (c : ℕ) :
    (s.setPhase d p).holders c + (if (s.phase d).client? = some c then 1 else 0) =
      s.holders c + if p.client? = some c then 1 else 0 :=
  countOf_update s.phase d p

theorem uncounted_setPhase (s : XmuxManager ι) (d : ι) (p : Phase) (c : ℕ) :
    (s.setPhase d p).uncounted c + (if s.phase d = .acquired c then 1 else 0) =
      s.uncounted c + if p = .acquired c then 1 else 0 :=
  countOf_update s.phase d p

section

variable {d : ι} {p : Phase} (hd : (s.phase d).client? = none) (hp : p.client? = none) (c : ℕ)

include hd hp c

theorem holders_setPhase_none : (s.setPhase d p).holders c = s.holders c := by
  have h := s.holders_setPhase d p c
  simpa [hd, hp] using h

theorem uncounted_setPhase_none : (s.setPhase d p).uncounted c = s.uncounted c := by
  have h := s.uncounted_setPhase d p c
  have hd' : s.phase d ≠ .acquired c := fun heq => by simp [heq, client?] at hd
  have hp' : p ≠ .acquired c := fun heq => by simp [heq, client?] at hp
  simpa [hd', hp'] using h

end

variable {c : ℕ}

omit [DecidableEq ι] in
theorem holders_eq_zero : s.holders c = 0 ↔ ∀ d, ¬ s.Has d c := countOf_eq_zero

omit [DecidableEq ι] in
theorem uncounted_le_holders (s : XmuxManager ι) (c : ℕ) : s.uncounted c ≤ s.holders c := by
  refine Finset.card_le_card fun d hd => ?_
  simp only [Finset.mem_filter, Finset.mem_univ, true_and] at hd ⊢
  rw [hd, client?]

variable {conf : XmuxConfig} {s s' : XmuxManager ι}

omit [DecidableEq ι] in
/-- What matters for `UsageOk` is unchanged. -/
theorem UsageOk.congr (h : UsageOk conf s) (hcli : ∀ c, SameUse (s'.client c) (s.client c))
    (hh : ∀ c, s'.holders c = s.holders c) (hu : ∀ c, s'.uncounted c = s.uncounted c)
    (hca : ∀ c ∈ candidates s'.critical, s.holders c < conf.concurrency) : UsageOk conf s' := by
  refine ⟨fun c => ?_, fun c => ?_, fun c => ?_, fun hco c => ?_, fun c hc => ?_⟩
  · rw [(hcli c).1, hh, hu]
    exact h.counted c
  · rw [(hcli c).2.2.1, (hcli c).2.1, (hcli c).2.2.2, hh]
    exact h.closed_free c
  · rw [(hcli c).2.1, (hcli c).2.2.2, hh]
    exact h.retired c
  · rw [hh]
    exact h.bounded hco c
  · rw [hh]
    exact hca c hc

omit [DecidableEq ι] in
theorem UsageOk.only (h : UsageOk conf s) (hcli : ∀ c', c' ≠ c → s'.client c' = s.client c')
    (hh : ∀ c', c' ≠ c → s'.holders c' = s.holders c')
    (hu : ∀ c', c' ≠ c → s'.uncounted c' = s.uncounted c')
    (hcn : (s'.client c).openUsage = s'.holders c - s'.uncounted c)
    (hcl : (s'.client c).connClosed = true →
      s'.holders c = 0 ∧ (s'.client c).closed = true ∧ (s'.client c).tornDown = true)
    (hr : (s'.client c).closed = true → s'.holders c = 0 → (s'.client c).tornDown = true)
    (hb : 0 < conf.concurrency → s'.holders c ≤ conf.concurrency)
    (ha : ∀ c' ∈ candidates s'.critical, s'.holders c' < conf.concurrency) : UsageOk conf s' := by
  refine ⟨fun c' => ?_, fun c' => ?_, fun c' => ?_, fun hc c' => ?_, ha⟩ <;>
    rcases eq_or_ne c' c with rfl | hc'
  · exact hcn
  · rw [hcli c' hc', hh c' hc', hu c' hc']
    exact h.counted c'
  · exact hcl
  · rw [hcli c' hc', hh c' hc']
    exact h.closed_free c'
  · exact hr
  · rw [hcli c' hc', hh c' hc']
    exact h.retired c'
  · exact hb hc
  · rw [hh c' hc']
    exact h.bounded hc c'

/-- The other connections when a goroutine goes on with, or from, the connection `c`. -/
theorem holders_move {s u : XmuxManager ι} (hph : u.phase = update s.phase d p)
    (hd : ∀ c', c' ≠ c → (s.phase d).client? ≠ some c') (hp : ∀ c', c' ≠ c → p.client? ≠ some c')
    (c' : ℕ) (hc' : c' ≠ c) : u.holders c' = s.holders c' ∧ u.uncounted c' = s.uncounted c' := by
  have hh := s.holders_setPhase d p c'
  have hu := s.uncounted_setPhase d p c'
  have hd' : s.phase d ≠ .acquired c' := fun heq => hd c' hc' (by rw [heq, client?])
  have hp' : p ≠ .acquired c' := fun heq => hp c' hc' (by rw [heq, client?])
  rw [if_neg (hd c' hc'), if_neg (hp c' hc')] at hh
  rw [if_neg hd', if_neg hp'] at hu
  rw [holders, uncounted, hph]
  exact ⟨hh, hu⟩

/-- A goroutine goes on with, or from, the connection `c`, which becomes `x`. -/
theorem UsageOk.move (h : UsageOk conf s) {x : XmuxClient} (hph : s'.phase = update s.phase d p)
    (hc : s'.client = update s.client c x) (hd : ∀ c', c' ≠ c → (s.phase d).client? ≠ some c')
    (hp : ∀ c', c' ≠ c → p.client? ≠ some c')
    (hcn : x.openUsage = (s.setPhase d p).holders c - (s.setPhase d p).uncounted c)
    (hcl : x.connClosed = true →
      (s.setPhase d p).holders c = 0 ∧ x.closed = true ∧ x.tornDown = true)
    (hr : x.closed = true → (s.setPhase d p).holders c = 0 → x.tornDown = true)
    (hb : 0 < conf.concurrency → (s.setPhase d p).holders c ≤ conf.concurrency)
    (ha : ∀ c' ∈ candidates s'.critical, (s.setPhase d p).holders c' < conf.concurrency) :
    UsageOk conf s' := by
  have ho := holders_move hph hd hp
  have hh : s'.holders = (s.setPhase d p).holders := by
    funext c'
    rw [holders, hph]
    rfl
  have hu : s'.uncounted = (s.setPhase d p).uncounted := by
    funext c'
    rw [uncounted, hph]
    rfl
  have hs : s'.client c = x := by rw [hc, update_self]
  refine h.only (c := c) (fun c' hc' => ?_) (fun c' hc' => (ho c' hc').1)
    (fun c' hc' => (ho c' hc').2) ?_ ?_ ?_ ?_ ?_
  · rw [hc, update_of_ne hc']
  · rwa [hs, hh, hu]
  · rwa [hs, hh]
  · rwa [hs, hh]
  · rwa [hh]
  · rwa [hh]

omit [DecidableEq ι] in
/-- `close` of a connection, by somebody who goes on without one. -/
theorem UsageOk.close (h : UsageOk conf s) (hcl : s'.client = update s.client c (s.client c).close)
    (hh : ∀ c, s'.holders c = s.holders c) (hu : ∀ c, s'.uncounted c = s.uncounted c)
    (hse : (s.client c).openUsage ≤ 0 → s.uncounted c = 0)
    (ha : ∀ c' ∈ candidates s'.critical, s.holders c' < conf.concurrency) : UsageOk conf s' := by
  have hcn := h.counted c
  have hf := h.closed_free c
  have hs : s'.client c = (s.client c).close := by rw [hcl, update_self]
  -- A connection whose counter is zero has no holder, counted or not.
  have hn : (s.client c).openUsage ≤ 0 → s.holders c = 0 := by
    intro h0
    have := hse h0
    omega
  refine h.only (c := c) (fun c' hc' => ?_) (fun c' _ => hh c') (fun c' _ => hu c')
    ?counted ?closed ?retired (fun hc => ?bounded) (fun c' hc' => ?_)
  case counted =>
    rw [hs, hh, hu, ← hcn]
    simp only [XmuxClient.close, XmuxClient.connClose]
    split_ifs <;> rfl
  case closed =>
    rw [hs, hh]
    simp only [XmuxClient.close, XmuxClient.connClose]
    split_ifs <;> grind -linarith
  case retired =>
    rw [hs, hh]
    intro _ h0
    have hus : (s.client c).openUsage ≤ 0 := by omega
    simp only [XmuxClient.close, XmuxClient.connClose]
    split_ifs <;> grind -linarith
  case bounded =>
    rw [hh]
    exact h.bounded hc c
  · rw [hcl, update_of_ne hc']
  · rw [hh]
    exact ha c' hc'

theorem holders_acquired (hd : (s.phase d).client? = none) (c : ℕ) :
    (s.setPhase d (.acquired c)).holders c = s.holders c + 1 ∧
      (s.setPhase d (.acquired c)).uncounted c = s.uncounted c + 1 := by
  have hh := s.holders_setPhase d (.acquired c) c
  have hu := s.uncounted_setPhase d (.acquired c) c
  have hne : s.phase d ≠ .acquired c := fun heq => by simp [heq, client?] at hd
  rw [hd, if_neg (by simp), if_pos (by rw [client?])] at hh
  rw [if_neg hne, if_pos rfl] at hu
  exact ⟨hh, hu⟩

theorem UsageOk.count (h : UsageOk conf s) (hd : s.phase d = .acquired c) :
    UsageOk conf ((s.setClient c ((s.client c).addOpenUsage 1)).setPhase d (.holding c)) := by
  have hcn := h.counted c
  have hm := s.uncounted_le_holders c
  have hh := s.holders_setPhase d (.holding c) c
  have hu := s.uncounted_setPhase d (.holding c) c
  simp only [hd, client?, if_true, reduceCtorEq, if_false] at hh hu
  have ho := holders_move (s := s) (u := s.setPhase d (.holding c)) (c := c) rfl
    (by simp [hd, client?, eq_comm]) (by simp [client?, eq_comm])
  have ha : ∀ c', (s.setPhase d (.holding c)).holders c' = s.holders c' := by
    intro c'
    rcases eq_or_ne c' c with rfl | hc'
    · omega
    · exact (ho c' hc').1
  -- The counter is positive now, so nothing is torn down.
  have hs : (s.client c).addOpenUsage 1 =
      { s.client c with openUsage := (s.client c).openUsage + 1 } := by
    simp only [addOpenUsage]
    exact if_neg fun hl => by omega
  rw [hs]
  refine h.move (p := .holding c) rfl rfl (by simp [hd, client?, eq_comm])
    (by simp [client?, eq_comm]) ?_ ?_ ?_ ?_ ?_
  · simp only
    omega
  · rw [ha c]
    exact h.closed_free c
  · rw [ha c]
    exact h.retired c
  · rw [ha c]
    exact fun hc => h.bounded hc c
  · intro c' hc'
    rw [ha c']
    exact h.admitted c' hc'

theorem UsageOk.release (h : UsageOk conf s) (hd : s.phase d = .holding c)
    (hl : (s.client c).closed = true → (s.client c).openUsage ≤ 1 → s.uncounted c = 0) :
    UsageOk conf ((s.setClient c (s.client c).release).setPhase d .released) := by
  have hcn := h.counted c
  have hf := h.closed_free c
  have hm := s.uncounted_le_holders c
  have hh := s.holders_setPhase d .released c
  have hu := s.uncounted_setPhase d .released c
  simp only [hd, client?, if_true, reduceCtorEq, if_false] at hh hu
  have ho := holders_move (s := s) (u := s.setPhase d .released) (c := c) rfl
    (by simp [hd, client?, eq_comm]) (by simp [client?])
  refine h.move (p := .released) rfl rfl (by simp [hd, client?, eq_comm])
    (by simp [client?]) ?_ ?_ ?_ ?_ ?_
  · simp only [XmuxClient.release, addOpenUsage, XmuxClient.connClose]
    split_ifs <;> simp only <;> omega
  · simp only [XmuxClient.release, addOpenUsage, XmuxClient.connClose]
    split_ifs <;> grind -linarith
  · simp only [XmuxClient.release, addOpenUsage, XmuxClient.connClose]
    split_ifs <;> grind -linarith
  · intro hc
    have hb := h.bounded hc c
    omega
  · intro c' hc'
    have ha := h.admitted c' hc'
    rcases eq_or_ne c' c with rfl | hne
    · omega
    · rw [(ho c' hne).1]
      exact ha

theorem UsageOk.step (hpo : PoolOk s) (h : UsageOk conf s) (e : Event ι)
    (hse : Settled conf s e) : UsageOk conf (s.step conf e) := by
  have hs : ∀ c, SameUse (s.client c) (s.client c) := fun c => ⟨rfl, rfl, rfl, rfl⟩
  -- The goroutine inside the lock has no connection yet.
  have ho : ∀ d k, s.critical = some (d, k) → (s.phase d).client? = none :=
    fun d k hk => by simp [hpo.owner d k hk, client?]
  refine step_cases e ?same ?acquire ?scanEnd ?scanEvict ?scanKeep ?evictClose ?wait ?new
    ?weighStart ?weighAdmit ?weighSkip ?handOut ?count ?release ?managerClose ?retire ?adjust
    ?backoff
  case same => exact h
  case backoff => exact fun b => h.congr hs (fun _ => rfl) (fun _ => rfl) h.admitted
  case scanEnd | scanKeep | scanEvict | weighStart =>
    intros
    exact h.congr hs (fun _ => rfl) (fun _ => rfl) (by simp [candidates])
  case acquire =>
    intro d _ hd
    have hn : (s.phase d).client? = none := by simp [hd, client?]
    exact h.congr hs (holders_setPhase_none hn rfl) (uncounted_setPhase_none hn rfl)
      (by simp [candidates])
  case wait =>
    intro d k hk
    exact h.congr hs (holders_setPhase_none (ho d k hk) rfl)
      (uncounted_setPhase_none (ho d k hk) rfl) (by simp [candidates])
  case managerClose =>
    intro d hcr hd
    have hn : (s.phase d).client? = none := by simp [hd, client?]
    exact h.congr hs (holders_setPhase_none hn rfl) (uncounted_setPhase_none hn rfl) h.admitted
  case weighAdmit =>
    rintro d c rest cands rfl hcr hu
    refine h.congr hs (fun _ => rfl) (fun _ => rfl) fun c' hc' => ?_
    have ha := h.admitted
    rw [hcr] at ha
    rcases mem_append.mp hc' with hc' | hc'
    · exact ha c' hc'
    · -- The counter and the dials it misses are all the holders.
      rw [mem_singleton.mp hc']
      have hcn := h.counted c
      have hw := hse d c rest cands hcr hu
      omega
  case weighSkip =>
    intro d c rest cands hcr
    have ha := h.admitted
    rw [hcr] at ha
    exact h.congr hs (fun _ => rfl) (fun _ => rfl) ha
  case adjust =>
    intro c x hx
    refine h.congr (fun c' => ?_) (fun _ => rfl) (fun _ => rfl) h.admitted
    rcases eq_or_ne c' c with rfl | hc'
    · simpa [setClient] using hx
    · simpa [setClient, update_of_ne hc'] using hs c'
  case evictClose =>
    rintro d c evd rfl hcr
    exact h.close rfl (fun _ => rfl) (fun _ => rfl) (hse d c evd hcr) (by simp [candidates])
  case retire =>
    rintro d c rest rfl hd
    have hn : (s.phase d).client? = none := by simp [hd, client?]
    have hcl : ((s.setClient c (s.client c).close).setPhase d (.retiring rest)).client =
        update s.client c (s.client c).close := rfl
    exact h.close hcl (holders_setPhase_none hn rfl) (uncounted_setPhase_none hn rfl)
      (hse c rest hd) h.admitted
  case new =>
    intro d k now lims hk
    have h0 : s.holders s.next = 0 := holders_eq_zero.mpr fun d' hd' => (hpo.has_lt d' _ hd').false
    have hm := s.uncounted_le_holders s.next
    obtain ⟨hh, hun⟩ := holders_acquired (ho d k hk) s.next
    refine h.move (p := .acquired s.next) rfl rfl (by simp [ho d k hk])
      (by simp [client?, eq_comm]) ?_ (by simp [new]) (by simp [new])
      ?_ (by simp [newClient, candidates])
    · change (0 : ℤ) = _
      omega
    · omega
  case handOut =>
    intro d k cands c hk hc hf
    have hpl : c ∈ s.clients := by
      rcases hf with rfl | ⟨-, rfl⟩
      · exact hpo.weighing c (by simpa [hk, XHTTP.weighing] using hc)
      · exact hc
    have hop := hpo.mem_open c hpl
    obtain ⟨hh, hun⟩ := holders_acquired (ho d k hk) c
    refine h.move (p := .acquired c) rfl rfl (by simp [ho d k hk])
      (by simp [client?, eq_comm]) ?_ ?_ ?_ ?_ (by simp [candidates])
    · have hcn := h.counted c
      simp only [XmuxClient.handOut]
      omega
    · have hfr := h.closed_free c
      simp only [XmuxClient.handOut, hop] at *
      grind -linarith
    · simp [XmuxClient.handOut, hop]
    · intro hco
      rcases hf with rfl | ⟨h0, -⟩
      · have ha := h.admitted c (by simpa [hk, candidates] using hc)
        omega
      · omega
  case count => exact fun d c => h.count
  case release =>
    rintro d c rfl hd
    exact h.release hd (hse c hd)

/-! ### Runs -/

/-- The invariant of the pool. -/
structure Inv (conf : XmuxConfig) (s : XmuxManager ι) : Prop where
  pool : PoolOk s
  usage : UsageOk conf s

theorem Inv.step (h : Inv conf s) (e : Event ι) (hs : Settled conf s e) :
    Inv conf (s.step conf e) :=
  ⟨h.pool.step e, h.usage.step h.pool e hs⟩

omit [DecidableEq ι] in
theorem inv_initial (conf : XmuxConfig) : Inv conf ({} : XmuxManager ι) := by
  have hh : ∀ c, ({} : XmuxManager ι).holders c = 0 :=
    fun c => holders_eq_zero.mpr fun d hd => by simp [Has, client?] at hd
  have hu : ∀ c, ({} : XmuxManager ι).uncounted c = 0 :=
    fun c => le_zero.mp ((uncounted_le_holders _ c).trans_eq (hh c))
  refine ⟨?_, fun c => ?_, ?_, ?_, ?_, ?_⟩
  · constructor <;> simp [evicting, weighing, client?]
  · rw [hh, hu]
    rfl
  · simp
  · simp
  · exact fun _ c => (hh c).trans_le (zero_le _)
  · simp [candidates]

/-- In every run of settled steps, a connection that was handed to a dial is not closed before the
dial releases it, no connection has more holders than `max_concurrency`, and a retired connection
that all its holders have released has been torn down after the last release. -/
theorem retired_not_in_use (conf : XmuxConfig) (events : ℕ → Event ι) (n : ℕ)
    (hsettled : ∀ t < n, Settled conf (run (step conf) {} events t) (events t)) (c : ℕ) :
    let s := run (step conf) {} events n
    (∀ d, s.Has d c → (s.client c).connClosed = false) ∧
    (0 < conf.concurrency → s.holders c ≤ conf.concurrency) ∧
    ((s.client c).closed = true → (∀ d, ¬ s.Has d c) → (s.client c).tornDown = true) := by
  intro s
  have hi : Inv conf s :=
    run_preserved (P := fun _ s => Inv conf s) (zero_le n) (inv_initial conf)
      fun t _ ht h => h.step (events t) (hsettled t ht)
  refine ⟨fun d hd => ?_, fun hc => hi.usage.bounded hc c, fun hcl hn => ?_⟩
  · by_contra hcl
    rw [Bool.not_eq_false] at hcl
    exact holders_eq_zero.mp (hi.usage.closed_free c hcl).1 d hd
  · exact hi.usage.retired c hcl (holders_eq_zero.mpr hn)

end Usage

/-- The pool itself is never at fault: a connection is in it once and only while it is open, one
that is being evicted or retired has left it, and a dial that chooses does so among its members. -/
theorem clients_run (conf : XmuxConfig) (events : ℕ → Event ι) (n : ℕ) :
    let s := run (step conf) {} events n
    s.clients.Nodup ∧ (∀ c ∈ s.clients, (s.client c).closed = false) ∧
    (∀ c ∈ evicting s.critical, c ∉ s.clients) ∧ (∀ c ∈ weighing s.critical, c ∈ s.clients) ∧
    ∀ d rest, s.phase d = .retiring rest → ∀ c ∈ rest, c ∉ s.clients := by
  intro s
  have hini : PoolOk ({} : XmuxManager ι) := by
    constructor <;> simp [evicting, weighing, client?]
  have h : PoolOk s := run_invariant hini (fun _ e h => h.step e) n
  exact ⟨h.nodup, h.mem_open, fun c hc => (h.evicting c hc).1, h.weighing,
    fun d rest hd c hc => (h.retiring d rest hd c hc).1⟩

/-- The events of a finite trace, and then nothing that matters. -/
def eventsOf (trace : List (Event (Fin 3))) (n : ℕ) : Event (Fin 3) := trace.getD n .resetBackoff

/-- No limits. -/
def noLimits : Limits := ⟨0, 0, 0⟩

/-- A dial of `d` up to `acquire`, with an empty pool. -/
def acquireNew (d : Fin 3) (limits : Limits) : List (Event (Fin 3)) :=
  [.acquire d, .scan 0, .choose 0 limits 0]

/-- The first dial opens a connection, it is retired while the dial runs, and torn down with the
release. -/
def exampleTrace : List (Event (Fin 3)) :=
  acquireNew 0 noLimits ++ [.count 0, .managerClose 1, .retire 1, .release 0]

theorem retired_not_in_use_example :
    let s := run (step ⟨1, 0⟩) {} (eventsOf exampleTrace) 7
    s.phase 0 = .released ∧ (s.client 0).closed = true ∧
      ((∀ d, ¬ s.Has d 0) → (s.client 0).tornDown = true) := by
  have h := retired_not_in_use ⟨1, 0⟩ (eventsOf exampleTrace) 7 (by
    intro t ht
    interval_cases t
    · trivial
    · trivial
    · trivial
    · trivial
    · trivial
    · intro c rest hph _
      have hr :
          (run (step ⟨1, 0⟩) {} (eventsOf exampleTrace) 5).phase 1 = .retiring [0] := by
        decide
      cases hr.symm.trans hph
      decide
    · intro c hph _ _
      have hh : (run (step ⟨1, 0⟩) {} (eventsOf exampleTrace) 6).phase 0 = .holding 0 := by
        decide
      cases hh.symm.trans hph
      decide) 0
  exact ⟨by decide, by decide, h.2.2 (by decide)⟩

/-- The state after a trace. -/
def runOf (conf : XmuxConfig) (trace : List (Event (Fin 3))) : XmuxManager (Fin 3) :=
  run (step conf) {} (eventsOf trace) trace.length

/-- A new connection may be used once. It is evicted by the second dial before the first one is
counted. -/
def evictedUncounted : List (Event (Fin 3)) :=
  acquireNew 0 ⟨1, 0, 0⟩ ++ [.acquire 1, .scan 0, .scan 0, .evictClose]

/-- Two dials are handed the same connection before either is counted. -/
def twiceUncounted : List (Event (Fin 3)) :=
  acquireNew 0 noLimits ++
    [.acquire 1, .scan 0, .scan 0, .choose 0 noLimits 0, .weigh, .pick 0 noLimits 0]

/-- A closed connection is handed out, and the release of the dial does not tear it down again. -/
theorem retired_in_use :
    ((runOf ⟨0, 0⟩ evictedUncounted).Has 0 0 ∧
      ((runOf ⟨0, 0⟩ evictedUncounted).client 0).connClosed = true) ∧
    (runOf ⟨1, 0⟩ twiceUncounted).Has 0 0 ∧ (runOf ⟨1, 0⟩ twiceUncounted).Has 1 0 ∧
    (let s := runOf ⟨0, 0⟩ (evictedUncounted ++ [.count 0, .release 0])
     (s.client 0).closed = true ∧ (∀ d, ¬ s.Has d 0) ∧ (s.client 0).tornDown = false) := by
  unfold Has
  decide

end XmuxManager

end SingBox.XHTTP
