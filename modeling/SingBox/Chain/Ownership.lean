import SingBox.Chain.Eviction

/-!
# Who closes a link

A link is created by one caller of `cloneFor`, which stores it in the map or, if the chain was
closed meanwhile, closes it; `evictIdle` and `Close` take links out of the map and close them after
they have released the lock. `Close` does not wait for `evictIdle`.
-/

namespace SingBox.Chain

open Foundation Function Caller List Evictor

variable {ι : Type}

/-- The creation that a caller runs: its key, and the link once `createClone` has returned one. -/
def Caller.creation? : Caller → Option (CloneKey × Option ℕ)
  | .creating key => some (key, none)
  | .created key result => some (key, result.map Prod.fst)
  | _ => none

/-- The caller is in `cloneFor`. -/
def Caller.calls : Caller → Bool
  | .waiting _ | .creating _ | .created .. | .found _ | .picked .. => true
  | _ => false

/-- The links that `evictIdle` has taken out of the map and not closed. -/
def Evictor.victims : Evictor → List ℕ
  | .scanning _ _ victims | .loaded _ _ _ _ victims | .closing _ victims => victims
  | _ => []

/-- A chain with the links that `Close` and the failed calls of `cloneFor` have still to close, and
the number of calls of `clone.close` for each link; the first closes its scope (`closeOnce`). -/
structure Lifecycle (ι : Type) where
  chain : ChainState ι
  pending : List ℕ
  closes : ℕ → ℕ

/-- A step of the chain, or `clone.close` in `Close` or at the end of a failed call. -/
inductive Act (ι : Type) where
  | chain (e : Event ι)
  | close (l : ℕ)

/-- The links that a step leaves to `Close` or to a failed call of `cloneFor`. -/
def ChainState.taken (s : ChainState ι) : Event ι → List ℕ
  | .register i => if s.closed && !s.evictor.locked then (s.callers i).created?.toList else []
  | .closeChain =>
    if s.evictor.locked then []
    else (List.range s.nextLink).filter fun l => s.clones (s.links l).key = some l
  | _ => []

namespace Lifecycle

/-- `clone.close`. -/
def closed (s : Lifecycle ι) (l : ℕ) : ℕ → ℕ := Function.update s.closes l (s.closes l + 1)

/-- A step. -/
def step [DecidableEq ι] (idleTimeout : ℕ) (s : Lifecycle ι) : Act ι → Lifecycle ι
  | .chain e =>
    { chain := s.chain.step idleTimeout e
      pending := s.pending ++ s.chain.taken e
      closes := match e, s.chain.evictor with
        | .evictClose, .closing _ (l :: _) => s.closed l
        | _, _ => s.closes }
  | .close l =>
    if l ∈ s.pending then { s with pending := s.pending.erase l, closes := s.closed l } else s

def initial (time : ℕ) : Lifecycle ι := ⟨ChainState.initial time, [], fun _ => 0⟩

/-- `Close` and the calls of `cloneFor` have returned. -/
def Over (s : Lifecycle ι) : Prop := s.pending = [] ∧ ∀ i, (s.chain.callers i).calls = false

/-- Links are neither leaked nor doubled, where `stored` are those that have been in the map. -/
structure Sound (s : Lifecycle ι) (stored : ℕ → Prop) : Prop where
  one_creation : ∀ i j key r r', (s.chain.callers i).creation? = some (key, r) →
    (s.chain.callers j).creation? = some (key, r') → i = j
  stored_or_closed : s.Over → s.chain.evictor.victims = [] → ∀ l < s.chain.nextLink,
    s.closes l = if s.chain.clones (s.chain.links l).key = some l then 0 else 1
  once : ∀ l, s.closes l ≤ 1
  none_open : s.chain.closed → s.Over → ∀ l < s.chain.nextLink, s.closes l = 1
  obtained : ∀ i l, s.chain.Uses i l → stored l

/-! ### The owner of a link -/

/-- How often a link has been handed over to be closed. -/
def gone (s : Lifecycle ι) (l : ℕ) : ℕ :=
  s.chain.evictor.victims.count l + s.pending.count l + s.closes l

/-- Each link is with its creator, in the map, or handed over once. -/
structure Owned (s : Lifecycle ι) : Prop where
  stored : ∀ {k l}, s.chain.clones k = some l →
    l < s.chain.nextLink ∧ (s.chain.links l).key = k ∧ s.gone l = 0
  created : ∀ {i k l}, (s.chain.callers i).creation? = some (k, some l) →
    l < s.chain.nextLink ∧ (s.chain.links l).key = k ∧ s.gone l = 0
  creating : ∀ {i k r}, (s.chain.callers i).creation? = some (k, r) →
    s.chain.inflight k = true ∧ s.chain.clones k = none
  one : ∀ {i j k r r'}, (s.chain.callers i).creation? = some (k, r) →
    (s.chain.callers j).creation? = some (k, r') → i = j
  loaded : ∀ {now k l todo victims}, s.chain.evictor = .loaded now k l todo victims →
    s.chain.clones k = some l
  closed : s.chain.closed → ∀ k, s.chain.clones k = none
  kept : ∀ l < s.chain.nextLink, s.chain.clones (s.chain.links l).key = some l ∨
    (∃ i, (s.chain.callers i).creation? = some ((s.chain.links l).key, some l)) ∨ s.gone l = 1
  new : ∀ l, s.chain.nextLink ≤ l → s.gone l = 0

/-- A step that moves no link, and starts or ends no creation. -/
structure Quiet (c c' : ChainState ι) : Prop where
  clones : c'.clones = c.clones
  next : c'.nextLink = c.nextLink
  inflight : c'.inflight = c.inflight
  closed : c'.closed = c.closed
  key : ∀ l, (c'.links l).key = (c.links l).key
  creation : ∀ i, (c'.callers i).creation? = (c.callers i).creation?
  loaded : ∀ {now k l todo victims}, c'.evictor = .loaded now k l todo victims →
    c.evictor = .loaded now k l todo victims ∨ c.clones k = some l

variable {s s' : Lifecycle ι} {c : ChainState ι} {idleTimeout : ℕ}

theorem Quiet.refl (c : ChainState ι) : Quiet c c :=
  ⟨rfl, rfl, rfl, rfl, fun _ => rfl, fun _ => rfl, .inl⟩

open ChainState Quiet

theorem quiet_setLink (c : ChainState ι) (l : ℕ) (f : Link → Link)
    (hf : ∀ link, (f link).key = link.key) : Quiet c (c.setLink l f) where
  __ := refl c
  key l' := by
    simp only [setLink, update_apply]
    split_ifs with hl
    · rw [hf, hl]
    · rfl

theorem Owned.quiet (h : Owned s) (hq : Quiet s.chain s'.chain)
    (hg : ∀ l, s'.gone l = s.gone l) : Owned s' := by
  obtain ⟨hclones, hn, hi, hcl, hk, hc, hl⟩ := hq
  constructor <;> simp only [hclones, hn, hi, hcl, hk, hc, hg]
  · exact h.stored
  · exact h.created
  · exact h.creating
  · exact h.one
  · exact fun hev => (hl hev).elim h.loaded id
  · exact h.closed
  · exact h.kept
  · exact h.new

/-- `evictIdle` goes on with the victims it has. -/
theorem Owned.evictor (h : Owned s) {ev : Evictor}
    (hl : ∀ {now k l todo victims}, ev = .loaded now k l todo victims →
      s.chain.clones k = some l) (hv : ev.victims = s.chain.evictor.victims) :
    Owned { s with chain := { s.chain with evictor := ev } } :=
  h.quiet { refl s.chain with loaded := fun hev => .inr (hl hev) }
    fun l => by simp only [gone, hv]

/-- `Close` takes the links out of the map. -/
theorem Owned.closeChain (h : Owned s) (hl : s.chain.evictor.locked = false) : Owned { s with
      chain := { s.chain with closed := true, clones := fun _ => none }
      pending := s.pending ++ (range s.chain.nextLink).filter fun l =>
        s.chain.clones (s.chain.links l).key = some l } := by
  obtain ⟨h1, h2, h3, h4, h5, h6, h7, h8⟩ := h
  simp only [gone] at h1 h2 h7 h8
  have hc : ∀ l, ((range s.chain.nextLink).filter fun l =>
      s.chain.clones (s.chain.links l).key = some l).count l =
      if s.chain.clones (s.chain.links l).key = some l then 1 else 0 := by
    intro l
    rw [(nodup_range.filter _).count]
    simp only [mem_filter, mem_range, decide_eq_true_eq]
    grind -linarith
  constructor <;>
    simp only [gone, count_append, hc] <;>
    grind -linarith [locked]

/-- `evictIdle` takes a link out of the map. -/
theorem Owned.remove (h : Owned s) {now l : ℕ} {key : CloneKey} {todo : List (CloneKey × ℕ)}
    {victims : List ℕ} (hev : s.chain.evictor = .loaded now key l todo victims) :
    Owned { s with chain := { s.chain with
      clones := update s.chain.clones key none
      evictor := .scanning now todo (victims ++ [l]) } } := by
  obtain ⟨h1, h2, h3, h4, h5, h6, h7, h8⟩ := h
  simp only [gone] at h1 h2 h7 h8
  have hs := h5 hev
  have hv : s.chain.evictor.victims = victims := by rw [hev]; rfl
  rw [hv] at h1 h2 h7 h8
  constructor <;>
    simp only [gone, update_apply, Evictor.victims, count_append, count_singleton, beq_iff_eq] <;>
    grind -linarith

variable [DecidableEq ι]

/-- A caller goes on, without a creation or with the same. -/
theorem Owned.setCaller (h : Owned s) (hc : Quiet s.chain c) (hev : c.evictor = s.chain.evictor)
    {i : ι} {d : Caller} (hd : d.creation? = (s.chain.callers i).creation?) :
    Owned { s with chain := c.setCaller i d } := by
  refine h.quiet { hc with creation := fun j => ?_ } fun l => ?_
  · simp only [ChainState.setCaller, update_apply]
    split_ifs with hj
    · rw [hj, hd]
    · exact hc.creation j
  · simp only [gone, ChainState.setCaller, hev]

/-- The second locked section of `cloneFor`. -/
theorem Owned.register (h : Owned s) {i : ι} {key : CloneKey} {res : Option (ℕ × ℕ)}
    (hi : s.chain.callers i = .created key res) (hl : s.chain.evictor.locked = false) :
    Owned { s with chain := s.chain.register i key res, pending := s.pending ++
        if s.chain.closed then (Caller.created key res).created?.toList else [] } := by
  obtain ⟨h1, h2, h3, h4, h5, h6, h7, h8⟩ := h
  simp only [gone] at h1 h2 h7 h8
  have hc : (s.chain.callers i).creation? = some (key, res.map Prod.fst) := by
    rw [hi]; rfl
  rcases res with _ | ⟨l, p⟩ <;> cases hcl : s.chain.closed
  all_goals
    simp only [ChainState.register, ChainState.release, ChainState.setCaller, hcl, created?]
    constructor <;>
      simp [gone, update_apply, count_cons] <;>
      grind -linarith [creation?, locked]

theorem Owned.step (h : Owned s) (a : Act ι) : Owned (s.step idleTimeout a) := by
  cases a with
  | close l =>
    simp only [Lifecycle.step]
    split_ifs with hl
    · refine h.quiet (Quiet.refl _) fun l' => ?_
      have := count_pos_iff.mpr hl
      simp only [gone, Lifecycle.closed, count_erase, update_apply, beq_iff_eq]
      grind -linarith
    · exact h
  | chain e =>
    cases e <;> simp only [Lifecycle.step, ChainState.taken, append_nil, ChainState.step,
      ChainState.callerStep, ChainState.evictStep, ChainState.evictLoadActive,
      ChainState.evictLoadPicked]
    case tick => exact h.quiet { Quiet.refl s.chain with } fun _ => rfl
    case touch i | finish i | dial i | count i | hangUp i =>
      cases hi : s.chain.callers i <;> try exact h
      all_goals
        refine h.setCaller (quiet_setLink _ _ _ ?_) rfl ?_
        · exact fun _ => rfl
        · simp only [hi, creation?]
    case dialed i ok =>
      cases hi : s.chain.callers i <;> try exact h
      exact h.setCaller (Quiet.refl _) rfl (by rw [hi]; cases ok <;> rfl)
    case lookup i key =>
      cases hi : s.chain.callers i <;> try exact h
      simp only [ChainState.lookup]
      cases hk : s.chain.clones key <;> split_ifs <;>
        try first | exact h | exact h.setCaller (Quiet.refl _) rfl (by rw [hi]; rfl)
      -- a creation begins
      obtain ⟨h1, h2, h3, h4, h5, h6, h7, h8⟩ := h
      constructor <;>
        simp only [gone, ChainState.setCaller, update_apply] at * <;>
        grind -linarith [creation?]
    case create i ok =>
      cases hi : s.chain.callers i <;> try exact h
      cases ok with
      | false => exact h.setCaller (Quiet.refl _) rfl (by rw [hi]; rfl)
      | true =>
        obtain ⟨h1, h2, h3, h4, h5, h6, h7, h8⟩ := h
        simp only [ChainState.create, if_true]
        constructor <;>
          simp only [gone, ChainState.setCaller, update_apply] at * <;>
          grind -linarith [creation?]
    case register i =>
      cases hi : s.chain.callers i
      case created key result =>
        cases hlo : s.chain.evictor.locked with
        | true => simpa using h
        | false => simpa using h.register hi hlo
      all_goals simpa [created?] using h
    case closeChain =>
      cases hlo : s.chain.evictor.locked with
      | true => simpa using h
      | false => exact h.closeChain hlo
    case evictBegin | evictLock =>
      cases hev : s.chain.evictor <;> try exact h
      exact h.evictor (by rintro _ _ _ _ _ ⟨⟩) (by rw [hev]; rfl)
    case evictLoadActive =>
      split
      · split_ifs with hl
        · exact h.evictor (by rintro _ _ _ _ _ ⟨⟩; exact hl.1) (by simp [*]; rfl)
        · exact h.evictor (by rintro _ _ _ _ _ ⟨⟩) (by simp [*]; rfl)
      · exact h
    case evictLoadPicked =>
      cases hev : s.chain.evictor <;> try exact h
      simp only
      split_ifs
      · exact h.evictor (by rintro _ _ _ _ _ ⟨⟩) (by rw [hev]; rfl)
      · exact h.remove hev
    case evictUnlock =>
      split
      · exact h.evictor (by rintro _ _ _ _ _ ⟨⟩) (by simp [*]; rfl)
      · exact h
    case evictClose =>
      rcases hev : s.chain.evictor with _ | _ | _ | _ | ⟨now, _ | ⟨l, vs⟩⟩ <;> try exact h
      · exact h.evictor (by rintro _ _ _ _ _ ⟨⟩) (by rw [hev]; rfl)
      · have hq := quiet_setLink s.chain l
          (fun link => { link with evictedAt := some s.chain.time }) fun _ => rfl
        refine h.quiet { hq with loaded := by rintro _ _ _ _ _ ⟨⟩ } fun l' => ?_
        simp only [gone, hev, Evictor.victims, Lifecycle.closed, count_cons,
          update_apply, beq_iff_eq]
        grind -linarith

omit [DecidableEq ι] in
theorem Owned.gone_le (h : Owned s) (l : ℕ) : s.gone l ≤ 1 := by
  by_cases hl : l < s.chain.nextLink
  · rcases h.kept l hl with hk | ⟨i, hi⟩ | hg
    · exact (h.stored hk).2.2 ▸ zero_le_one
    · exact (h.created hi).2.2 ▸ zero_le_one
    · exact hg.le
  · exact h.new l (not_lt.mp hl) ▸ zero_le_one

omit [DecidableEq ι] in
/-- When nobody has a link left to close, a link that is not in the map was closed once. -/
theorem Owned.closes_eq (h : Owned s) (ho : s.Over) (hv : s.chain.evictor.victims = [])
    {l : ℕ} (hl : l < s.chain.nextLink) :
    s.closes l = if s.chain.clones (s.chain.links l).key = some l then 0 else 1 := by
  have hg : s.gone l = s.closes l := by simp [gone, hv, ho.1]
  rw [← hg]
  split_ifs with hk
  · exact (h.stored hk).2.2
  · rcases h.kept l hl with hk' | ⟨i, hi⟩ | h1
    · exact absurd hk' hk
    · have := ho.2 i
      cases hc : s.chain.callers i <;> simp [hc, creation?, calls] at hi this
    · exact h1

/-- What a caller obtains in `cloneFor` is in the map at that time. -/
theorem uses_step {a : Act ι} {i : ι} {l : ℕ} (hu : (s.step idleTimeout a).chain.Uses i l) :
    s.chain.Uses i l ∨ (∃ k, s.chain.clones k = some l) ∨
      ∃ k, (s.step idleTimeout a).chain.clones k = some l := by
  cases a with
  | close l' =>
    simp only [step, apply_ite chain, ite_self] at hu
    exact .inl hu
  | chain e =>
    revert hu
    simp only [step]
    refine step_links_cases (P := fun c => c.Uses i l → s.chain.Uses i l ∨
      (∃ k, s.chain.clones k = some l) ∨ ∃ k, c.clones k = some l) e ?_ ?_ ?_
    · exact fun c hc hu => (hc.uses hu).imp id .inl
    · intro j key _
      simp only [ChainState.Uses, setCaller, update_apply]
      grind -linarith [link?]
    · intro j key l' p _ hu
      have hl : s.chain.Uses i l ∨ l' = l := by
        simp only [ChainState.Uses, setCaller, release, update_apply] at hu ⊢
        grind -linarith [link?]
      refine hl.imp id fun heq => .inr ⟨key, ?_⟩
      simp [heq]

/-! ### Runs -/

/-- **No link is leaked or closed twice**, up to the links that `evictIdle` still has to close when
`Close` has returned. -/
theorem sound_iff (idleTimeout time : ℕ) (acts : ℕ → Act ι) (n : ℕ) :
    Sound (run (step idleTimeout) (initial time) acts n) (fun l => ∃ m ≤ n, ∃ key,
        (run (step idleTimeout) (initial time) acts m).chain.clones key = some l) ↔
      ((run (step idleTimeout) (initial time) acts n).chain.closed →
        (run (step idleTimeout) (initial time) acts n).Over →
        (run (step idleTimeout) (initial time) acts n).chain.evictor.victims = []) := by
  have h : Owned (run (step idleTimeout) (initial time) acts n) := by
    refine run_invariant ?_ (fun _ a h => h.step a) n
    constructor <;> simp [initial, ChainState.initial, gone, Evictor.victims, creation?]
  refine ⟨fun hs hcl ho => ?_, fun hw => ⟨fun _ _ _ _ _ => h.one, ?_, ?_, ?_, ?_⟩⟩
  · -- a victim has been handed over and not closed
    refine eq_nil_iff_forall_not_mem.mpr fun l hl => ?_
    have hc := count_pos_iff.mpr hl
    have hle := h.gone_le l
    have hn := h.new l
    have hop := hs.none_open hcl ho l
    simp only [gone] at hle hn
    omega
  · exact fun ho hv l hl => h.closes_eq ho hv hl
  · exact fun l => (Nat.le_add_left _ _).trans (h.gone_le l)
  · intro hcl ho l hl
    rw [h.closes_eq ho (hw hcl ho) hl, h.closed hcl, if_neg (by simp)]
  · clear h hw
    induction n with
    | zero => rintro i l ⟨⟩
    | succ n ih =>
      intro i l hu
      rcases uses_step hu with hol | hk | hk
      · obtain ⟨m, hm, hk⟩ := ih i l hol
        exact ⟨m, hm.trans n.le_succ, hk⟩
      · exact ⟨n, n.le_succ, hk⟩
      · exact ⟨n + 1, le_rfl, hk⟩

/-- `Close` returns while `evictIdle` has a link to close. -/
def closedMeanwhile : List (Act Unit) :=
  (ChainState.exampleUse ++ [Event.tick 5] ++ ChainState.exampleEvict.dropLast ++
    [Event.closeChain]).map Act.chain

theorem not_sound :
    ¬ Sound (run (step 1) (initial 0) (fun n => closedMeanwhile.getD n (.close 0)) 15) (fun l =>
      ∃ m ≤ 15, ∃ key, (run (step 1) (initial 0)
        (fun n => closedMeanwhile.getD n (.close 0)) m).chain.clones key = some l) := by
  intro h
  have ho := h.none_open (by decide) ⟨by decide, fun i => by decide +revert⟩ 0 (by decide)
  revert ho
  decide

end Lifecycle

end SingBox.Chain
