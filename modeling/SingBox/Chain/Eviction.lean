import SingBox.Chain.Clone
import SingBox.Foundation.Count

/-!
# Eviction and the use of links

`evictIdle` takes a link out of the map when its counter is zero and its last pick is older than
`idle_timeout`. A caller of `cloneFor` stores its pick after it has released the lock, and its
connection is counted when the inner dial has returned; if no caller is caught in between, or
dials for longer than `idle_timeout`, an evicted link is not in use.
-/

namespace SingBox.Chain

open Foundation Function Caller

variable {ι : Type} [DecidableEq ι]

theorem Caller.link?_or_created? {c : Caller} {l p : ℕ} (h : c.pick? = some (l, p)) :
    c.link? = some l ∨ c.created? = some l := by
  cases c with
  | created key result => cases result <;> simp_all [pick?, created?]
  | _ => simp_all [pick?, link?]

namespace ChainState

/-! ### What a step can do -/

variable {s : ChainState ι} {idleTimeout : ℕ} {P : ChainState ι → Prop} {c : Caller}

theorem step_cases (e : Event ι) (same : P s) (tick : ∀ d, P { s with time := s.time + d })
    (hit : ∀ i key l, s.evictor.locked = false → s.callers i = .idle → s.clones key = some l →
      P (s.setCaller i (.found l)))
    (wait : ∀ i key, s.callers i = .idle → P (s.setCaller i (.waiting key)))
    (start : ∀ i key, s.callers i = .idle →
      P { s.setCaller i (.creating key) with inflight := update s.inflight key true })
    (create : ∀ i key, s.callers i = .creating key →
      P { s.setCaller i (.created key (some (s.nextLink, s.time))) with
          links := update s.links s.nextLink { key, lastPicked := s.time }
          nextLink := s.nextLink + 1 })
    (createFailed : ∀ i key, s.callers i = .creating key → P (s.setCaller i (.created key none)))
    (register : ∀ i key l p, s.evictor.locked = false → s.callers i = .created key (some (l, p)) →
      P { (s.release key (.found l)).setCaller i (.picked l p) with
          clones := update s.clones key (some l) })
    (registerFailed : ∀ i key result, s.callers i = .created key result →
      P ((s.release key .idle).setCaller i .idle))
    (touch : ∀ i l, s.callers i = .found l → P ((s.touchLink l).setCaller i (.picked l s.time)))
    (finish : ∀ i l p, s.callers i = .picked l p →
      P ((s.setLink l fun link => { link with lastReturned := s.time }).setCaller i
        (.returned l p)))
    (dial : ∀ i l p, s.callers i = .returned l p →
      P ((s.touchLink l).setCaller i (.dialing l s.time)))
    (dialed : ∀ i l p, s.callers i = .dialing l p → P (s.setCaller i (.dialed l p)))
    (dialFailed : ∀ i l p, s.callers i = .dialing l p → P (s.setCaller i .idle))
    (count : ∀ i l p, s.callers i = .dialed l p →
      P ((s.setLink l fun link => { link with active := link.active + 1 }).setCaller i (.opened l)))
    (hangUp : ∀ i l, s.callers i = .opened l →
      P ((s.setLink l fun link => { link with active := link.active - 1 }).setCaller i .idle))
    (closeChain : s.evictor.locked = false →
      P { s with closed := true, clones := fun _ => none })
    (evictor : P (s.evictStep idleTimeout e)) : P (s.step idleTimeout e) := by
  cases e with
  | tick d => exact tick d
  | lookup i key =>
    simp only [step, callerStep]
    cases hi : s.callers i <;> try exact same
    cases hl : s.evictor.locked with
    | true => exact same
    | false =>
      simp only [Bool.false_eq_true, if_false, lookup]
      cases hcl : s.closed with
      | true => exact same
      | false =>
        cases hk : s.clones key with
        | some l => exact hit i key l hl hi hk
        | none =>
          cases hf : s.inflight key with
          | true => exact wait i key hi
          | false => exact start i key hi
  | create i ok =>
    simp only [step, callerStep]
    cases hi : s.callers i with
    | creating key =>
      cases ok with
      | true => exact create i key hi
      | false => exact createFailed i key hi
    | _ => exact same
  | register i =>
    simp only [step, callerStep]
    cases hi : s.callers i with
    | created key result =>
      cases hl : s.evictor.locked with
      | true => exact same
      | false =>
        simp only [Bool.false_eq_true, if_false, ChainState.register]
        cases hcl : s.closed with
        | true => exact registerFailed i key result hi
        | false =>
          cases result with
          | none => exact registerFailed i key none hi
          | some r => exact register i key r.1 r.2 hl hi
    | _ => exact same
  | touch i | finish i | dial i | count i | hangUp i =>
    simp only [step, callerStep]
    cases hi : s.callers i <;> first
      | exact same
      | exact touch i _ hi
      | exact finish i _ _ hi
      | exact dial i _ _ hi
      | exact count i _ _ hi
      | exact hangUp i _ hi
  | dialed i ok =>
    simp only [step, callerStep]
    cases hi : s.callers i with
    | dialing l p =>
      cases ok with
      | true => exact dialed i l p hi
      | false => exact dialFailed i l p hi
    | _ => exact same
  | closeChain =>
    simp only [step]
    cases hl : s.evictor.locked with
    | true => exact same
    | false => exact closeChain hl
  | _ => exact evictor

omit [DecidableEq ι] in
/-- The case rule of a step of `evictIdle`. -/
theorem evictStep_cases (e : Event ι) (same : P s)
    (begin : s.evictor = .idle → P { s with evictor := .begun s.time })
    (lock : ∀ now todo, s.evictor = .begun now → P { s with evictor := .scanning now todo [] })
    (skip : ∀ now e todo victims, s.evictor = .scanning now (e :: todo) victims →
      P { s with evictor := .scanning now todo victims })
    (load : ∀ now key l todo victims, e = .evictLoadActive →
      s.evictor = .scanning now ((key, l) :: todo) victims → s.clones key = some l →
      (s.links l).active = 0 → P { s with evictor := .loaded now key l todo victims })
    (keep : ∀ now key l todo victims, s.evictor = .loaded now key l todo victims →
      P { s with evictor := .scanning now todo victims })
    (remove : ∀ now key l todo victims, s.evictor = .loaded now key l todo victims →
      (s.links l).lastPicked + idleTimeout < now →
      P { s with
          clones := update s.clones key none
          evictor := .scanning now todo (victims ++ [l]) })
    (unlock : ∀ now victims, s.evictor = .scanning now [] victims →
      P { s with evictor := .closing now victims })
    (close : ∀ now l victims, s.evictor = .closing now (l :: victims) →
      P { s.setLink l (fun link => { link with evictedAt := some s.time }) with
          evictor := .closing now victims })
    (done : ∀ now, s.evictor = .closing now [] → P { s with evictor := .idle }) :
    P (s.evictStep idleTimeout e) := by
  cases e <;> try exact same
  case evictBegin =>
    simp only [evictStep]
    cases he : s.evictor with
    | idle => exact begin he
    | _ => exact same
  case evictLock entries =>
    simp only [evictStep]
    cases he : s.evictor with
    | begun now => exact lock now _ he
    | _ => exact same
  case evictLoadActive =>
    simp only [evictStep, evictLoadActive]
    cases he : s.evictor with
    | scanning now todo victims =>
      cases todo with
      | nil => exact same
      | cons e todo =>
        simp only
        split_ifs with h
        · exact load now e.1 e.2 todo victims rfl he h.1 h.2
        · exact skip now e todo victims he
    | _ => exact same
  case evictLoadPicked =>
    simp only [evictStep, evictLoadPicked]
    cases he : s.evictor with
    | loaded now key l todo victims =>
      simp only
      split_ifs with h
      · exact keep now key l todo victims he
      · exact remove now key l todo victims he (by omega)
    | _ => exact same
  case evictUnlock =>
    simp only [evictStep]
    cases he : s.evictor with
    | scanning now todo victims =>
      cases todo with
      | nil => exact unlock now victims he
      | cons e todo => exact same
    | _ => exact same
  case evictClose =>
    simp only [evictStep]
    cases he : s.evictor with
    | closing now victims =>
      cases victims with
      | nil => exact done now he
      | cons l victims => exact close now l victims he
    | _ => exact same

/-! ### Links, pick times and counters -/

/-- Links are used, registered and created under numbers already given out; no link is registered
twice or by two callers. -/
structure LinksOk (s : ChainState ι) : Prop where
  uses_lt : ∀ {i l}, s.Uses i l → l < s.nextLink
  clones_lt : ∀ {k l}, s.clones k = some l → l < s.nextLink
  created_lt : ∀ {i l}, (s.callers i).created? = some l → l < s.nextLink
  clones_inj : ∀ {k k' l}, s.clones k = some l → s.clones k' = some l → k = k'
  created_clones : ∀ {i l k}, (s.callers i).created? = some l → s.clones k ≠ some l
  created_unique : ∀ {i j l}, (s.callers i).created? = some l →
    (s.callers j).created? = some l → i = j

/-- No link is new: callers have links they had before, or that are registered, and links only leave
the map. -/
structure Inherits (s s' : ChainState ι) : Prop where
  clones : ∀ {k l}, s'.clones k = some l → s.clones k = some l
  next : s'.nextLink = s.nextLink
  uses : ∀ {i l}, s'.Uses i l → s.Uses i l ∨ ∃ k, s.clones k = some l
  created : ∀ {i l}, (s'.callers i).created? = some l → (s.callers i).created? = some l

omit [DecidableEq ι] in
theorem Inherits.refl (s : ChainState ι) : Inherits s s := ⟨id, rfl, .inl, id⟩

variable {s t : ChainState ι}

theorem Inherits.setCaller {i : ι} (hcl : t.clones = s.clones) (hn : t.nextLink = s.nextLink)
    (hc : t.callers = s.callers)
    (hl : ∀ l, c.link? = some l → (s.callers i).link? = some l ∨ ∃ k, s.clones k = some l)
    (hcre : c.created? = none) : Inherits s (t.setCaller i c) := by
  refine ⟨fun hk => hcl ▸ hk, hn, fun {j l} hj => ?_, fun {j l} hj => ?_⟩
  · simp only [Uses, ChainState.setCaller, update_apply, hc] at hj
    split_ifs at hj with hji
    · subst hji
      exact hl l hj
    · exact .inl hj
  · simp only [ChainState.setCaller, update_apply, hc] at hj
    split_ifs at hj with hji
    · rw [hcre] at hj
      cases hj
    · exact hj

open ChainState Link

/-- The case rule for facts about who has which link: only two steps give out a new one. -/
theorem step_links_cases (e : Event ι) (inh : ∀ s', Inherits s s' → P s')
    (create : ∀ i key, s.callers i = .creating key →
      P { s.setCaller i (.created key (some (s.nextLink, s.time))) with
          links := update s.links s.nextLink { key, lastPicked := s.time }
          nextLink := s.nextLink + 1 })
    (register : ∀ i key l p, s.callers i = .created key (some (l, p)) →
      P { (s.release key (.found l)).setCaller i (.picked l p) with
          clones := update s.clones key (some l) }) : P (s.step idleTimeout e) := by
  have same : P s := inh s (Inherits.refl s)
  refine step_cases e same ?tick ?hit ?wait ?start create ?createFailed
    (fun i key l p _ hi => register i key l p hi) ?registerFailed ?touch ?finish ?dial ?dialed
    ?dialFailed ?count ?hangUp ?closeChain (evictStep_cases e same ?_ ?_ ?_ ?_ ?_ ?remove ?_ ?_ ?_)
  case closeChain => exact fun _ => inh _ ⟨by rintro _ _ ⟨⟩, rfl, .inl, id⟩
  case remove =>
    intro now key l todo victims _ _
    refine inh _ ⟨fun {k l} hk => ?_, rfl, .inl, id⟩
    simp only [update_apply] at hk
    split_ifs at hk
    exact hk
  case registerFailed =>
    intro i key result _
    refine inh _ ⟨id, rfl, fun {j l} hj => .inl ?_, fun {j l} hj => ?_⟩ <;>
      simp only [Uses, setCaller, release, update_apply] at hj ⊢ <;>
      split_ifs at hj
    · cases hj
    · cases hj
    · exact hj
    · cases hj
    · cases hj
    · exact hj
  case start =>
    intro i key _
    obtain ⟨hc, hn, hu, hcr⟩ : Inherits s (s.setCaller i (.creating key)) :=
      Inherits.setCaller rfl rfl rfl (by rintro _ ⟨⟩) rfl
    exact inh _ ⟨hc, hn, hu, hcr⟩
  all_goals intros
  -- the other steps of `evictIdle` leave the map and the callers alone
  all_goals try exact inh _ ⟨id, rfl, .inl, id⟩
  -- the other steps are of one caller
  all_goals exact inh _ (Inherits.setCaller rfl rfl rfl (by grind [link?]) rfl)

variable {s s' : ChainState ι}

omit [DecidableEq ι] in
theorem LinksOk.mono (h : LinksOk s) (hs : Inherits s s') : LinksOk s' where
  uses_lt hu := by
    rw [hs.next]
    rcases hs.uses hu with ho | ⟨k, hk⟩
    · exact h.uses_lt ho
    · exact h.clones_lt hk
  clones_lt hk := hs.next ▸ h.clones_lt (hs.clones hk)
  created_lt hc := hs.next ▸ h.created_lt (hs.created hc)
  clones_inj hk hk' := h.clones_inj (hs.clones hk) (hs.clones hk')
  created_clones hc hk := h.created_clones (hs.created hc) (hs.clones hk)
  created_unique hc hc' := h.created_unique (hs.created hc) (hs.created hc')

theorem LinksOk.step (h : LinksOk s) (e : Event ι) : LinksOk (s.step idleTimeout e) := by
  obtain ⟨h1, h2, h3, h4, h5, h6⟩ := id h
  simp only [Uses] at h1
  refine step_links_cases e (fun s' hs => h.mono hs) ?create ?register
  case create | register =>
    intros
    clear h
    constructor <;>
      simp only [Uses, setCaller, release, update_apply] <;>
      grind [link?, created?]

/-- No time is ahead of the clock, and the pick of a caller is not later than the last one. -/
structure TimesOk (s : ChainState ι) : Prop where
  picked_le : ∀ l, (s.links l).lastPicked ≤ s.time
  returned_le : ∀ l, (s.links l).lastReturned ≤ s.time
  pick_le : ∀ {i l p}, (s.callers i).pick? = some (l, p) → p ≤ (s.links l).lastPicked

omit [DecidableEq ι] in
theorem pick_lt (h : LinksOk s) {i : ι} {l p : ℕ} (hp : (s.callers i).pick? = some (l, p)) :
    l < s.nextLink := by
  rcases link?_or_created? hp with hl | hc
  · exact h.uses_lt hl
  · exact h.created_lt hc

omit [DecidableEq ι] in
/-- The links keep their times, and no caller has a pick it did not have before. -/
theorem TimesOk.mono (h : TimesOk s) (ht : s.time ≤ s'.time)
    (hpi : ∀ l, (s'.links l).lastPicked = (s.links l).lastPicked)
    (hr : ∀ l, (s'.links l).lastReturned = (s.links l).lastReturned)
    (hpc : ∀ {i l p}, (s'.callers i).pick? = some (l, p) → (s.callers i).pick? = some (l, p)) :
    TimesOk s' where
  picked_le l := by
    rw [hpi]
    exact (h.picked_le l).trans ht
  returned_le l := by
    rw [hr]
    exact (h.returned_le l).trans ht
  pick_le {i l p} hp := by
    rw [hpi]
    exact h.pick_le (hpc hp)

theorem TimesOk.setCaller (h : TimesOk s) {i : ι} (ht : t.time = s.time)
    (hc : t.callers = s.callers) (hpi : ∀ l, (t.links l).lastPicked = (s.links l).lastPicked)
    (hr : ∀ l, (t.links l).lastReturned = (s.links l).lastReturned)
    (hp : ∀ {l p}, c.pick? = some (l, p) → (s.callers i).pick? = some (l, p)) :
    TimesOk (t.setCaller i c) := by
  refine h.mono ht.ge hpi hr fun {j l p} hj => ?_
  simp only [ChainState.setCaller, update_apply, hc] at hj
  split_ifs at hj with hji
  · subst hji
    exact hp hj
  · exact hj

omit [DecidableEq ι] in
theorem setLink_field {α : Type*} (s : ChainState ι) (l : ℕ) (f : Link → Link) (g : Link → α)
    (hf : g (f (s.links l)) = g (s.links l)) (l' : ℕ) :
    g ((s.setLink l f).links l') = g (s.links l') := by
  by_cases hl : l' = l
  · subst hl
    simp [setLink, hf]
  · simp only [setLink, update_of_ne hl]

theorem TimesOk.step (hl : LinksOk s) (h : TimesOk s) (e : Event ι) :
    TimesOk (s.step idleTimeout e) := by
  have hlt := @pick_lt _ s hl
  clear hl
  obtain ⟨h1, h2, h3⟩ := id h
  refine step_cases e h ?tick ?hit ?wait ?start ?create ?createFailed ?register ?registerFailed
    ?touch ?finish ?dial ?dialed ?dialFailed ?count ?hangUp ?closeChain
    (evictStep_cases e h ?_ ?_ ?_ ?_ ?_ ?_ ?_ ?close ?_)
  case tick => exact fun d => h.mono (Nat.le_add_right _ d) (fun _ => rfl) (fun _ => rfl) id
  case start =>
    intro i key _
    have hs : TimesOk (s.setCaller i (.creating key)) :=
      h.setCaller rfl rfl (fun _ => rfl) (fun _ => rfl) (by rintro _ _ ⟨⟩)
    exact hs.mono le_rfl (fun _ => rfl) (fun _ => rfl) id
  case register =>
    intro i key l p _ hi
    refine h.mono le_rfl (fun _ => rfl) (fun _ => rfl) fun {j l' p'} hj => ?_
    simp only [ChainState.setCaller, release, update_apply] at hj
    split_ifs at hj with hji
    · rw [hji, hi]
      exact hj
    · cases hj
    · exact hj
  case registerFailed =>
    intro i key result _
    refine h.mono le_rfl (fun _ => rfl) (fun _ => rfl) fun {j l' p'} hj => ?_
    simp only [ChainState.setCaller, release, update_apply] at hj
    split_ifs at hj
    · cases hj
    · cases hj
    · exact hj
  case dialed =>
    intro i l p hi
    refine h.setCaller rfl rfl (fun _ => rfl) (fun _ => rfl) fun hp => ?_
    rw [hi]
    exact hp
  case count | hangUp =>
    intros
    exact h.setCaller rfl rfl (setLink_field s _ _ Link.lastPicked rfl)
      (setLink_field s _ _ Link.lastReturned rfl) (by rintro _ _ ⟨⟩)
  case close =>
    intro now l victims _
    have hs : TimesOk (s.setLink l fun link => { link with evictedAt := some s.time }) :=
      h.mono le_rfl (setLink_field s l _ Link.lastPicked rfl)
        (setLink_field s l _ Link.lastReturned rfl) id
    exact hs.mono le_rfl (fun _ => rfl) (fun _ => rfl) id
  case create | touch | finish | dial =>
    intros
    clear h
    constructor <;>
      simp only [ChainState.setCaller, setLink, touchLink, update_apply] <;>
      grind [pick?]
  all_goals intros
  -- the other steps of `evictIdle` and the closing of the chain leave times and callers alone
  all_goals try exact ⟨h1, h2, h3⟩
  -- the caller has no pick after the other steps
  all_goals exact h.setCaller rfl rfl (fun _ => rfl) (fun _ => rfl) (by rintro _ _ ⟨⟩)

/-- A link was picked after it was last returned, unless a caller to whom it was returned has not
started its dial. -/
def ReturnsPicked (s : ChainState ι) : Prop :=
  ∀ l, (∀ i p, s.callers i ≠ .returned l p) → (s.links l).lastReturned ≤ (s.links l).lastPicked

omit [DecidableEq ι] in
theorem ReturnsPicked.congr (h : ReturnsPicked s)
    (hli : ∀ l, (s.links l).lastReturned ≤ (s.links l).lastPicked →
      (s'.links l).lastReturned ≤ (s'.links l).lastPicked)
    (hc : ∀ i l p, s.callers i = .returned l p → s'.callers i = .returned l p) :
    ReturnsPicked s' := by
  intro l hl
  exact hli l (h l fun i p hi => hl i p (hc i l p hi))

/-- A caller that was not `returned` goes on. -/
theorem setCaller_returned {i : ι} (hi : ∀ l p, s.callers i ≠ .returned l p) {j : ι} {l p : ℕ}
    (h : s.callers j = .returned l p) : (s.setCaller i c).callers j = .returned l p := by
  have hne : j ≠ i := fun hji => hi l p (hji ▸ h)
  simp only [setCaller, update_of_ne hne, h]

omit [DecidableEq ι] in
theorem release_returned {key : CloneKey} {j : ι} {l p : ℕ} (h : s.callers j = .returned l p) :
    (s.release key c).callers j = .returned l p := by
  simp [release, h]

omit [DecidableEq ι] in
/-- Another link is changed, or the link keeps a pick after its last return. -/
theorem setLink_returned (s : ChainState ι) (l : ℕ) (f : Link → Link)
    (hf : (s.links l).lastReturned ≤ (s.links l).lastPicked →
      (f (s.links l)).lastReturned ≤ (f (s.links l)).lastPicked) (l' : ℕ)
    (h : (s.links l').lastReturned ≤ (s.links l').lastPicked) :
    ((s.setLink l f).links l').lastReturned ≤ ((s.setLink l f).links l').lastPicked := by
  by_cases hl : l' = l
  · subst hl
    simpa only [setLink, update_self] using hf h
  · simpa only [setLink, update_of_ne hl] using h

theorem ReturnsPicked.step (ht : TimesOk s) (h : ReturnsPicked s) (e : Event ι) :
    ReturnsPicked (s.step idleTimeout e) := by
  have hs : ∀ i c, (∀ l p, s.callers i ≠ .returned l p) → ReturnsPicked (s.setCaller i c) :=
    fun i c hi => h.congr (fun _ => id) fun _ _ _ => setCaller_returned hi
  refine step_cases e h (fun _ => h) ?hit ?wait ?start ?create ?createFailed ?register
    ?registerFailed ?touch ?finish ?dial ?dialed ?dialFailed ?count ?hangUp (fun _ => h)
    (evictStep_cases e h (fun _ => h) (fun _ _ _ => h) (fun _ _ _ _ _ => h)
      (fun _ _ _ _ _ _ _ _ _ => h) (fun _ _ _ _ _ _ => h) (fun _ _ _ _ _ _ _ => h)
      (fun _ _ _ => h) ?close (fun _ _ => h))
  case hit | wait | start | createFailed | dialed | dialFailed =>
    intros
    refine hs _ _ ?_
    simp_all
  case create =>
    intro i key hi
    refine h.congr (fun l hl => ?_) fun _ _ _ => setCaller_returned (by simp [hi])
    simp only [update_apply]
    split_ifs
    · exact Nat.zero_le _
    · exact hl
  case register | registerFailed =>
    intros
    refine h.congr (fun _ => id) fun j l' p' hj => ?_
    exact setCaller_returned (by simp [release, *]) (release_returned hj)
  case touch =>
    intro i l hi
    exact h.congr (setLink_returned s l (fun link => { link with lastPicked := s.time })
        fun _ => ht.returned_le l)
      fun _ _ _ => setCaller_returned (s := s.touchLink l) (by simp [touchLink, setLink, hi])
  case finish =>
    -- the link is now returned to the caller
    intro i l p hi l' hl'
    have hne : l' ≠ l := by
      rintro rfl
      exact hl' i p (by simp [setCaller])
    have ho : ∀ j q, s.callers j ≠ .returned l' q := by
      intro j q hj
      refine hl' j q (setCaller_returned (s := s.setLink l _) ?_ hj)
      simp [setLink, hi]
    simpa only [setCaller, setLink, update_of_ne hne] using h l' ho
  case dial =>
    -- the caller is no longer `returned`, but has picked the link
    intro i l p hi l' hl'
    by_cases hl : l' = l
    · subst hl
      simpa only [setCaller, touchLink, setLink, update_self] using ht.returned_le l'
    · have ho : ∀ j q, s.callers j ≠ .returned l' q := by
        intro j q hj
        have hji : j ≠ i := by
          rintro rfl
          rw [hi] at hj
          cases hj
          exact hl rfl
        exact hl' j q (by simpa only [setCaller, touchLink, setLink, update_of_ne hji])
      simpa only [setCaller, touchLink, setLink, update_of_ne hl] using h l' ho
  case count =>
    intro i l p hi
    exact h.congr (setLink_returned s l (fun link => { link with active := link.active + 1 }) id)
      fun _ _ _ => setCaller_returned (s := s.setLink l _) (by simp [setLink, hi])
  case hangUp =>
    intro i l hi
    exact h.congr (setLink_returned s l (fun link => { link with active := link.active - 1 }) id)
      fun _ _ _ => setCaller_returned (s := s.setLink l _) (by simp [setLink, hi])
  case close =>
    intro now l victims _
    exact h.congr (setLink_returned s l (fun link => { link with evictedAt := some s.time }) id)
      fun _ _ _ => id

/-! ### The counters -/

section

variable [Fintype ι]

/-- The counter of a link is the number of its open connections. -/
def Counted (s : ChainState ι) : Prop :=
  ∀ l, (s.links l).active = (Finset.univ.filter fun i => s.callers i = .opened l).card

omit [DecidableEq ι] in
theorem Counted.congr (h : Counted s) (hl : ∀ l, (s'.links l).active = (s.links l).active)
    (hc : ∀ i l, s'.callers i = .opened l ↔ s.callers i = .opened l) : Counted s' := by
  intro l
  rw [hl, h l]
  simp only [hc]

/-- A caller goes on, and the counters follow it. -/
theorem Counted.move {s u : ChainState ι} (h : Counted s) {i : ι}
    (hc : u.callers = update s.callers i c)
    (ha : ∀ l, (u.links l).active = (s.links l).active + (if c = .opened l then 1 else 0) -
      if s.callers i = .opened l then 1 else 0) : Counted u := by
  intro l
  have hcnt := countOf_update (p := fun c => c = opened l) s.callers i c
  rw [ha, h l, hc]
  change (countOf (fun c => c = opened l) s.callers : ℤ) + _ - _ =
    countOf (fun c => c = opened l) (update s.callers i c)
  split_ifs at hcnt ⊢ <;> omega

omit [DecidableEq ι] in
theorem Counted.release (h : Counted s) (key : CloneKey) (hc : ∀ l, c ≠ .opened l) :
    Counted (s.release key c) := by
  refine h.congr (fun _ => rfl) fun i l => ?_
  simp only [ChainState.release]
  split_ifs with hw
  · simp [hw, hc]
  · exact Iff.rfl

theorem Counted.step (hl : LinksOk s) (h : Counted s) (e : Event ι) :
    Counted (s.step idleTimeout e) := by
  refine step_cases e h (fun _ => h) ?hit ?wait ?start ?create ?createFailed ?register
    ?registerFailed ?touch ?finish ?dial ?dialed ?dialFailed ?count ?hangUp (fun _ => h)
    (evictStep_cases e h (fun _ => h) (fun _ _ _ => h) (fun _ _ _ _ _ => h)
      (fun _ _ _ _ _ _ _ _ _ => h) (fun _ _ _ _ _ _ => h) (fun _ _ _ _ _ _ _ => h)
      (fun _ _ _ => h) ?close (fun _ _ => h))
  case hit | wait | start | createFailed | dialed | dialFailed =>
    intros
    refine h.move rfl ?_
    simp_all [setCaller]
  case create =>
    intro i key hi
    -- nobody has a connection through the new link
    have hn : ∀ j, s.callers j ≠ .opened s.nextLink := fun j hj =>
      absurd (hl.uses_lt (i := j) (by rw [Uses, hj]; rfl)) (lt_irrefl _)
    have h0 : (s.links s.nextLink).active = 0 := by simp [h s.nextLink, hn]
    refine h.move rfl fun l => ?_
    simp only [update_apply, hi]
    split_ifs with hne <;> simp_all
  case register | registerFailed =>
    intros
    refine (h.release _ ?_).move rfl ?_
    · simp
    · simp [ChainState.release, setCaller, *]
  case touch | finish | dial =>
    intros
    refine h.move rfl fun l' => ?_
    simp only [setCaller, touchLink]
    rw [setLink_field _ _ _ active rfl]
    simp_all
  case count | hangUp =>
    intros
    refine h.move rfl fun l' => ?_
    simp only [setCaller, setLink, update_apply]
    split_ifs <;> simp_all
  case close =>
    intro now l victims _
    exact h.congr
      (setLink_field s l (fun link => { link with evictedAt := some s.time }) active rfl)
      fun _ _ => Iff.rfl

omit [DecidableEq ι] in
theorem Counted.not_opened (h : Counted s) {l : ℕ} (h0 : (s.links l).active = 0) (i : ι) :
    s.callers i ≠ .opened l := by
  have hc : ((countOf (fun c => c = opened l) s.callers : ℕ) : ℤ) = 0 := (h l).symm.trans h0
  exact countOf_eq_zero.mp (Int.natCast_eq_zero.mp hc) i

end

/-! ### Evicted links -/

/-- Nobody has the link, and nobody can obtain it. -/
structure Dead (s : ChainState ι) (l : ℕ) : Prop where
  lt : l < s.nextLink
  not_uses : ∀ i, ¬ s.Uses i l
  not_created : ∀ i, (s.callers i).created? ≠ some l
  not_cloned : ∀ k, s.clones k ≠ some l

variable {l : ℕ}

omit [DecidableEq ι] in
theorem Dead.mono (h : Dead s l) (hs : Inherits s s') : Dead s' l where
  lt := hs.next ▸ h.lt
  not_uses i hi := by
    rcases hs.uses hi with ho | ⟨k, hk⟩
    · exact h.not_uses i ho
    · exact h.not_cloned k hk
  not_created i hi := h.not_created i (hs.created hi)
  not_cloned k hk := h.not_cloned k (hs.clones hk)

theorem Dead.step (h : Dead s l) (e : Event ι) : Dead (s.step idleTimeout e) l := by
  obtain ⟨h1, h2, h3, h4⟩ := id h
  simp only [Uses] at h2
  refine step_links_cases (P := fun s' => Dead s' l) e (fun s' hs => h.mono hs) ?create ?register
  case create | register =>
    intros
    clear h
    constructor <;>
      simp only [Uses, setCaller, release, update_apply] <;>
      grind [link?, created?]

theorem Dead.lastReturned (h : Dead s l) (e : Event ι) :
    ((s.step idleTimeout e).links l).lastReturned = (s.links l).lastReturned := by
  obtain ⟨h1, h2, h3, h4⟩ := h
  simp only [Uses] at h2
  refine step_cases (P := fun s' => (s'.links l).lastReturned = (s.links l).lastReturned) e rfl
    ?_ ?_ ?_ ?_ ?_ ?_ ?_ ?_ ?_ ?_ ?_ ?_ ?_ ?_ ?_ ?_
    (evictStep_cases (P := fun s' => (s'.links l).lastReturned = (s.links l).lastReturned) e rfl
      ?_ ?_ ?_ ?_ ?_ ?_ ?_ ?_ ?_)
  all_goals intros
  all_goals try rfl
  all_goals
    simp only [setCaller, setLink, touchLink, update_apply]
    grind [link?, created?]

/-- What the steps outside `evictIdle` leave alone. -/
structure Frame (s s' : ChainState ι) : Prop where
  evictor : s'.evictor = s.evictor
  time_le : s.time ≤ s'.time
  clones : s.evictor.locked = true → s'.clones = s.clones
  uses : s.evictor.locked = true → ∀ {i l}, s'.Uses i l → s.Uses i l
  picked_le : ∀ {l}, l < s.nextLink → (s.links l).lastPicked ≤ (s'.links l).lastPicked
  evicted : ∀ {l t}, (s'.links l).evictedAt = some t → (s.links l).evictedAt = some t

omit [DecidableEq ι] in
theorem Frame.refl (s : ChainState ι) : Frame s s :=
  ⟨rfl, le_rfl, fun _ => rfl, fun _ _ _ => id, fun _ => le_rfl, id⟩

theorem frame_step (ht : TimesOk s) {e : Event ι} (he : s.evictStep idleTimeout e = s) :
    Frame s (s.step idleTimeout e) := by
  have hp := ht.picked_le
  clear ht
  refine step_cases (P := Frame s) e (Frame.refl s) ?_ ?_ ?_ ?_ ?_ ?_ ?_ ?_ ?_ ?_ ?_ ?_ ?_ ?_ ?_
    ?_ (by rw [he]; exact Frame.refl s)
  all_goals intros
  all_goals
    constructor <;>
      simp only [Uses, setCaller, release, setLink, touchLink, update_apply] <;>
      grind [link?]

end ChainState

/-- The victims found so far, and the time that `evictIdle` was called with. -/
def Evictor.victims? : Evictor → Option (ℕ × List ℕ)
  | .idle => none
  | .begun now => some (now, [])
  | .scanning now _ victims | .loaded now _ _ _ victims | .closing now victims =>
    some (now, victims)

namespace ChainState

/-- The link is out of use, and was not returned for longer than `idle_timeout` at the time
`now`. -/
def Victim (idleTimeout : ℕ) (s : ChainState ι) (now l : ℕ) : Prop :=
  Dead s l ∧ (s.links l).lastReturned + idleTimeout < now

/-- What `evictIdle` knows. -/
structure EvictOk (idleTimeout : ℕ) (s : ChainState ι) : Prop where
  now_le : ∀ {now victims}, s.evictor.victims? = some (now, victims) → now ≤ s.time
  victims : ∀ {now victims}, s.evictor.victims? = some (now, victims) →
    ∀ l ∈ victims, Victim idleTimeout s now l
  loaded : ∀ {now key l todo victims}, s.evictor = .loaded now key l todo victims →
    s.clones key = some l ∧
      ((∀ i, ¬ s.Uses i l) ∨ now ≤ (s.links l).lastPicked + idleTimeout)
  evicted : ∀ {l t}, (s.links l).evictedAt = some t → Victim idleTimeout s t l

variable {s : ChainState ι} {idleTimeout : ℕ}

theorem Victim.step {idleTimeout now l : ℕ} (h : Victim idleTimeout s now l) (e : Event ι) :
    Victim idleTimeout (s.step idleTimeout e) now l :=
  ⟨h.1.step e, by rw [h.1.lastReturned e]; exact h.2⟩

variable {e : Event ι}

theorem EvictOk.frame (hl : LinksOk s) (h : EvictOk idleTimeout s)
    (hf : Frame s (s.step idleTimeout e)) : EvictOk idleTimeout (s.step idleTimeout e) where
  now_le hn := (h.now_le (hf.evictor ▸ hn)).trans hf.time_le
  victims hn l hl := (h.victims (hf.evictor ▸ hn) l hl).step e
  loaded := by
    intro now key l todo victims hlo
    rw [hf.evictor] at hlo
    have hlc : s.evictor.locked = true := by rw [hlo]; rfl
    obtain ⟨hk, hor⟩ := h.loaded hlo
    refine ⟨by rw [hf.clones hlc]; exact hk, hor.imp (fun hno i hi => ?_) fun hp => ?_⟩
    · exact hno i (hf.uses hlc hi)
    · have := hf.picked_le (hl.clones_lt hk)
      omega
  evicted ht := (h.evicted (hf.evicted ht)).step e

/-- The condition on a run: when `evictIdle` finds the counter of a link to be zero, every caller
that has obtained the link and whose dial has not returned has picked it since it obtained it, and
not longer ago than `idle_timeout`. -/
def Timely (idleTimeout : ℕ) (s : ChainState ι) (e : Event ι) : Prop :=
  e = .evictLoadActive → ∀ now key l todo victims,
    s.evictor = .scanning now ((key, l) :: todo) victims → (s.links l).active = 0 →
    ∀ i, s.Uses i l → s.callers i ≠ .opened l →
      ∃ p, (s.callers i).pick? = some (l, p) ∧ now ≤ p + idleTimeout

omit [DecidableEq ι] in
theorem Dead.congr {s s' : ChainState ι} {l : ℕ} (h : Dead s l) (hn : s'.nextLink = s.nextLink)
    (hc : s'.callers = s.callers)
    (hcl : ∀ k, s'.clones k = s.clones k ∨ s'.clones k = none) : Dead s' l where
  lt := hn ▸ h.lt
  not_uses i := by rw [Uses, hc]; exact h.not_uses i
  not_created i := by rw [hc]; exact h.not_created i
  not_cloned k := by
    rcases hcl k with hk | hk
    · rw [hk]
      exact h.not_cloned k
    · rw [hk]
      exact nofun

omit [DecidableEq ι] in
/-- The link that `evictIdle` removes. -/
theorem EvictOk.victim_of_loaded (hl : LinksOk s) (hr : ReturnsPicked s) (h : EvictOk idleTimeout s)
    {now l : ℕ} {key : CloneKey} {todo : List (CloneKey × ℕ)} {victims : List ℕ}
    (hlo : s.evictor = .loaded now key l todo victims)
    (hp : (s.links l).lastPicked + idleTimeout < now) : Victim idleTimeout { s with
      clones := update s.clones key none
      evictor := .scanning now todo (victims ++ [l]) } now l := by
  obtain ⟨hkey, hor⟩ := h.loaded hlo
  have hno : ∀ i, ¬ s.Uses i l := hor.resolve_right (by omega)
  have hret := hr l fun i p hi => hno i (by rw [Uses, hi]; rfl)
  refine ⟨⟨hl.clones_lt hkey, hno, fun i hi => hl.created_clones hi hkey, fun k hk => ?_⟩, ?_⟩
  · simp only [update_apply] at hk
    split_ifs at hk with hne
    exact hne (hl.clones_inj hk hkey)
  · change (s.links l).lastReturned + idleTimeout < now
    omega

omit [DecidableEq ι] in
theorem EvictOk.evict [Fintype ι] (hl : LinksOk s) (ht : TimesOk s) (hr : ReturnsPicked s)
    (hc : Counted s) (h : EvictOk idleTimeout s) (hti : Timely idleTimeout s e) :
    EvictOk idleTimeout (s.evictStep idleTimeout e) := by
  -- a change of the evictor's state that keeps the victims
  have hk : ∀ ev, (∀ now victims, ev.victims? = some (now, victims) →
      s.evictor.victims? = some (now, victims) ∨ (now = s.time ∧ victims = [])) →
      (∀ now key l todo victims, ev = .loaded now key l todo victims → s.clones key = some l ∧
        ((∀ i, ¬ s.Uses i l) ∨ now ≤ (s.links l).lastPicked + idleTimeout)) →
      EvictOk idleTimeout { s with evictor := ev } := by
    intro ev hvc hlo
    have hvi : ∀ {t l}, Victim idleTimeout s t l →
        Victim idleTimeout { s with evictor := ev } t l := fun hv =>
      ⟨hv.1.congr rfl rfl fun _ => .inl rfl, hv.2⟩
    refine ⟨fun hn => ?_, fun hn l hl => ?_, fun hev => hlo _ _ _ _ _ hev,
      fun ht => hvi (h.evicted ht)⟩
    · rcases hvc _ _ hn with ho | ⟨rfl, -⟩
      · exact h.now_le ho
      · exact le_rfl
    · rcases hvc _ _ hn with ho | ⟨-, rfl⟩
      · exact hvi (h.victims ho l hl)
      · cases hl
  refine evictStep_cases e h ?begin ?lock ?skip ?load ?keep ?remove ?unlock ?close ?done
  case begin =>
    intro _
    exact hk _ (by rintro _ _ ⟨⟩; exact .inr ⟨rfl, rfl⟩) (by rintro _ _ _ _ _ ⟨⟩)
  case lock | skip | keep | unlock =>
    intros
    rename_i hev
    exact hk _ (by rintro _ _ ⟨⟩; rw [hev]; exact .inl rfl) (by rintro _ _ _ _ _ ⟨⟩)
  case load =>
    intro now key l todo victims he hev hkey ha
    refine hk _ (by rintro _ _ ⟨⟩; rw [hev]; exact .inl rfl) ?_
    rintro _ _ _ _ _ ⟨⟩
    refine ⟨hkey, ?_⟩
    by_cases hu : ∃ i, s.Uses i l
    · obtain ⟨i, hi⟩ := hu
      obtain ⟨p, hp, hn⟩ := hti he now key l todo victims hev ha i hi
        (hc.not_opened ha i)
      have := ht.pick_le hp
      exact .inr (by omega)
    · exact .inl fun i hi => hu ⟨i, hi⟩
  case remove =>
    intro now key l todo victims hev hpi
    have hd : ∀ {l'}, Dead s l' → Dead { s with
        clones := update s.clones key none
        evictor := .scanning now todo (victims ++ [l]) } l' := by
      intro l' hl'
      refine hl'.congr rfl rfl fun k => ?_
      simp only [update_apply]
      split_ifs
      · exact .inr rfl
      · exact .inl rfl
    have ho : s.evictor.victims? = some (now, victims) := by rw [hev]; rfl
    refine ⟨?_, ?_, by rintro _ _ _ _ _ ⟨⟩, fun ht => ⟨hd (h.evicted ht).1, (h.evicted ht).2⟩⟩
    · rintro _ _ ⟨⟩
      exact h.now_le ho
    · rintro _ _ ⟨⟩ l' hl'
      rcases List.mem_append.mp hl' with hm | hm
      · exact ⟨hd (h.victims ho l' hm).1, (h.victims ho l' hm).2⟩
      · rw [List.mem_singleton.mp hm]
        exact h.victim_of_loaded hl hr hev hpi
  case close =>
    intro now l victims hev
    have ho : s.evictor.victims? = some (now, l :: victims) := by rw [hev]; rfl
    have hvi : ∀ {t l'}, Victim idleTimeout s t l' → Victim idleTimeout
        { s.setLink l (fun link => { link with evictedAt := some s.time }) with
          evictor := .closing now victims } t l' := by
      intro t l' hl'
      refine ⟨hl'.1.congr rfl rfl fun _ => .inl rfl, ?_⟩
      simp only [setLink, update_apply]
      split_ifs with heq
      · exact heq ▸ hl'.2
      · exact hl'.2
    refine ⟨?_, ?_, by rintro _ _ _ _ _ ⟨⟩, ?_⟩
    · rintro _ _ ⟨⟩
      exact h.now_le ho
    · rintro _ _ ⟨⟩ l' hl'
      exact hvi (h.victims ho l' (List.mem_cons_of_mem _ hl'))
    · intro l' t ht'
      refine hvi ?_
      simp only [setLink, update_apply] at ht'
      split_ifs at ht' with heq
      · subst heq
        obtain ⟨hd, hret⟩ := h.victims ho l' (List.mem_cons_self ..)
        have := h.now_le ho
        cases ht'
        exact ⟨hd, by omega⟩
      · exact h.evicted ht'
  case done =>
    intro now _
    exact hk _ (by rintro _ _ ⟨⟩) (by rintro _ _ _ _ _ ⟨⟩)

/-! ### Runs -/

/-- The invariant of the runs that are timely. -/
structure Inv [Fintype ι] (idleTimeout : ℕ) (s : ChainState ι) : Prop where
  links : LinksOk s
  times : TimesOk s
  returns : ReturnsPicked s
  counted : Counted s
  evict : EvictOk idleTimeout s

theorem Inv.step [Fintype ι] (h : Inv idleTimeout s) (ht : Timely idleTimeout s e) :
    Inv idleTimeout (s.step idleTimeout e) := by
  have hev : EvictOk idleTimeout (s.step idleTimeout e) := by
    have hk : s.evictStep idleTimeout e = s ∨
        s.step idleTimeout e = s.evictStep idleTimeout e := by
      cases e <;> first | exact .inl rfl | exact .inr rfl
    rcases hk with he | he
    · exact h.evict.frame h.links (frame_step h.times he)
    · rw [he]
      exact h.evict.evict h.links h.times h.returns h.counted ht
  exact ⟨h.links.step e, h.times.step h.links e, h.returns.step h.times e,
    h.counted.step h.links e, hev⟩

omit [DecidableEq ι] in
theorem inv_initial [Fintype ι] (idleTimeout time : ℕ) :
    Inv idleTimeout (initial time : ChainState ι) where
  links := by constructor <;> simp [initial, Uses, link?, created?]
  times := by constructor <;> simp [initial, pick?]
  returns := fun l _ => le_rfl
  counted := fun l => by simp [initial]
  evict := by constructor <;> simp [initial, Evictor.victims?]

/-- **Eviction never closes a link in use**, in the runs in which no caller stays without a pick
when `evictIdle` looks at its link: a link that `evictIdle` has closed is used by no caller, its
connections are closed, and more than `idle_timeout` had passed since `cloneFor` last returned
it. -/
theorem evicted_not_in_use [Fintype ι] (idleTimeout time : ℕ) (events : ℕ → Event ι)
    (htimely : ∀ n, Timely idleTimeout
      (run (step idleTimeout) (initial time) events n) (events n)) (n : ℕ) :
    ∀ l t, ((run (step idleTimeout) (initial time) events n).links l).evictedAt = some t →
      (∀ i, ¬ (run (step idleTimeout) (initial time) events n).Uses i l) ∧
      ((run (step idleTimeout) (initial time) events n).links l).active = 0 ∧
      ((run (step idleTimeout) (initial time) events n).links l).lastReturned +
        idleTimeout < t := by
  have hin : Inv idleTimeout (run (step idleTimeout) (initial time) events n) :=
    run_preserved (P := fun _ s => Inv idleTimeout s) (Nat.zero_le n) (inv_initial idleTimeout time)
      fun k _ _ hk => hk.step (htimely k)
  intro l t ht
  obtain ⟨hd, hr⟩ := hin.evict.evicted ht
  refine ⟨hd.not_uses, ?_, hr⟩
  rw [hin.counted l]
  have hn : ∀ i, (run (step idleTimeout) (initial time) events n).callers i ≠ .opened l :=
    fun i hi => hd.not_uses i (by rw [Uses, hi]; rfl)
  simp [hn]

/-- Whatever the callers and `evictIdle` do, the counter of a link is the number of its open
connections, no link is registered under two keys, and one that no caller has and the map does not
list is never handed out again. -/
theorem links_run [Fintype ι] (idleTimeout time : ℕ) (events : ℕ → Event ι) (n : ℕ) :
    let s := run (step idleTimeout) (initial time) events
    (∀ l, ((s n).links l).active = (Finset.univ.filter fun i => (s n).callers i = .opened l).card) ∧
    (∀ k k' l, (s n).clones k = some l → (s n).clones k' = some l → k = k') ∧
    ∀ l, Dead (s n) l → ∀ m, Dead (s (n + m)) l := by
  intro s
  have hini := inv_initial (ι := ι) idleTimeout time
  have h : LinksOk (s n) ∧ Counted (s n) :=
    run_invariant (P := fun s => LinksOk s ∧ Counted s) ⟨hini.links, hini.counted⟩
      (fun _ e h => ⟨h.1.step e, h.2.step h.1 e⟩) n
  refine ⟨h.2, fun _ _ _ => h.1.clones_inj, fun l hd m => ?_⟩
  induction m with
  | zero => exact hd
  | succ m ih => exact ih.step _

/-- A caller that creates a link, dials, and closes its connection. -/
def exampleUse : List (Event Unit) :=
  [.lookup () ⟨1, "a"⟩, .create () true, .register (), .finish (), .dial (), .dialed () true,
    .count (), .hangUp ()]

/-- `evictIdle` over a chain with one link. -/
def exampleEvict : List (Event Unit) :=
  [.evictBegin, .evictLock [(⟨1, "a"⟩, 0)], .evictLoadActive, .evictLoadPicked, .evictUnlock,
    .evictClose]

/-- The events of a list, and then nothing. -/
def eventsOf (trace : List (Event Unit)) (n : ℕ) : Event Unit := trace.getD n (.tick 0)

theorem evicted_not_in_use_example :
    ((run (step 1) (initial 0) (eventsOf (exampleUse ++ [.tick 5] ++ exampleEvict)) 15).links
      0).evictedAt = some 5 ∧
    ¬ (run (step 1) (initial 0) (eventsOf (exampleUse ++ [.tick 5] ++ exampleEvict)) 15).Uses ()
      0 := by
  have hev : ((run (step 1) (initial 0)
      (eventsOf (exampleUse ++ [.tick 5] ++ exampleEvict)) 15).links 0).evictedAt = some 5 := by
    decide
  refine ⟨hev, (evicted_not_in_use 1 0 _ (fun n => ?_) 15 0 5 hev).1 ()⟩
  -- the counter is loaded once, when the caller is idle
  intro he now key l todo vs _ _ i hi
  have hn : n = 11 := by
    by_cases hlt : n < 15
    · have key : ∀ n < 15, eventsOf (exampleUse ++ [.tick 5] ++ exampleEvict) n =
          .evictLoadActive → n = 11 := by decide
      exact key n hlt he
    · rw [eventsOf, List.getD_eq_default _ _ (by simpa [exampleUse, exampleEvict] using hlt)] at he
      cases he
  subst hn
  cases hi

/-- The state after a trace, with an `idle_timeout` of 1. -/
def runOf (trace : List (Event Unit)) : ChainState Unit :=
  run (step 1) (initial 0) (eventsOf trace) trace.length

/-- A link is closed after a caller has found it and before the caller picks it. -/
def foundThenEvicted : List (Event Unit) :=
  exampleUse ++ [.tick 5, .lookup () ⟨1, "a"⟩] ++ exampleEvict ++ [.touch (), .finish ()]

/-- A link is closed while a dial takes longer than `idle_timeout`. -/
def evictedWhileDialing : List (Event Unit) :=
  [.lookup () ⟨1, "a"⟩, .create () true, .register (), .finish (), .dial (), .tick 5] ++
    exampleEvict

theorem evicted_in_use : ((runOf foundThenEvicted).links 0).evictedAt = some 5 ∧
    (runOf foundThenEvicted).callers () = .returned 0 5 ∧
    ((runOf evictedWhileDialing).links 0).evictedAt = some 5 ∧
    (runOf evictedWhileDialing).callers () = .dialing 0 0 := by
  decide

end ChainState

end SingBox.Chain
