import SingBox.Foundation.Run

/-!
# The reachability cache of the router

The router caches a walk over the active routing tree. An event that changes the tree marks the
cache dirty afterwards; a call that finds it dirty clears the mark, walks the tree outside any lock
and publishes the result under one.

The tree is a value of an arbitrary type `τ` and a walk reads it at one moment. Calls and events are
goroutines, and each of their loads, stores and locked sections is a step. The clears of the mark
are numbered, and a call carries the number of its own.
-/

namespace SingBox.Route

open Foundation Function

/-- Where a call of `reachability` is. -/
inductive Call (ρ : Type*)
  | idle
  /-- The mark was clear; the cache is read next. -/
  | reading
  /-- The walk has to be done; the mark is cleared next. -/
  | missed
  /-- The mark was cleared, as the clear with this number. -/
  | cleared (n : ℕ)
  /-- The tree was walked; the result is published next. -/
  | walked (n : ℕ) (result : ρ)
deriving DecidableEq

/-- The number of the clear of a call whose result is not yet published. -/
def Call.number? {ρ : Type*} : Call ρ → Option ℕ
  | .cleared n | .walked n _ => some n
  | _ => none

/-- The state of the router. `clears` counts the clears of the mark and `published` is the number of
the call that has published last. -/
structure Router (ι κ τ ρ : Type*) where
  tree : τ
  reachDirty : Bool := true
  reachCache : Option ρ := none
  call : ι → Call ρ := fun _ => .idle
  /-- The events that have changed the tree and not yet marked the cache. -/
  changing : κ → Bool := fun _ => false
  clears : ℕ := 0
  published : ℕ := 0

/-- What a call `i` or an event `k` does next. -/
inductive RouterEvent (ι κ τ : Type*)
  | load (i : ι)
  | read (i : ι)
  | clear (i : ι)
  | walk (i : ι)
  | publish (i : ι)
  | change (k : κ) (tree : τ)
  | invalidateReachability (k : κ)
deriving DecidableEq

namespace Router

variable {ι κ τ ρ : Type*} [DecidableEq ι] [DecidableEq κ] (walk : τ → ρ)

/-- A call moves on. -/
def setCall (s : Router ι κ τ ρ) (i : ι) (c : Call ρ) : Router ι κ τ ρ :=
  { s with call := Function.update s.call i c }

/-- One step; a step that is not enabled does nothing. -/
def step (s : Router ι κ τ ρ) : RouterEvent ι κ τ → Router ι κ τ ρ
  | .load i =>
    match s.call i with
    | .idle => s.setCall i (if s.reachDirty then .missed else .reading)
    | _ => s
  | .read i =>
    match s.call i with
    | .reading => s.setCall i (if s.reachCache.isSome then .idle else .missed)
    | _ => s
  | .clear i =>
    match s.call i with
    | .missed =>
      { s.setCall i (.cleared (s.clears + 1)) with
        reachDirty := false
        clears := s.clears + 1 }
    | _ => s
  | .walk i =>
    match s.call i with
    | .cleared n => s.setCall i (.walked n (walk s.tree))
    | _ => s
  | .publish i =>
    match s.call i with
    | .walked n result =>
      { s.setCall i .idle with
        reachCache := some result
        published := n }
    | _ => s
  | .change k tree =>
    if s.changing k then s
    else { s with tree := tree, changing := Function.update s.changing k true }
  | .invalidateReachability k =>
    if s.changing k then
      { s with reachDirty := true, changing := Function.update s.changing k false }
    else s

/-- No call and no event is in progress. -/
def Quiescent (s : Router ι κ τ ρ) : Prop :=
  (∀ i, s.call i = .idle) ∧ ∀ k, s.changing k = false

/-- A call that publishes has cleared the mark after the call that has published last. -/
def InOrder (s : Router ι κ τ ρ) : RouterEvent ι κ τ → Prop
  | .publish i => ∀ n result, s.call i = .walked n result → s.published < n
  | _ => True

/-! ### What a step can do -/

variable {e : RouterEvent ι κ τ}

theorem step_cases {s : Router ι κ τ ρ} {P : Router ι κ τ ρ → Prop} (same : P s)
    (move : ∀ i c, (s.call i).number? = none → c.number? = none → P (s.setCall i c))
    (clear : ∀ i, e = .clear i → (s.call i).number? = none →
      P { s.setCall i (.cleared (s.clears + 1)) with reachDirty := false, clears := s.clears + 1 })
    (walked : ∀ i n, e = .walk i → s.call i = .cleared n →
      P (s.setCall i (.walked n (walk s.tree))))
    (publish : ∀ i n result, e = .publish i → s.call i = .walked n result →
      P { s.setCall i .idle with reachCache := some result, published := n })
    (change : ∀ k tree, P { s with tree := tree, changing := update s.changing k true })
    (invalidate : ∀ k, s.changing k = true →
      P { s with reachDirty := true, changing := update s.changing k false }) :
    P (step walk s e) := by
  cases e with
  | load i | read i =>
    rw [step]
    split
    case h_1 hi =>
      refine move i _ (by rw [hi]; rfl) ?_
      split <;> rfl
    case h_2 => exact same
  | clear i =>
    rw [step]
    split
    case h_1 hi => exact clear i rfl (by rw [hi]; rfl)
    case h_2 => exact same
  | walk i =>
    rw [step]
    split
    case h_1 n hi => exact walked i n rfl hi
    case h_2 => exact same
  | publish i =>
    rw [step]
    split
    case h_1 n result hi => exact publish i n result rfl hi
    case h_2 => exact same
  | change k tree =>
    rw [step]
    split
    · exact same
    · exact change k tree
  | invalidateReachability k =>
    rw [step]
    split
    case isTrue hk => exact invalidate k hk
    case isFalse => exact same

/-! ### The latest clear -/

/-- As long as the mark is clear, the call that cleared it last has published or is about to, and
unless an event is in progress its result is the walk of the current tree. -/
structure Inv (s : Router ι κ τ ρ) : Prop where
  number_le : ∀ i n, (s.call i).number? = some n → n ≤ s.clears
  published_le : s.published ≤ s.clears
  latest : s.reachDirty = false →
    s.published = s.clears ∨ ∃ i, (s.call i).number? = some s.clears
  fresh : s.reachDirty = false → (∀ k, s.changing k = false) →
    ∀ i result, s.call i = .walked s.clears result → result = walk s.tree
  cached : s.reachDirty = false → (∀ k, s.changing k = false) →
    s.published = s.clears → s.reachCache = some (walk s.tree)

variable {walk} {s : Router ι κ τ ρ}

omit [DecidableEq κ] in
/-- A call goes on under its number, with a result that is current. -/
theorem Inv.move (h : s.Inv walk) {i : ι} {c : Call ρ} (hc : c.number? = (s.call i).number?)
    (hr : ∀ n result, c = .walked n result → result = walk s.tree) : (s.setCall i c).Inv walk := by
  have hca : ∀ j, ((s.setCall i c).call j).number? = (s.call j).number? := by
    intro j
    by_cases hj : j = i
    · subst hj
      simp [setCall, hc]
    · simp only [setCall, update_of_ne hj]
  refine ⟨fun j n hj => h.number_le j n (hca j ▸ hj), h.published_le, fun hd => ?_,
    fun hd hk j result hj => ?_, h.cached⟩
  · refine (h.latest hd).imp_right fun ⟨j, hj⟩ => ⟨j, ?_⟩
    rw [hca j]
    exact hj
  · by_cases hne : j = i
    · subst hne
      simp only [setCall, update_self] at hj
      exact hr _ result hj
    · refine h.fresh hd hk j result ?_
      simpa only [setCall, update_of_ne hne] using hj

open Call

omit [DecidableEq κ] in
theorem Inv.clear (h : s.Inv walk) (i : ι) : Inv walk { s.setCall i (.cleared (s.clears + 1)) with
      reachDirty := false, clears := s.clears + 1 } := by
  have hs : update s.call i (.cleared (s.clears + 1)) i = .cleared (s.clears + 1) := update_self ..
  refine ⟨fun j n hj => ?_, Nat.le_succ_of_le h.published_le, fun _ => .inr ⟨i, ?_⟩,
    fun _ _ j result hj => ?_, fun _ _ hp => ?_⟩
  · by_cases hne : j = i
    · subst hne
      simp only [setCall, hs, number?, Option.some.injEq] at hj
      exact Nat.le_of_eq hj.symm
    · simp only [setCall, update_of_ne hne] at hj
      exact Nat.le_succ_of_le (h.number_le j n hj)
  · simp only [setCall, hs, number?]
  · by_cases hne : j = i
    · subst hne
      simp only [setCall, hs] at hj
      exact absurd hj (by simp)
    · simp only [setCall, update_of_ne hne] at hj
      have hle := h.number_le j (s.clears + 1) (by rw [hj]; rfl)
      omega
  · have hle := h.published_le
    change s.published = s.clears + 1 at hp
    omega

omit [DecidableEq κ] in
theorem Inv.publish (h : s.Inv walk) {i : ι} {n : ℕ} {result : ρ}
    (hi : s.call i = .walked n result) (hor : s.published < n) :
    Inv walk { s.setCall i .idle with reachCache := some result, published := n } := by
  have ho : ∀ {j}, j ≠ i → update s.call i .idle j = s.call j :=
    fun hne => update_of_ne hne ..
  have hs : update s.call i .idle i = .idle := update_self ..
  have hn : n ≤ s.clears := h.number_le i n (by rw [hi]; rfl)
  refine ⟨fun j m hj => ?_, hn, fun hd => ?_, fun hd hk j r hj => ?_, fun hd hk hl => ?_⟩
  · by_cases hne : j = i
    · subst hne
      simp only [setCall, hs, number?] at hj
      exact absurd hj (by simp)
    · simp only [setCall, ho hne] at hj
      exact h.number_le j m hj
  · rcases h.latest hd with hp | ⟨j, hj⟩
    · omega
    · by_cases hne : j = i
      · subst hne
        rw [hi] at hj
        exact .inl (Option.some.inj hj)
      · right
        refine ⟨j, ?_⟩
        simp only [setCall, ho hne]
        exact hj
  · by_cases hne : j = i
    · subst hne
      simp only [setCall, hs] at hj
      exact absurd hj (by simp)
    · simp only [setCall, ho hne] at hj
      exact h.fresh hd hk j r hj
  · have heq : n = s.clears := hl
    rw [heq] at hi
    exact congrArg some (h.fresh hd hk i result hi)

theorem Inv.step (h : s.Inv walk) (ho : s.InOrder e) : (step walk s e).Inv walk := by
  refine step_cases walk h (fun i c hi hc => h.move (hc.trans hi.symm) ?_) (fun i _ _ => h.clear i)
    (fun i n _ hi => h.move (by rw [hi]; rfl) ?_) ?_ (fun k tree => ?_) (fun k _ => ?_)
  · rintro n result rfl
    cases hc
  · rintro _ result ⟨⟩
    rfl
  · rintro i n result rfl hi
    exact h.publish hi (ho n result hi)
  · -- While the event is in progress nothing is said about the results.
    have hb : ¬ ∀ k', update s.changing k true k' = false := fun ha => by
      have hk := ha k
      rw [update_self] at hk
      exact Bool.noConfusion hk
    exact ⟨h.number_le, h.published_le, h.latest, fun _ hk => absurd hk hb,
      fun _ hk => absurd hk hb⟩
  · exact ⟨h.number_le, h.published_le, fun hd => Bool.noConfusion hd,
      fun hd => Bool.noConfusion hd, fun hd => Bool.noConfusion hd⟩

omit [DecidableEq ι] [DecidableEq κ] in
theorem inv_initial (tree : τ) : Inv walk ({ tree := tree } : Router ι κ τ ρ) :=
  ⟨fun _ _ h => absurd h (by simp [Call.number?]), Nat.le_refl 0, fun h => Bool.noConfusion h,
    fun h => Bool.noConfusion h, fun h => Bool.noConfusion h⟩

/-- In every run in which results are published in the order of their clears: when no call and no
event is in progress and the mark is clear, the cache is the walk of the current tree. -/
theorem cache_current (walk : τ → ρ) (tree : τ) (events : ℕ → RouterEvent ι κ τ)
    (horder : ∀ t, (run (step walk) { tree := tree } events t).InOrder (events t)) (n : ℕ)
    (hquiescent : (run (step walk) { tree := tree } events n).Quiescent)
    (hclear : (run (step walk) { tree := tree } events n).reachDirty = false) :
    (run (step walk) { tree := tree } events n).reachCache =
      some (walk (run (step walk) { tree := tree } events n).tree) := by
  have hin : (run (step walk) { tree := tree } events n).Inv walk := by
    refine run_preserved (P := fun _ (s : Router ι κ τ ρ) => s.Inv walk) (Nat.zero_le n)
      (inv_initial tree) ?_
    intro t _ _ ht
    exact ht.step (horder t)
  refine hin.cached hclear hquiescent.2 ?_
  rcases hin.latest hclear with hp | ⟨i, hi⟩
  · exact hp
  · rw [hquiescent.1 i] at hi
    exact absurd hi (by simp [number?])

/-- One call and one event, one after the other. -/
def oneCall (t : ℕ) : RouterEvent Bool Unit Bool :=
  [.change () true, .invalidateReachability (), .load true, .clear true, .walk true,
    .publish true].getD t (.read true)

theorem cache_current_example :
    (run (step id) { tree := false } oneCall 6).reachCache = some true := by
  have ho : ∀ t, (run (step id) { tree := false } oneCall t).InOrder (oneCall t) := by
    intro t
    match t with
    | 0 | 1 | 2 | 3 | 4 | _ + 6 => trivial
    | 5 =>
      intro n res hc
      obtain ⟨rfl, -⟩ := walked.inj (show walked 1 true = .walked n res from hc)
      decide
  have hq : (run (step id) { tree := false } oneCall 6).Quiescent :=
    ⟨by decide, fun () => by decide⟩
  exact cache_current id false oneCall ho 6 hq (by decide)

/-- Call `false` clears the mark and walks the old tree. The tree changes, and call `true` clears
the mark, walks the new tree and publishes it. Then call `false` publishes the old one. -/
def overlappingCalls (t : ℕ) : RouterEvent Bool Unit Bool :=
  [.load false, .clear false, .walk false, .change () true, .invalidateReachability (),
    .load true, .clear true, .walk true, .publish true, .publish false].getD t (.read true)

theorem cache_stale :
    let s := run (step id) { tree := false } overlappingCalls 10
    s.Quiescent ∧ s.reachDirty = false ∧ s.reachCache = some false ∧ s.tree = true :=
  ⟨⟨by decide, fun () => by decide⟩, by decide, by decide, by decide⟩

end Router

end SingBox.Route
