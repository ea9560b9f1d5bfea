import SingBox.DNS.Group.Transport

/-!
# The records of a DNS server group

The record lists stay ordered and bounded and the sticky target stays a member, whatever the
interleaving. That a member never has error and win records at once is a matter of order: the
winner of a fan notes its success and its win under two locks, and a failure of the same member
that another query notes in between leaves an error record beside the win.
-/

namespace SingBox.DNS.Group

open Foundation Function Transport Query List Selection

/-! ### Lists of times -/

/-- An ordered list of at most `maxRecords` times up to `clock`. -/
structure Stamped (clock : ℕ) (times : List ℕ) : Prop where
  ordered : times.Pairwise (· ≤ ·)
  le_clock : ∀ time ∈ times, time ≤ clock
  length_le : times.length ≤ maxRecords

theorem pruneTimes_suffix (times : List ℕ) (ttl now : ℕ) : pruneTimes times ttl now <:+ times :=
  dropWhile_suffix _

theorem appendCapped_suffix (times : List ℕ) (time : ℕ) :
    appendCapped times time <:+ times ++ [time] := by
  simp only [appendCapped]
  split_ifs
  · exact drop_suffix _ _
  · exact suffix_rfl

theorem length_appendCapped_le (times : List ℕ) (time : ℕ) :
    (appendCapped times time).length ≤ maxRecords := by
  simp only [appendCapped]
  split_ifs with h
  · rw [length_drop]
    omega
  · omega

namespace Stamped

variable {clock : ℕ} {times : List ℕ}

theorem nil : Stamped clock [] := ⟨.nil, by simp, by simp⟩

variable (h : Stamped clock times)

include h

theorem pruneTimes (ttl now : ℕ) : Stamped clock (pruneTimes times ttl now) where
  ordered := h.ordered.sublist (pruneTimes_suffix times ttl now).sublist
  le_clock time ht := h.le_clock time ((pruneTimes_suffix times ttl now).subset ht)
  length_le := (pruneTimes_suffix times ttl now).length_le.trans h.length_le

theorem appendCapped : Stamped clock (appendCapped times clock) where
  ordered := by
    refine List.Pairwise.sublist (appendCapped_suffix times clock).sublist ?_
    rw [pairwise_append]
    exact ⟨h.ordered, pairwise_singleton _ _, by simpa using h.le_clock⟩
  le_clock time ht := by
    rcases mem_append.mp ((appendCapped_suffix times clock).subset ht) with ho | hn
    · exact h.le_clock time ho
    · exact (mem_singleton.mp hn).le
  length_le := length_appendCapped_le times clock

theorem mono {cl' : ℕ} (hle : clock ≤ cl') : Stamped cl' times :=
  ⟨h.ordered, fun time ht => (h.le_clock time ht).trans hle, h.length_le⟩

end Stamped

/-! ### The transport -/

/-- A tag that is empty or a member's. -/
def IsTarget (cfg : Config) (tag : String) : Prop := tag = "" ∨ tag ∈ cfg.members

/-- Ordered and bounded records, and a sticky target that is empty or a member. -/
structure Transport.Sound (cfg : Config) (clock : ℕ) (t : Transport) : Prop where
  errors : ∀ tag, Stamped clock (t.records tag).errors
  wins : ∀ tag, Stamped clock (t.records tag).wins
  current : IsTarget cfg t.current

namespace Transport.Sound

variable {cfg : Config} {clock : ℕ} {t : Transport}

theorem empty : Sound cfg clock {} := ⟨fun _ => .nil, fun _ => .nil, .inl rfl⟩

theorem mono {cl' : ℕ} (h : Sound cfg clock t) (hle : clock ≤ cl') : Sound cfg cl' t :=
  ⟨fun tag => (h.errors tag).mono hle, fun tag => (h.wins tag).mono hle, h.current⟩

theorem reset (_ : Sound cfg clock t) : Sound cfg clock t.reset :=
  ⟨fun _ => .nil, fun _ => .nil, .inl rfl⟩

variable (h : Sound cfg clock t)

include h

theorem modifyRecord (tag : String) {f : MemberRecord → MemberRecord}
    (he : Stamped clock (f (t.records tag)).errors)
    (hw : Stamped clock (f (t.records tag)).wins) : Sound cfg clock (t.modifyRecord tag f) where
  errors := (forall_update_iff t.records fun _ r => Stamped clock r.errors).mpr
    ⟨he, fun x _ => h.errors x⟩
  wins := (forall_update_iff t.records fun _ r => Stamped clock r.wins).mpr
    ⟨hw, fun x _ => h.wins x⟩
  current := h.current

theorem noteError (tag : String) (gen : ℕ) : Sound cfg clock (t.noteError tag gen clock) := by
  unfold Transport.noteError
  split_ifs
  · exact h
  · exact h.modifyRecord tag (h.errors tag).appendCapped .nil

theorem noteSuccess (tag : String) (rtt gen : ℕ) : Sound cfg clock (t.noteSuccess tag rtt gen) := by
  unfold Transport.noteSuccess
  split_ifs
  · exact h
  · exact h.modifyRecord tag .nil (h.wins tag)
  · exact h.modifyRecord tag .nil (h.wins tag)

theorem noteWin (tag : String) (gen : ℕ) : Sound cfg clock (t.noteWin tag gen clock) := by
  unfold Transport.noteWin
  split_ifs
  · exact h
  · exact h.modifyRecord tag (h.errors tag) (h.wins tag).appendCapped

theorem setCurrent {tag : String} (ht : IsTarget cfg tag) (gen : ℕ) :
    Sound cfg clock (t.setCurrent tag gen) := by
  unfold Transport.setCurrent
  split_ifs
  · exact h
  · exact ⟨h.errors, h.wins, ht⟩

theorem pruneErrors (tags : List String) (now : ℕ) :
    Sound cfg clock (t.pruneErrors cfg tags now) where
  errors tag := by
    simp only [Transport.pruneErrors]
    split_ifs
    · exact (h.errors tag).pruneTimes _ _
    · exact h.errors tag
  wins tag := by
    simp only [Transport.pruneErrors]
    split_ifs <;> exact h.wins tag
  current := h.current

theorem pruneWins (tags : List String) (now : ℕ) : Sound cfg clock (t.pruneWins cfg tags now) where
  errors tag := by
    simp only [Transport.pruneWins]
    split_ifs <;> exact h.errors tag
  wins tag := by
    simp only [Transport.pruneWins]
    split_ifs
    · exact (h.wins tag).pruneTimes _ _
    · exact h.wins tag
  current := h.current

end Transport.Sound

/-! ### Targets -/

open Query

section Targets

variable {cfg : Config} {t : Transport} {candidates : List String} {choice : ℕ}

theorem mem_of_pick : pick choice candidates = "" ∨ pick choice candidates ∈ candidates := by
  unfold pick
  by_cases h : choice % candidates.length < candidates.length
  · right
    rw [getD_eq_getElem _ _ h]
    exact getElem_mem h
  · left
    rw [getD_eq_default _ _ (by omega)]

theorem isTarget_pick (h : ∀ tag ∈ candidates, tag ∈ cfg.members) :
    IsTarget cfg (pick choice candidates) :=
  mem_of_pick.imp_right (h _)

theorem isTarget_stickyPick (h : ∀ tag ∈ candidates, tag ∈ cfg.members) :
    IsTarget cfg (t.stickyPick choice candidates) := by
  unfold stickyPick
  split_ifs with hc
  · exact .inr (h _ hc.2)
  · exact isTarget_pick h

theorem mem_of_mem_cleanOf {tags : List String} {tag : String} (h : tag ∈ t.cleanOf tags) :
    tag ∈ tags :=
  mem_of_mem_filter h

/-- A loop that keeps, replaces or extends a list of candidates by the one at hand only has
candidates it has seen. -/
theorem mem_of_mem_foldl {σ : Type*} {f : σ → String → σ} {b : σ → List String}
    (hf : ∀ acc candidate, b (f acc candidate) ⊆ candidate :: b acc) {tag : String}
    (tags : List String) (acc : σ) (h : tag ∈ b (tags.foldl f acc)) : tag ∈ b acc ∨ tag ∈ tags := by
  induction tags generalizing acc with
  | nil => exact .inl h
  | cons candidate tags ih =>
    rcases ih _ h with ha | ht
    · rcases mem_cons.mp (hf acc candidate ha) with rfl | ha
      · exact .inr mem_cons_self
      · exact .inl ha
    · exact .inr (mem_cons_of_mem _ ht)

theorem fastestRound_subset (acc : List String × ℕ) (candidate : String) :
    (t.fastestRound acc candidate).1 ⊆ candidate :: acc.1 := by
  simp only [fastestRound]
  split_ifs <;> simp

theorem leastDirtyRound_subset (acc : Transport.LeastDirty) (candidate : String) :
    (t.leastDirtyRound acc candidate).best ⊆ candidate :: acc.best := by
  simp only [leastDirtyRound]
  split_ifs <;> simp

/-- The tags that a query may still write about. -/
def Query.tags : Query → List String
  | .idle => []
  | .selecting _ => []
  | .setting target _ => [target]
  | .exchanging target _ _ => [target]
  | .succeeded target _ _ => [target]
  | .failed target _ _ => [target]
  | .rescuing target _ => [target]
  | .rescuingAt target _ _ => [target]
  | .fan f => f.pending
  | .fanFailed f tag => tag :: f.pending
  | .fanSucceeded f tag _ => tag :: f.pending
  | .fanWon f tag => tag :: f.pending
  | .fanElected f tag => tag :: f.pending
  | .releasing => []
  | .done => []

/-- A query that writes about members alone. -/
def Query.Targets (cfg : Config) (q : Query) : Prop := ∀ tag ∈ q.tags, IsTarget cfg tag

theorem Fan.tags_resume (f : Fan) : f.resume.tags ⊆ f.pending := by
  unfold Fan.resume
  split_ifs <;> simp [tags]

theorem Fan.tags_afterSuccess (f : Fan) (tag : String) (alive : Bool) :
    (f.afterSuccess cfg tag alive).tags ⊆ tag :: f.pending := by
  unfold Fan.afterSuccess
  split_ifs
  · exact List.Subset.trans f.tags_resume (subset_cons_self _ _)
  · cases cfg.mode with
    | stable => exact List.Subset.refl _
    | fastest => exact List.Subset.refl _
    | parallel => exact List.Subset.trans (Fan.tags_resume _) (subset_cons_self _ _)

theorem Query.Targets.of_subset {q : Query} {tags : List String} (h : q.tags ⊆ tags)
    (hta : ∀ tag ∈ tags, IsTarget cfg tag) : q.Targets cfg :=
  fun tag ht => hta tag (h ht)

theorem Query.Targets.of_tags_nil {q : Query} (h : q.tags = []) : q.Targets cfg :=
  fun _ ht => absurd (h ▸ ht) not_mem_nil

theorem Selection.targets_single {target : String} (h : IsTarget cfg target) (prov : Bool)
    (gen : ℕ) : (single target prov gen).begin.Targets cfg := by
  intro tag ht
  cases prov <;>
  · rw [mem_singleton.mp ht]
    exact h

theorem Selection.targets_fan {ps : List String}
    (h : ∀ tag ∈ ps, tag ∈ cfg.members) (election : Bool) (gen : ℕ) :
    (fan ps election gen).begin.Targets cfg :=
  .of_subset (Fan.tags_resume _) fun tag ht => .inr (h tag ht)

theorem isTarget_leastDirty (choice : ℕ) : IsTarget cfg (t.leastDirty choice cfg.members) := by
  refine isTarget_pick fun tag ht => ?_
  rcases mem_of_mem_foldl leastDirtyRound_subset cfg.members {} ht with hn | hm
  · exact absurd hn not_mem_nil
  · exact hm

/-- What `selectTarget` does: records are pruned and the election flag may be taken, and the query
goes on with members. -/
theorem Transport.selectTarget_sound {clock : ℕ} (h : t.Sound cfg clock) (now choice : ℕ) :
    (t.selectTarget cfg now choice).2.Sound cfg clock ∧
      ∀ sel ∈ (t.selectTarget cfg now choice).1, sel.begin.Targets cfg := by
  have hp : ∀ u, u = t.pruneErrors cfg cfg.members now → u.Sound cfg clock := by
    rintro u rfl
    exact h.pruneErrors cfg.members now
  have hc : ∀ u : Transport, ∀ tag ∈ u.cleanOf cfg.members, tag ∈ cfg.members :=
    fun u tag => mem_of_mem_cleanOf
  have hw : ∀ u v, u = t.pruneErrors cfg cfg.members now →
      v = u.pruneWins cfg (u.cleanOf cfg.members) now → v.Sound cfg clock := by
    rintro u v hu rfl
    exact (hp u hu).pruneWins (u.cleanOf cfg.members) now
  refine selectTarget_cases (P := fun r => r.2.Sound cfg clock ∧
    ∀ sel ∈ r.1, sel.begin.Targets cfg) cfg t now choice ?_ ?_ ?_ ?_ ?_ ?_ ?_
  · exact ⟨h, by simp⟩
  · rintro u hu
    refine ⟨hp u hu, ?_⟩
    rintro sel ⟨⟩ tag ht
    rw [mem_singleton.mp ht]
    exact isTarget_leastDirty choice
  · rintro u hu
    refine ⟨hp u hu, ?_⟩
    rintro sel ⟨⟩
    exact targets_fan (hc u) _ _
  · rintro u hu
    refine ⟨hp u hu, ?_⟩
    rintro sel ⟨⟩
    exact targets_single (isTarget_stickyPick (hc u)) _ _
  · rintro u v hu hv
    refine ⟨hw u v hu hv, ?_⟩
    rintro sel ⟨⟩
    refine targets_single (isTarget_stickyPick fun tag ht => ?_) _ _
    rcases mem_of_mem_foldl (b := Prod.fst) fastestRound_subset _ _ ht with hn | hm
    · exact absurd hn not_mem_nil
    · exact hc u tag hm
  · rintro u v hu hv -
    refine ⟨⟨(hw u v hu hv).errors, (hw u v hu hv).wins, (hw u v hu hv).current⟩, ?_⟩
    rintro sel ⟨⟩
    exact targets_fan (hc u) _ _
  · rintro u v hu hv
    refine ⟨hw u v hu hv, ?_⟩
    rintro sel ⟨⟩
    exact targets_single (isTarget_pick (hc u)) _ _

theorem Query.exec_sound {clock : ℕ} (choice : Choice) (q : Query) (h : t.Sound cfg clock)
    (hq : q.Targets cfg) :
    (q.exec cfg clock choice t).1.Targets cfg ∧ (q.exec cfg clock choice t).2.Sound cfg clock := by
  cases q with
  | idle => exact ⟨.of_tags_nil rfl, h⟩
  | selecting now =>
    obtain ⟨hs, ht⟩ := selectTarget_sound h now choice.random
    simp only [exec]
    generalize t.selectTarget cfg now choice.random = r at hs ht
    obtain ⟨_ | sel, u⟩ := r
    · exact ⟨.of_tags_nil rfl, hs⟩
    · exact ⟨ht sel rfl, hs⟩
  | setting target gen => exact ⟨hq, h.setCurrent (hq target (mem_singleton_self _)) gen⟩
  | exchanging target gen survival =>
    simp only [exec]
    split_ifs <;> exact ⟨hq, h⟩
  | succeeded target rtt gen =>
    exact ⟨.of_tags_nil rfl, h.noteSuccess target rtt gen⟩
  | failed target gen survival =>
    refine ⟨?_, h.noteError target gen⟩
    cases survival
    · exact hq
    · exact .of_tags_nil rfl
  | rescuing target gen => exact ⟨hq, h⟩
  | rescuingAt target gen now =>
    refine ⟨.of_subset (Fan.tags_resume _) fun tag hta => .inr ?_, h.pruneErrors _ now⟩
    exact mem_of_mem_filter (mem_of_mem_cleanOf hta)
  | fan f =>
    simp only [exec]
    by_cases hm : choice.member ∈ f.pending
    · rw [if_pos hm]
      have he : ∀ tag ∈ choice.member :: f.pending.erase choice.member, IsTarget cfg tag := by
        intro tag hta
        rcases mem_cons.mp hta with rfl | hta
        · exact hq _ hm
        · exact hq tag (mem_of_mem_erase hta)
      split_ifs
      · exact ⟨he, h⟩
      · exact ⟨.of_subset (Fan.tags_resume _) fun tag hta =>
          he tag (mem_cons_of_mem _ hta), h⟩
      · exact ⟨he, h⟩
    · rw [if_neg hm]
      exact ⟨hq, h⟩
  | fanFailed f tag =>
    exact ⟨.of_subset f.tags_resume fun x hx => hq x (mem_cons_of_mem _ hx), h.noteError tag f.gen⟩
  | fanSucceeded f tag rtt =>
    exact ⟨.of_subset (f.tags_afterSuccess tag choice.alive) hq, h.noteSuccess tag rtt f.gen⟩
  | fanWon f tag => exact ⟨hq, h.noteWin tag f.gen⟩
  | fanElected f tag =>
    exact ⟨.of_subset f.tags_resume fun x hx => hq x (mem_cons_of_mem _ hx),
      h.setCurrent (hq tag mem_cons_self) f.gen⟩
  | releasing =>
    exact ⟨.of_tags_nil rfl, h.errors, h.wins, h.current⟩
  | done => exact ⟨hq, h⟩

end Targets

/-! ### Runs -/

/-- Sound records, and queries that write about members alone. -/
structure State.Sound (cfg : Config) (s : State) : Prop where
  transport : s.transport.Sound cfg s.clock
  queries : ∀ q, (s.queries q).Targets cfg

variable {cfg : Config}

theorem step_sound {s : State} (event : Event) (h : s.Sound cfg) :
    (step cfg s event).Sound cfg := by
  cases event with
  | tick d => exact ⟨h.transport.mono (Nat.le_add_right _ _), h.queries⟩
  | reset => exact ⟨h.transport.reset, h.queries⟩
  | act q choice =>
    obtain ⟨ht, hs⟩ := (s.queries q).exec_sound choice h.transport (h.queries q)
    refine ⟨hs, fun q' => ?_⟩
    by_cases hq : q' = q
    · subst hq
      simpa [step] using ht
    · simpa [step, update_of_ne hq] using h.queries q'

theorem exec_sound (cfg : Config) (events : ℕ → Event) (n : ℕ) : (exec cfg events n).Sound cfg :=
  run_invariant (P := State.Sound cfg) ⟨.empty, fun _ => .of_tags_nil rfl⟩
    (fun _ event h => step_sound event h) n

/-! ### Errors and wins -/

/-- The member, and the generation, whose failure the next step of a query notes. -/
def Query.notesError : Query → Option (String × ℕ)
  | .failed target gen _ => some (target, gen)
  | .fanFailed f tag => some (tag, f.gen)
  | _ => none

/-- The event notes a failure of a member, in the current generation, while a fan that the same
member has won has noted the success and not yet the win. -/
def Overtakes (s : State) : Event → Prop
  | .tick _ => False
  | .reset => False
  | .act q _ => ∃ q' f tag, s.queries q' = .fanWon f tag ∧ f.gen = s.transport.gen ∧
      (s.queries q).notesError = some (tag, f.gen)

/-- No member has error and win records at once. The second field is what the first one needs at
`noteWin`: the winner of a fan still has no error records. -/
structure State.Exclusive (s : State) : Prop where
  records : ∀ tag, (s.transport.records tag).errors = [] ∨ (s.transport.records tag).wins = []
  winners : ∀ q f tag, s.queries q = .fanWon f tag → f.gen = s.transport.gen →
    (s.transport.records tag).errors = []

/-- The generation stays and no list of records becomes non-empty. -/
structure Transport.Shrinks (t u : Transport) : Prop where
  gen : u.gen = t.gen
  errors : ∀ tag, (t.records tag).errors = [] → (u.records tag).errors = []
  wins : ∀ tag, (t.records tag).wins = [] → (u.records tag).wins = []

namespace Transport.Shrinks

variable {t u v : Transport}

theorem refl (t : Transport) : t.Shrinks t := ⟨rfl, fun _ h => h, fun _ h => h⟩

theorem trans (h : t.Shrinks u) (h' : u.Shrinks v) : t.Shrinks v :=
  ⟨h'.gen.trans h.gen, fun tag ht => h'.errors tag (h.errors tag ht),
    fun tag ht => h'.wins tag (h.wins tag ht)⟩

theorem pruneErrors (cfg : Config) (t : Transport) (tags : List String) (now : ℕ) :
    t.Shrinks (t.pruneErrors cfg tags now) where
  gen := rfl
  errors tag h := by
    simp only [Transport.pruneErrors]
    split_ifs
    · simp [h, pruneTimes]
    · exact h
  wins tag h := by
    simp only [Transport.pruneErrors]
    split_ifs <;> exact h

theorem pruneWins (cfg : Config) (t : Transport) (tags : List String) (now : ℕ) :
    t.Shrinks (t.pruneWins cfg tags now) where
  gen := rfl
  errors tag h := by
    simp only [Transport.pruneWins]
    split_ifs <;> exact h
  wins tag h := by
    simp only [Transport.pruneWins]
    split_ifs
    · simp [h, pruneTimes]
    · exact h

theorem noteSuccess (t : Transport) (tag : String) (rtt gen : ℕ) :
    t.Shrinks (t.noteSuccess tag rtt gen) := by
  unfold Transport.noteSuccess
  by_cases hg : t.gen ≠ gen
  · rw [if_pos hg]
    exact refl t
  rw [if_neg hg]
  exact ⟨rfl, (forall_update_iff t.records fun x r => (t.records x).errors = [] → r.errors = []).mpr
      ⟨fun _ => rfl, fun _ _ h => h⟩,
    (forall_update_iff t.records fun x r => (t.records x).wins = [] → r.wins = []).mpr
      ⟨id, fun _ _ h => h⟩⟩

theorem setCurrent (t : Transport) (tag : String) (gen : ℕ) : t.Shrinks (t.setCurrent tag gen) := by
  unfold Transport.setCurrent
  split_ifs
  · exact refl t
  · exact ⟨rfl, fun _ h => h, fun _ h => h⟩

theorem selectTarget (cfg : Config) (t : Transport) (now choice : ℕ) :
    t.Shrinks (t.selectTarget cfg now choice).2 := by
  have hp : ∀ u, u = t.pruneErrors cfg cfg.members now → t.Shrinks u := by
    rintro u rfl
    exact pruneErrors cfg t cfg.members now
  have hw : ∀ u v, u = t.pruneErrors cfg cfg.members now →
      v = u.pruneWins cfg (u.cleanOf cfg.members) now → t.Shrinks v := by
    rintro u v hu rfl
    exact (hp u hu).trans (pruneWins cfg u (u.cleanOf cfg.members) now)
  refine selectTarget_cases (P := fun r => t.Shrinks r.2) cfg t now choice (refl t)
    hp hp hp hw ?_ hw
  rintro u v hu hv -
  exact ⟨(hw u v hu hv).gen, (hw u v hu hv).errors, (hw u v hu hv).wins⟩

end Transport.Shrinks

namespace State.Exclusive

variable {cfg : Config} {s : State} {query : Query}

/-- A step that adds no records keeps the invariant, if a new winner has no errors. -/
theorem of_shrinks (h : s.Exclusive) (q : ℕ) {u : Transport} (hu : s.transport.Shrinks u)
    (hq : ∀ f tag, query = .fanWon f tag → f.gen = u.gen → (u.records tag).errors = []) :
    State.Exclusive ⟨s.clock, u, update s.queries q query⟩ where
  records tag := (h.records tag).imp (hu.errors tag) (hu.wins tag)
  winners := (forall_update_iff s.queries fun _ query => ∀ f tag, query = .fanWon f tag →
      f.gen = u.gen → (u.records tag).errors = []).mpr ⟨hq, fun q' _ f tag hw hg =>
    hu.errors tag (h.winners q' f tag hw (hg.trans hu.gen))⟩

variable {tag : String}

/-- A record of the generation is changed by a query that is not, or no longer, a winner. -/
theorem modifyRecord (h : s.Exclusive) (q : ℕ) {f : MemberRecord → MemberRecord}
    (hq : ∀ f tag, query ≠ .fanWon f tag)
    (ht : (f (s.transport.records tag)).errors = [] ∨ (f (s.transport.records tag)).wins = [])
    (hw : ∀ q' g, s.queries q' = .fanWon g tag → g.gen = s.transport.gen →
      (f (s.transport.records tag)).errors = []) :
    State.Exclusive ⟨s.clock, s.transport.modifyRecord tag f, update s.queries q query⟩ where
  records := (forall_update_iff s.transport.records fun _ r =>
    r.errors = [] ∨ r.wins = []).mpr ⟨ht, fun x _ => h.records x⟩
  winners := by
    refine (forall_update_iff s.queries fun _ query => ∀ g x, query = .fanWon g x →
      g.gen = s.transport.gen → ((s.transport.modifyRecord tag f).records x).errors = []).mpr
      ⟨fun g x hwon => absurd hwon (hq g x), fun q' _ g => ?_⟩
    exact (forall_update_iff s.transport.records fun x r => s.queries q' = .fanWon g x →
      g.gen = s.transport.gen → r.errors = []).mpr
      ⟨hw q' g, fun x _ => h.winners q' g x⟩

theorem noteError (h : s.Exclusive) (q : ℕ) {gen : ℕ}
    (ho : ∀ q' f, s.queries q' = .fanWon f tag → f.gen = s.transport.gen → f.gen ≠ gen)
    (hq : ∀ f tag, query ≠ .fanWon f tag) :
    State.Exclusive ⟨s.clock, s.transport.noteError tag gen s.clock, update s.queries q query⟩ := by
  unfold Transport.noteError
  split_ifs with hg
  · exact h.of_shrinks q (.refl _) fun f x hx => absurd hx (hq f x)
  · refine h.modifyRecord q hq (.inr rfl) fun q' f hw hf => ?_
    exact absurd (hf.trans (not_not.mp hg)) (ho q' f hw hf)

theorem noteWin (h : s.Exclusive) {q : ℕ} {f : Fan} (hw : s.queries q = .fanWon f tag)
    (hq : ∀ f tag, query ≠ .fanWon f tag) :
    State.Exclusive ⟨s.clock, s.transport.noteWin tag f.gen s.clock, update s.queries q query⟩ := by
  unfold Transport.noteWin
  split_ifs with hg
  · exact h.of_shrinks q (.refl _) fun f x hx => absurd hx (hq f x)
  · exact h.modifyRecord q hq (.inl (h.winners q f tag hw (not_not.mp hg).symm))
      fun q' g => h.winners q' g tag

end State.Exclusive

theorem Fan.resume_ne_fanWon (f g : Fan) (tag : String) : f.resume ≠ .fanWon g tag := by
  unfold Fan.resume
  split_ifs <;> simp

theorem Selection.begin_ne_fanWon (sel : Selection) (g : Fan) (tag : String) :
    sel.begin ≠ .fanWon g tag := by
  cases sel with
  | single target prov gen => cases prov <;> simp [begin]
  | survival target gen => simp [begin]
  | fan ps election gen => exact Fan.resume_ne_fanWon _ _ _

/-- Only the fan that has noted a success of the member becomes its winner. -/
theorem Fan.afterSuccess_eq_fanWon {f g : Fan} {tag x : String} {alive : Bool}
    (h : f.afterSuccess cfg tag alive = .fanWon g x) : x = tag ∧ g.gen = f.gen := by
  unfold Fan.afterSuccess at h
  split_ifs at h
  · exact absurd h (f.resume_ne_fanWon g x)
  · revert h
    cases cfg.mode with
    | stable => simp
    | fastest =>
      simp only [fanWon.injEq]
      rintro ⟨rfl, rfl⟩
      exact ⟨rfl, rfl⟩
    | parallel => exact fun h => absurd h (Fan.resume_ne_fanWon _ g x)

theorem step_exclusive {s : State} {event : Event} (h : s.Exclusive) (hov : ¬ Overtakes s event) :
    (step cfg s event).Exclusive := by
  cases event with
  | tick d => exact ⟨h.records, h.winners⟩
  | reset => exact ⟨fun _ => .inl rfl, fun _ _ _ _ _ => rfl⟩
  | act q choice =>
    have ho : ∀ tag gen, (s.queries q).notesError = some (tag, gen) → ∀ q' f,
        s.queries q' = .fanWon f tag → f.gen = s.transport.gen → f.gen ≠ gen := by
      rintro tag gen hn q' f hw hg rfl
      exact hov ⟨q', f, tag, hw, hg, hn⟩
    simp only [step]
    cases hq : s.queries q with
    | idle => exact h.of_shrinks q (.refl _) (by simp [Query.exec])
    | selecting now =>
      have hs := Transport.Shrinks.selectTarget cfg s.transport now choice.random
      simp only [Query.exec]
      generalize s.transport.selectTarget cfg now choice.random = r at hs
      obtain ⟨_ | sel, u⟩ := r
      · exact h.of_shrinks q hs (by simp)
      · exact h.of_shrinks q hs fun f tag hw => absurd hw (sel.begin_ne_fanWon f tag)
    | setting target gen => exact h.of_shrinks q (.setCurrent _ target gen) (by simp [Query.exec])
    | exchanging target gen survival =>
      simp only [Query.exec]
      split_ifs <;> exact h.of_shrinks q (.refl _) (by simp)
    | succeeded target rtt gen =>
      exact h.of_shrinks q (.noteSuccess _ target rtt gen) (by simp [Query.exec])
    | failed target gen survival =>
      refine h.noteError q (ho target gen (by rw [hq]; rfl)) fun f tag => ?_
      cases survival <;> simp [Query.exec]
    | rescuing target gen => exact h.of_shrinks q (.refl _) (by simp [Query.exec])
    | rescuingAt target gen now =>
      exact h.of_shrinks q (.pruneErrors cfg _ _ now) fun f tag hw =>
        absurd hw (Fan.resume_ne_fanWon _ f tag)
    | fan f =>
      simp only [Query.exec]
      split_ifs
      · exact h.of_shrinks q (.refl _) (by simp)
      · exact h.of_shrinks q (.refl _) fun g tag hw => absurd hw (Fan.resume_ne_fanWon _ g tag)
      · exact h.of_shrinks q (.refl _) (by simp)
      · exact h.of_shrinks q (.refl _) (by simp)
    | fanFailed f tag =>
      exact h.noteError q (ho tag f.gen (by rw [hq]; rfl)) (f.resume_ne_fanWon)
    | fanSucceeded f tag rtt =>
      refine h.of_shrinks q (.noteSuccess _ tag rtt f.gen) fun g x hw hg => ?_
      obtain ⟨rfl, hf⟩ := Fan.afterSuccess_eq_fanWon hw
      have hg : g.gen = s.transport.gen :=
        hg.trans (Transport.Shrinks.noteSuccess s.transport x rtt f.gen).gen
      simp [Query.exec, Transport.noteSuccess, ← hf, hg, modifyRecord]
    | fanWon f tag => exact h.noteWin hq (by simp [Query.exec])
    | fanElected f tag =>
      exact h.of_shrinks q (.setCurrent _ tag f.gen) fun g x hw =>
        absurd hw (f.resume_ne_fanWon g x)
    | releasing => exact h.of_shrinks q ⟨rfl, fun _ h => h, fun _ h => h⟩ (by simp [Query.exec])
    | done => exact h.of_shrinks q (.refl _) (by simp [Query.exec])

variable {events : ℕ → Event}

theorem exec_exclusive (ho : ∀ n, ¬ Overtakes (exec cfg events n) (events n)) (n : ℕ) :
    (exec cfg events n).Exclusive := by
  refine run_preserved (P := fun _ => State.Exclusive) (Nat.zero_le n) ?_ fun m _ _ h => ?_
  · exact ⟨fun _ => .inl rfl, fun _ _ _ _ _ => rfl⟩
  · exact step_exclusive h (ho m)

/-- A record of the list is live at the time. -/
def Live (times : List ℕ) (ttl now : ℕ) : Prop := ∃ time ∈ times, now < time + ttl

instance (times : List ℕ) (ttl now : ℕ) : Decidable (Live times ttl now) :=
  inferInstanceAs (Decidable (∃ time ∈ times, now < time + ttl))

/-- The records of a group in use, for every configuration and every interleaving. The lists are
ordered and bounded and the sticky target is a member. In a run in which no failure of a member is
noted between the success and the win of a fan that the member has won, no member ever has a live
error and a live win record. -/
theorem records_invariant (cfg : Config) (events : ℕ → Event) :
    (∀ n tag, ∀ times ∈ [((exec cfg events n).transport.records tag).errors,
        ((exec cfg events n).transport.records tag).wins],
      times.Pairwise (· ≤ ·) ∧ times.length ≤ maxRecords) ∧
    (∀ n, (exec cfg events n).transport.current = "" ∨
      (exec cfg events n).transport.current ∈ cfg.members) ∧
    ((∀ n, ¬ Overtakes (exec cfg events n) (events n)) → ∀ n tag,
      ¬ (Live ((exec cfg events n).transport.records tag).errors cfg.errorTTL
            (exec cfg events n).clock ∧
          Live ((exec cfg events n).transport.records tag).wins cfg.winTTL
            (exec cfg events n).clock)) := by
  refine ⟨fun n tag times ht => ?_, fun n => (exec_sound cfg events n).transport.current,
    fun ho n tag => ?_⟩
  · have hsn := (exec_sound cfg events n).transport
    have hs : Stamped (exec cfg events n).clock times := by
      rcases mem_pair.mp ht with rfl | rfl
      · exact hsn.errors tag
      · exact hsn.wins tag
    exact ⟨hs.ordered, hs.length_le⟩
  · rintro ⟨⟨e, he, -⟩, ⟨w, hw, -⟩⟩
    rcases (exec_exclusive ho n).records tag with hn | hn
    · rw [hn] at he
      exact absurd he not_mem_nil
    · rw [hn] at hw
      exact absurd hw not_mem_nil

/-- A query alone overtakes nothing: its winner's state notes no failure. -/
private theorem not_overtakes_of_alone (h : ∀ n, ∃ choice, events n = .act 0 choice)
    (n : ℕ) : ¬ Overtakes (exec cfg events n) (events n) := by
  have hi : ∀ q, q ≠ 0 → (exec cfg events n).queries q = .idle := by
    induction n with
    | zero => exact fun q _ => rfl
    | succ n ih =>
      intro q hq
      obtain ⟨choice, hc⟩ := h n
      rw [exec_succ, hc]
      simpa [step, update_of_ne hq] using ih q hq
  obtain ⟨choice, hc⟩ := h n
  rw [hc]
  rintro ⟨q, f, tag, hw, -, hn⟩
  by_cases hq : q = 0
  · rw [hq] at hw
    rw [hw] at hn
    exact absurd hn (by simp [notesError])
  · rw [hi q hq] at hw
    exact absurd hw (by simp)

def twoMembers : Config :=
  { members := ["a", "b"], mode := .fastest, errorTTL := 120, winTTL := 300 }

/-- A query alone in an election fan. The first answer is the failure of `b`, and `a` wins. -/
def failureThenWin (n : ℕ) : Event :=
  .act 0 (if n = 2 then { member := "b", failed := true } else { member := "a", rtt := 1 })

theorem records_invariant_alone :
    (∀ n, ¬ Overtakes (exec twoMembers failureThenWin n) (failureThenWin n)) ∧
      Live ((exec twoMembers failureThenWin 8).transport.records "a").wins twoMembers.winTTL
        (exec twoMembers failureThenWin 8).clock ∧
      Live ((exec twoMembers failureThenWin 8).transport.records "b").errors twoMembers.errorTTL
        (exec twoMembers failureThenWin 8).clock ∧
      ¬ Live ((exec twoMembers failureThenWin 8).transport.records "a").errors twoMembers.errorTTL
        (exec twoMembers failureThenWin 8).clock ∧
      ¬ Live ((exec twoMembers failureThenWin 8).transport.records "b").wins twoMembers.winTTL
        (exec twoMembers failureThenWin 8).clock := by
  have ho : ∀ n, ¬ Overtakes (exec twoMembers failureThenWin n) (failureThenWin n) :=
    not_overtakes_of_alone fun _ => ⟨_, rfl⟩
  have hw : Live ((exec twoMembers failureThenWin 8).transport.records "a").wins
      twoMembers.winTTL (exec twoMembers failureThenWin 8).clock := by decide +kernel
  have he : Live ((exec twoMembers failureThenWin 8).transport.records "b").errors
      twoMembers.errorTTL (exec twoMembers failureThenWin 8).clock := by decide +kernel
  have hx := (records_invariant twoMembers failureThenWin).2.2 ho 8
  exact ⟨ho, hw, he, fun h => hx "a" ⟨h, hw⟩, fun h => hx "b" ⟨he, h⟩⟩

/-- A query that asks `a` during an election fan fails between the success and the win of `a` in
that fan. -/
def overtaken : List Event :=
  [.act 0 {}, .act 0 {}, .act 1 {}, .act 1 {}, .act 0 { member := "a", rtt := 1 }, .act 0 {},
    .act 1 { failed := true }, .act 1 {}, .act 0 {}]

/-- The error record of `a` is noted before its win, and both are live. -/
theorem win_beside_error :
    let cfg : Config := { members := ["a", "b"], mode := .fastest, errorTTL := 120, winTTL := 300 }
    let s := exec cfg (fun n => overtaken.getD n (.tick 0)) 9
    Live (s.transport.records "a").errors cfg.errorTTL s.clock ∧
      Live (s.transport.records "a").wins cfg.winTTL s.clock := by
  decide

end SingBox.DNS.Group
