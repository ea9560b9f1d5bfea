import SingBox.DNS.Group.Election
import SingBox.DNS.Group.Records

/-!
# The reset of a DNS server group

`Reset` forgets all records and the sticky target and begins a new generation; what a query of an
older generation still writes is dropped. A run after a reset is compared with the run in which
these queries write nothing (`silentRun`): the two agree in all that later selections see.

One write of an old query is not guarded by the generation: the rescue after a failure drops the
records that have expired at its reading of the clock. Only a selection with an older reading could
see them, hence the condition `InOrder` on the readings.
-/

namespace SingBox.DNS.Group

open Foundation Transport Query List Selection

/-! ### Old queries -/

/-- The query has selected its target, and with it its generation. -/
def Query.selected : Query → Bool
  | .idle => false
  | .selecting _ => false
  | _ => true

/-- The generation that a query writes in. -/
def Query.gen? : Query → Option ℕ
  | .setting _ gen => some gen
  | .exchanging _ gen _ => some gen
  | .succeeded _ _ gen => some gen
  | .failed _ gen _ => some gen
  | .rescuing _ gen => some gen
  | .rescuingAt _ gen _ => some gen
  | .fan f => some f.gen
  | .fanFailed f _ => some f.gen
  | .fanSucceeded f _ _ => some f.gen
  | .fanWon f _ => some f.gen
  | .fanElected f _ => some f.gen
  | _ => none

/-- The reading of the clock that the next step of a query uses. -/
def Query.reading : Query → Option ℕ
  | .selecting now => some now
  | .rescuingAt _ _ now => some now
  | _ => none

open Fan Query Transport

theorem Fan.selected_resume (f : Fan) : f.resume.selected := by
  unfold resume
  split_ifs <;> rfl

theorem Fan.gen_resume (f : Fan) : ∀ g ∈ f.resume.gen?, g = f.gen := by
  unfold resume
  split_ifs <;> simp [gen?]

theorem Fan.selected_afterSuccess (cfg : Config) (f : Fan) (tag : String) (al : Bool) :
    (f.afterSuccess cfg tag al).selected := by
  unfold afterSuccess
  split_ifs
  · exact f.selected_resume
  · cases cfg.mode with
    | stable => rfl
    | fastest => rfl
    | parallel => exact selected_resume _

theorem Fan.gen_afterSuccess (cfg : Config) (f : Fan) (tag : String) (al : Bool) :
    ∀ g ∈ (f.afterSuccess cfg tag al).gen?, g = f.gen := by
  unfold afterSuccess
  split_ifs
  · exact f.gen_resume
  · cases cfg.mode with
    | stable => simp [gen?]
    | fastest => simp [gen?]
    | parallel => exact gen_resume _

theorem Selection.selected_begin (sel : Selection) : sel.begin.selected := by
  cases sel with
  | single target prov gen => cases prov <;> rfl
  | survival target gen => rfl
  | fan ps election gen => exact selected_resume _

/-- A selected query of generations before `gen`. -/
structure Query.Late (gen : ℕ) (q : Query) : Prop where
  selected : q.selected = true
  before : ∀ g ∈ q.gen?, g < gen

variable {q : Query}

theorem Query.Late.exec {gen : ℕ} (h : q.Late gen) (cfg : Config) (clock : ℕ) (ch : Choice)
    (t : Transport) : (q.exec cfg clock ch t).1.Late gen := by
  have hfa : ∀ f : Fan, f.gen < gen → f.resume.Late gen := fun f hf =>
    ⟨f.selected_resume, fun g hg => f.gen_resume g hg ▸ hf⟩
  cases q with
  | idle | selecting => exact absurd h.selected (by simp [Query.selected])
  | setting target g => exact ⟨rfl, h.before⟩
  | exchanging target g surv =>
    simp only [exec]
    split_ifs <;> exact ⟨rfl, h.before⟩
  | succeeded target rtt g => exact ⟨rfl, by simp [exec, gen?]⟩
  | failed target g surv =>
    cases surv
    · exact ⟨rfl, h.before⟩
    · exact ⟨rfl, by simp [exec, gen?]⟩
  | rescuing target g => exact ⟨rfl, h.before⟩
  | rescuingAt target g now => exact hfa _ (h.before g rfl)
  | fan f =>
    simp only [exec]
    split_ifs
    · exact ⟨rfl, h.before⟩
    · exact hfa _ (h.before f.gen rfl)
    · exact ⟨rfl, h.before⟩
    · exact h
  | fanFailed f tag => exact hfa f (h.before f.gen rfl)
  | fanSucceeded f tag rtt =>
    exact ⟨f.selected_afterSuccess cfg tag ch.alive, fun g hg =>
      f.gen_afterSuccess cfg tag ch.alive g hg ▸ h.before f.gen rfl⟩
  | fanWon f tag => exact ⟨rfl, h.before⟩
  | fanElected f tag => exact hfa f (h.before f.gen rfl)
  | releasing => exact ⟨rfl, by simp [exec, gen?]⟩
  | done => exact h

theorem Query.exec_selecting_late (cfg : Config) (clock now : ℕ) (ch : Choice)
    (t : Transport) : ((selecting now).exec cfg clock ch t).1.Late (t.gen + 1) := by
  have hf : ∀ (ps : List String) (elec : Bool) (u : Transport), u.gen = t.gen →
      (Selection.fan ps elec u.gen).begin.Late (t.gen + 1) := by
    intro ps elec u hu
    refine ⟨selected_begin _, fun g hg => ?_⟩
    rw [gen_resume _ g hg]
    exact Nat.lt_succ_of_le (le_of_eq hu)
  have ho : ∀ (target : String) (prov : Bool) (u : Transport), u.gen = t.gen →
      (single target prov u.gen).begin.Late (t.gen + 1) := by
    intro target prov u hu
    refine ⟨selected_begin _, fun g hg => ?_⟩
    have hg : g = u.gen := by cases prov <;> simpa [begin, gen?, eq_comm] using hg
    omega
  refine selectTarget_cases (P := fun r => (r.1.elim .done begin).Late
    (t.gen + 1)) cfg t now ch.random ?_ ?_ ?_ ?_ ?_ ?_ ?_
  · exact ⟨rfl, by simp [gen?]⟩
  · rintro u rfl
    exact ⟨rfl, fun g hg => Nat.lt_succ_of_le (le_of_eq (Option.some.inj hg).symm)⟩
  · intro u hu
    exact hf _ _ u (by rw [hu]; rfl)
  · intro u hu
    exact ho _ false u (by rw [hu]; rfl)
  · intro u v hu hv
    exact ho _ false v (by rw [hv, hu]; rfl)
  · intro u v hu hv _
    exact hf _ _ v (by rw [hv, hu]; rfl)
  · intro u v hu hv
    exact ho _ true v (by rw [hv, hu]; rfl)

theorem Transport.noteError_gen (t : Transport) (tag : String) (gen now : ℕ) :
    (t.noteError tag gen now).gen = t.gen := by
  unfold noteError
  split_ifs <;> rfl

theorem Transport.noteWin_gen (t : Transport) (tag : String) (gen now : ℕ) :
    (t.noteWin tag gen now).gen = t.gen := by
  unfold noteWin
  split_ifs <;> rfl

theorem Query.exec_gen (cfg : Config) (clock : ℕ) (ch : Choice) (q : Query) (t : Transport) :
    (q.exec cfg clock ch t).2.gen = t.gen := by
  cases q with
  | selecting now => exact (Transport.Shrinks.selectTarget cfg t now ch.random).gen
  | setting target gen => exact (Transport.Shrinks.setCurrent t target gen).gen
  | exchanging target gen survival =>
    simp only [exec]
    split_ifs <;> rfl
  | succeeded target rtt gen => exact (Transport.Shrinks.noteSuccess t target rtt gen).gen
  | failed target gen survival => exact t.noteError_gen target gen clock
  | fan f =>
    simp only [exec]
    split_ifs <;> rfl
  | fanFailed f tag => exact t.noteError_gen tag f.gen clock
  | fanSucceeded f tag rtt => exact (Transport.Shrinks.noteSuccess t tag rtt f.gen).gen
  | fanWon f tag => exact t.noteWin_gen tag f.gen clock
  | fanElected f tag => exact (Transport.Shrinks.setCurrent t tag f.gen).gen
  | _ => rfl

variable {cfg : Config}

theorem step_late {s : State} (event : Event)
    (h : ∀ q, (s.queries q).selected = true → (s.queries q).Late (s.transport.gen + 1)) (x : ℕ)
    (hx : ((step cfg s event).queries x).selected = true) :
    ((step cfg s event).queries x).Late ((step cfg s event).transport.gen + 1) := by
  cases event with
  | tick d => exact h x hx
  | reset => exact ⟨hx, fun g hg => Nat.lt_succ_of_lt ((h x hx).before g hg)⟩
  | act q ch =>
    have hgen := (s.queries q).exec_gen cfg s.clock ch s.transport
    by_cases hxq : x = q
    · subst hxq
      simp only [step, Function.update_self, hgen] at hx ⊢
      cases hq : s.queries x with
      | idle => rw [hq] at hx; exact absurd hx (by simp [Query.exec, Query.selected])
      | selecting now => exact exec_selecting_late cfg s.clock now ch s.transport
      | _ => rw [← hq]; exact (h x (by rw [hq]; rfl)).exec cfg s.clock ch s.transport
    · simp only [step, Function.update_of_ne hxq, hgen] at hx ⊢
      exact h x hx

theorem exec_late (cfg : Config) (events : ℕ → Event) (n q : ℕ)
    (h : ((exec cfg events n).queries q).selected = true) :
    ((exec cfg events n).queries q).Late ((exec cfg events n).transport.gen + 1) := by
  have hi : ∀ q, ((exec cfg events n).queries q).selected = true →
      ((exec cfg events n).queries q).Late ((exec cfg events n).transport.gen + 1) := by
    refine run_invariant (P := fun s : State => ∀ q, (s.queries q).selected = true →
      (s.queries q).Late (s.transport.gen + 1)) ?_ ?_ n
    · intro q hq
      exact absurd hq (by simp [selected])
    · exact fun s event ih => step_late event ih
  exact hi q h

/-! ### Lists of errors that differ in expired records -/

theorem pruneTimes_append {p times : List ℕ} {ttl now : ℕ} (h : ∀ time ∈ p, time + ttl ≤ now) :
    pruneTimes (p ++ times) ttl now = pruneTimes times ttl now := by
  unfold pruneTimes
  rw [dropWhile_append_of_pos fun time ht => by simpa using h time ht]

/-- What `pruneTimes` drops has expired. -/
theorem exists_append_pruneTimes (times : List ℕ) (ttl now : ℕ) :
    ∃ p, times = p ++ pruneTimes times ttl now ∧ ∀ time ∈ p, time + ttl ≤ now := by
  refine ⟨times.takeWhile fun time => !decide (now < time + ttl),
    takeWhile_append_dropWhile.symm, fun time ht => ?_⟩
  have he := mem_takeWhile_imp ht
  simpa using he

theorem appendCapped_append (p times : List ℕ) (time : ℕ) :
    ∃ p', p' ⊆ p ∧ appendCapped (p ++ times) time = p' ++ appendCapped times time := by
  unfold appendCapped
  simp only [length_append, length_singleton]
  by_cases hl : times.length + 1 > maxRecords
  · refine ⟨[], nil_subset _, ?_⟩
    rw [if_pos hl, if_pos (by omega), nil_append, append_assoc, drop_append]
    have hd : p.drop (p.length + times.length + 1 - maxRecords) = [] :=
      drop_eq_nil_of_le (by omega)
    rw [hd, nil_append]
    congr 1
    omega
  · rw [if_neg hl]
    by_cases hc : p.length + times.length + 1 > maxRecords
    · rw [if_pos hc]
      refine ⟨p.drop (p.length + times.length + 1 - maxRecords), drop_subset _ _, ?_⟩
      rw [append_assoc, drop_append_of_le_length (by omega)]
    · rw [if_neg hc]
      exact ⟨p, List.Subset.refl _, append_assoc _ _ _⟩

/-! ### Transports that agree -/

/-- The records differ at most in error records with property `E`, which the second still has. -/
structure MemberRecord.Agree (E : ℕ → Prop) (r r' : MemberRecord) : Prop where
  wins : r'.wins = r.wins
  lastRTT : r'.lastRTT = r.lastRTT
  errors : ∃ p, r'.errors = p ++ r.errors ∧ ∀ time ∈ p, E time

/-- An error record of a member that has expired at one of the readings `D`. -/
def Expired (cfg : Config) (D : ℕ → Prop) (tag : String) (time : ℕ) : Prop :=
  tag ∈ cfg.members ∧ ∃ now, D now ∧ time + cfg.errorTTL ≤ now

/-- The transports differ at most in error records that have expired at one of the readings `D`. -/
structure Transport.Agree (cfg : Config) (D : ℕ → Prop) (t u : Transport) : Prop where
  gen : u.gen = t.gen
  current : u.current = t.current
  election : u.election = t.election
  records : ∀ tag, (t.records tag).Agree (Expired cfg D tag) (u.records tag)

theorem MemberRecord.Agree.eq {E : ℕ → Prop} {r r' : MemberRecord} (h : r.Agree E r')
    (hE : ∀ time, ¬ E time) : r' = r := by
  obtain ⟨p, he, hp⟩ := h.errors
  have hn : p = [] := eq_nil_iff_forall_not_mem.mpr fun time ht => hE time (hp time ht)
  rw [hn, nil_append] at he
  have hw := h.wins
  have hr := h.lastRTT
  cases r
  cases r'
  simp_all

namespace Transport.Agree

variable {cfg : Config} {D D' : ℕ → Prop} {t u : Transport}

theorem refl (t : Transport) : t.Agree cfg D t :=
  ⟨rfl, rfl, rfl, fun _ => ⟨rfl, rfl, [], rfl, by simp⟩⟩

variable (h : t.Agree cfg D u)

include h

theorem mono (hD : ∀ now, D now → D' now) : t.Agree cfg D' u where
  __ := h
  records tag := by
    obtain ⟨p, he, hp⟩ := (h.records tag).errors
    refine ⟨(h.records tag).wins, (h.records tag).lastRTT, p, he, fun time ht => ?_⟩
    obtain ⟨hm, now, hnow, hexp⟩ := hp time ht
    exact ⟨hm, now, hD now hnow, hexp⟩

theorem reset : t.reset.Agree cfg D u.reset where
  gen := congrArg (· + 1) h.gen
  current := rfl
  election := h.election
  records _ := ⟨rfl, rfl, [], rfl, by simp⟩

theorem modifyRecord (tag : String) {f : MemberRecord → MemberRecord}
    (hf : (f (t.records tag)).Agree (Expired cfg D tag) (f (u.records tag))) :
    (t.modifyRecord tag f).Agree cfg D (u.modifyRecord tag f) where
  __ := h
  records x := by
    by_cases hx : x = tag
    · subst hx
      simpa [Transport.modifyRecord] using hf
    · simpa [Transport.modifyRecord, Function.update_of_ne hx] using h.records x

theorem noteError (tag : String) (gen now : ℕ) :
    (t.noteError tag gen now).Agree cfg D (u.noteError tag gen now) := by
  unfold Transport.noteError
  rw [h.gen]
  by_cases hg : t.gen ≠ gen
  · rw [if_pos hg, if_pos hg]
    exact h
  rw [if_neg hg, if_neg hg]
  obtain ⟨p, he, hp⟩ := (h.records tag).errors
  obtain ⟨p', hs, ha⟩ := appendCapped_append p (t.records tag).errors now
  refine h.modifyRecord tag ⟨rfl, (h.records tag).lastRTT, p', ?_, fun x hx => hp x (hs hx)⟩
  rw [he, ha]

theorem noteSuccess (tag : String) (rtt gen : ℕ) :
    (t.noteSuccess tag rtt gen).Agree cfg D (u.noteSuccess tag rtt gen) := by
  unfold Transport.noteSuccess
  rw [h.gen]
  by_cases hg : t.gen ≠ gen
  · rw [if_pos hg, if_pos hg]
    exact h
  rw [if_neg hg, if_neg hg]
  refine h.modifyRecord tag ⟨(h.records tag).wins, ?_, [], rfl, by simp⟩
  simp only [(h.records tag).lastRTT]

theorem noteWin (tag : String) (gen now : ℕ) :
    (t.noteWin tag gen now).Agree cfg D (u.noteWin tag gen now) := by
  unfold Transport.noteWin
  rw [h.gen]
  by_cases hg : t.gen ≠ gen
  · rw [if_pos hg, if_pos hg]
    exact h
  rw [if_neg hg, if_neg hg]
  refine h.modifyRecord tag ⟨?_, (h.records tag).lastRTT, (h.records tag).errors⟩
  simp only [(h.records tag).wins]

theorem setCurrent (tag : String) (gen : ℕ) :
    (t.setCurrent tag gen).Agree cfg D (u.setCurrent tag gen) := by
  unfold Transport.setCurrent
  rw [h.gen, h.current]
  split_ifs
  · exact h
  · exact ⟨rfl, rfl, h.election, h.records⟩

section

variable {now : ℕ} (hnow : ∀ d, D d → d ≤ now)

include hnow

/-- At a reading that is not older than those of `D` the pruned records of a tag are the same. -/
theorem pruneErrors_records {tags : List String} {tag : String} (hta : tag ∈ tags) :
    (u.pruneErrors cfg tags now).records tag = (t.pruneErrors cfg tags now).records tag := by
  obtain ⟨p, he, hp⟩ := (h.records tag).errors
  have hpr : pruneTimes (u.records tag).errors cfg.errorTTL now =
      pruneTimes (t.records tag).errors cfg.errorTTL now := by
    rw [he]
    refine pruneTimes_append fun time ht => ?_
    obtain ⟨-, d, hd, hex⟩ := hp time ht
    exact hex.trans (hnow d hd)
  simp only [pruneErrors, if_pos hta, hpr, MemberRecord.mk.injEq, true_and]
  exact ⟨(h.records tag).wins, (h.records tag).lastRTT⟩

theorem pruneErrors (tags : List String) :
    (t.pruneErrors cfg tags now).Agree cfg D (u.pruneErrors cfg tags now) where
  __ := h
  records tag := by
    by_cases ht : tag ∈ tags
    · rw [h.pruneErrors_records hnow ht]
      exact ⟨rfl, rfl, [], rfl, by simp⟩
    · simpa [Transport.pruneErrors, ht] using h.records tag

/-- A selection prunes the records of all members, and the difference is gone. -/
theorem pruneErrors_members :
    u.pruneErrors cfg cfg.members now = t.pruneErrors cfg cfg.members now := by
  have hr : (u.pruneErrors cfg cfg.members now).records =
      (t.pruneErrors cfg cfg.members now).records := by
    funext tag
    by_cases ht : tag ∈ cfg.members
    · exact h.pruneErrors_records hnow ht
    · have heq : u.records tag = t.records tag :=
        (h.records tag).eq fun time hexp => ht hexp.1
      simp [Transport.pruneErrors, ht, heq]
  have hg := h.gen
  have hc := h.current
  have he := h.election
  unfold Transport.pruneErrors at hr ⊢
  simp only [mk.injEq]
  exact ⟨hr, hc, he, hg⟩

end

theorem pruneErrors_left {now : ℕ} (hnow : D now) {tags : List String}
    (hta : tags ⊆ cfg.members) : (t.pruneErrors cfg tags now).Agree cfg D u where
  __ := h
  records tag := by
    obtain ⟨p, he, hp⟩ := (h.records tag).errors
    by_cases htag : tag ∈ tags
    · obtain ⟨p', hs, hp'⟩ := exists_append_pruneTimes (t.records tag).errors cfg.errorTTL now
      simp only [Transport.pruneErrors, if_pos htag]
      refine ⟨(h.records tag).wins, (h.records tag).lastRTT, p ++ p', ?_, fun time ht => ?_⟩
      · rw [append_assoc, ← hs, he]
      · rcases mem_append.mp ht with ht | ht
        · exact hp time ht
        · exact ⟨hta htag, now, hnow, hp' time ht⟩
    · simpa [Transport.pruneErrors, htag] using h.records tag

end Transport.Agree

/-! ### Steps of queries -/

section Exec

variable {cfg : Config} {D : ℕ → Prop} {t u : Transport}

/-- A query whose reading is not older than those of `D` does the same on agreeing transports. -/
theorem Query.exec_agree (h : t.Agree cfg D u) (clock : ℕ) (ch : Choice) (q : Query)
    (hnow : ∀ now ∈ q.reading, ∀ d, D d → d ≤ now) :
    (q.exec cfg clock ch u).1 = (q.exec cfg clock ch t).1 ∧
      (q.exec cfg clock ch t).2.Agree cfg D (q.exec cfg clock ch u).2 := by
  cases q with
  | selecting now =>
    by_cases hm : cfg.members = []
    · simpa [Query.exec, selectTarget, hm] using h
    · have heq : u.selectTarget cfg now ch.random = t.selectTarget cfg now ch.random := by
        unfold selectTarget
        rw [h.pruneErrors_members (hnow now rfl), if_neg hm, if_neg hm]
      simp only [Query.exec, heq, true_and]
      exact .refl _
  | setting target gen => exact ⟨rfl, h.setCurrent target gen⟩
  | succeeded target rtt gen => exact ⟨rfl, h.noteSuccess target rtt gen⟩
  | failed target gen survival => exact ⟨rfl, h.noteError target gen clock⟩
  | rescuingAt target gen now =>
    simp only [Query.exec, cleanExcept]
    refine ⟨?_, h.pruneErrors (hnow now rfl) _⟩
    have hc : ∀ tags : List String, (u.pruneErrors cfg tags now).cleanOf tags =
        (t.pruneErrors cfg tags now).cleanOf tags := fun tags =>
      filter_congr fun tag ht => by rw [h.pruneErrors_records (hnow now rfl) ht]
    rw [hc]
  | exchanging | fan =>
    simp only [Query.exec]
    split_ifs <;> exact ⟨rfl, h⟩
  | fanFailed f tag => exact ⟨rfl, h.noteError tag f.gen clock⟩
  | fanSucceeded f tag rtt => exact ⟨rfl, h.noteSuccess tag rtt f.gen⟩
  | fanWon f tag => exact ⟨rfl, h.noteWin tag f.gen clock⟩
  | fanElected f tag => exact ⟨rfl, h.setCurrent tag f.gen⟩
  | releasing => exact ⟨rfl, h.gen, h.current, rfl, h.records⟩
  | _ => exact ⟨rfl, h⟩

/-- The writes of an old query: it drops expired records and releases the election flag. -/
theorem Query.Late.exec_agree (hq : q.Late t.gen) (h : t.Agree cfg D u) (clock : ℕ)
    (ch : Choice) (hnow : ∀ now ∈ q.reading, D now) : (q.exec cfg clock ch t).2.Agree cfg D
      { u with election := (q.exec cfg clock ch t).2.election } := by
  have hs : t.Agree cfg D { u with election := t.election } :=
    ⟨h.gen, h.current, rfl, h.records⟩
  have hne : ∀ g ∈ q.gen?, t.gen ≠ g := fun g hg => (ne_of_lt (hq.before g hg)).symm
  cases q with
  | idle | selecting => exact absurd hq.selected (by simp [Query.selected])
  | setting target gen => simpa [Query.exec, Transport.setCurrent, hne gen rfl] using hs
  | succeeded target rtt gen => simpa [Query.exec, Transport.noteSuccess, hne gen rfl] using hs
  | failed target gen survival => simpa [Query.exec, Transport.noteError, hne gen rfl] using hs
  | rescuingAt target gen now =>
    exact hs.pruneErrors_left (hnow now rfl) (filter_subset_self _)
  | exchanging | fan =>
    simp only [Query.exec]
    split_ifs <;> exact hs
  | fanFailed f tag => simpa [Query.exec, Transport.noteError, hne f.gen rfl] using hs
  | fanSucceeded f tag rtt => simpa [Query.exec, Transport.noteSuccess, hne f.gen rfl] using hs
  | fanWon f tag => simpa [Query.exec, Transport.noteWin, hne f.gen rfl] using hs
  | fanElected f tag => simpa [Query.exec, Transport.setCurrent, hne f.gen rfl] using hs
  | releasing => exact ⟨h.gen, h.current, rfl, h.records⟩
  | rescuing target gen => exact hs
  | done => exact hs

/-- Queries that are the same or hold no election both. -/
def Query.Alike (q q' : Query) : Prop := q' = q ∨ q.holds = false ∧ q'.holds = false

/-- A selected query that holds no election takes none, and leaves the flag alone. -/
theorem Query.exec_of_not_holds (cfg : Config) (hse : q.selected)
    (hho : q.holds = false) (clock : ℕ) (ch : Choice) (t : Transport) :
    (q.exec cfg clock ch t).1.holds = false ∧ (q.exec cfg clock ch t).2.election = t.election := by
  have hh := q.exec_handover cfg clock ch t
  generalize hr : q.exec cfg clock ch t = r at hh
  obtain ⟨q', t'⟩ := r
  generalize he : t'.election = e at hh
  cases hh with
  | keep hsa => exact ⟨hsa.trans hho, rfl⟩
  | release ho _ => exact absurd ho (by simp [hho])
  | take _ hs _ => exact absurd hse (by simp [hs, selected])

theorem Query.Late.exec_alike (cfg : Config) {q q' : Query} {gen : ℕ} (hq : q.Late gen)
    (hq' : q'.Late gen)
    (h : q.Alike q') (clock : ℕ) (ch : Choice) (he : u.election = t.election) :
    (q.exec cfg clock ch t).1.Alike (q'.exec cfg clock ch u).1 ∧
      (q'.exec cfg clock ch u).2.election = (q.exec cfg clock ch t).2.election := by
  by_cases hh : q.holds = false ∧ q'.holds = false
  · obtain ⟨ho, hf⟩ := exec_of_not_holds cfg hq.selected hh.1 clock ch t
    obtain ⟨ho', hf'⟩ := exec_of_not_holds cfg hq'.selected hh.2 clock ch u
    exact ⟨.inr ⟨ho, ho'⟩, by rw [hf, hf', he]⟩
  -- A holder is a fan, whose next state does not depend on the transport.
  · obtain rfl := h.resolve_right hh
    have hh : q'.holds = true := by simpa using hh
    cases q' with
    | fan f =>
      simp only [Query.exec]
      split_ifs <;> exact ⟨.inl rfl, he⟩
    | fanFailed f tag =>
      simp only [Query.exec, noteError_election]
      exact ⟨.inl rfl, he⟩
    | fanSucceeded f tag rtt =>
      simp only [Query.exec, noteSuccess_election]
      exact ⟨.inl rfl, he⟩
    | fanWon f tag =>
      simp only [Query.exec, noteWin_election]
      exact ⟨.inl rfl, he⟩
    | fanElected f tag =>
      simp only [Query.exec, setCurrent_election]
      exact ⟨.inl rfl, he⟩
    | releasing => exact ⟨.inl rfl, rfl⟩
    | _ => exact absurd hh (by simp [holds])

end Exec

/-! ### The silent run -/

/-- A step in which the old queries write nothing; they still release the election flag. -/
def silentStep (cfg : Config) (old : ℕ → Bool) (s : State) : Event → State
  | .tick d => step cfg s (.tick d)
  | .reset => step cfg s .reset
  | .act q choice =>
    if old q then
      let (query, transport) := (s.queries q).exec cfg s.clock choice s.transport
      { s with
        transport := { s.transport with election := transport.election }
        queries := Function.update s.queries q query }
    else step cfg s (.act q choice)

/-- The run after event `r` in which the old queries write nothing. -/
def silentRun (cfg : Config) (old : ℕ → Bool) (events : ℕ → Event) (r n : ℕ) : State :=
  run (silentStep cfg old) (exec cfg events (r + 1)) (fun i => events (r + 1 + i)) n

/-- The relation of the run and the silent run: `D` are the readings that old queries have used. -/
structure State.Agree (cfg : Config) (old : ℕ → Bool) (D : ℕ → Prop) (s u : State) : Prop where
  clock : u.clock = s.clock
  transport : s.transport.Agree cfg D u.transport
  fresh : ∀ q, old q = false → u.queries q = s.queries q
  late : ∀ q, old q = true → (s.queries q).Late s.transport.gen ∧
    (u.queries q).Late s.transport.gen ∧ (s.queries q).Alike (u.queries q)

/-- The query that uses a reading of the clock at an event, and the reading. -/
def readingOf (s : State) : Event → Option (ℕ × ℕ)
  | .act q _ => (s.queries q).reading.map fun now => (q, now)
  | _ => none

theorem step_agree {old : ℕ → Bool} {D D' : ℕ → Prop} {s u : State} {event : Event}
    (h : s.Agree cfg old D u) (hD : ∀ now, D now → D' now)
    (ho : ∀ x ∈ readingOf s event, old x.1 = true → D' x.2)
    (hn : ∀ x ∈ readingOf s event, old x.1 = false → ∀ d, D d → d ≤ x.2) :
    (step cfg s event).Agree cfg old D' (silentStep cfg old u event) := by
  cases event with
  | tick d => exact ⟨congrArg (· + d) h.clock, h.transport.mono hD, h.fresh, h.late⟩
  | reset =>
    refine ⟨h.clock, h.transport.reset.mono hD, h.fresh, fun q hq => ?_⟩
    obtain ⟨hl, hl', ha⟩ := h.late q hq
    exact ⟨⟨hl.selected, fun g hg => Nat.lt_succ_of_lt (hl.before g hg)⟩,
      ⟨hl'.selected, fun g hg => Nat.lt_succ_of_lt (hl'.before g hg)⟩, ha⟩
  | act q ch =>
    have hgen := (s.queries q).exec_gen cfg s.clock ch s.transport
    by_cases hq : old q = true
    · obtain ⟨hl, hl', ha⟩ := h.late q hq
      obtain ⟨ha', hf⟩ := hl.exec_alike cfg hl' ha s.clock ch h.transport.election
      have hw := hl.exec_agree (h.transport.mono hD) s.clock ch fun now hnow =>
        ho (q, now) (by simpa [readingOf] using hnow) hq
      simp only [step, silentStep, hq, if_true, h.clock, hf]
      refine ⟨rfl, hw, fun x hx => ?_, fun x hx => ?_⟩
      · have hxq : x ≠ q := by
          rintro rfl
          exact absurd hq (by simp [hx])
        simpa [hxq] using h.fresh x hx
      · simp only [hgen]
        by_cases hxq : x = q
        · subst hxq
          simpa using ⟨hl.exec cfg s.clock ch s.transport,
            hl'.exec cfg s.clock ch u.transport, ha'⟩
        · simpa [hxq] using h.late x hx
    · have hq : old q = false := by simpa using hq
      obtain ⟨hqu, htr⟩ := (s.queries q).exec_agree h.transport s.clock ch
        fun now hnow => hn (q, now) (by simpa [readingOf] using hnow) hq
      simp only [step, silentStep, hq, h.clock, h.fresh q hq, hqu]
      refine ⟨rfl, htr.mono hD, fun x hx => ?_, fun x hx => ?_⟩
      · by_cases hxq : x = q
        · subst hxq
          simp
        · simpa [hxq] using h.fresh x hx
      · have hxq : x ≠ q := by
          rintro rfl
          exact absurd hx (by simp [hq])
        simpa [hxq, hgen] using h.late x hx

/-! ### The amnesty -/

/-- The queries that have selected their target before event `r`. -/
def inFlight (cfg : Config) (events : ℕ → Event) (r q : ℕ) : Bool :=
  ((exec cfg events r).queries q).selected

/-- After event `r` no other query uses a reading of the clock that is older than one that a query
in flight at event `r` has used before it. -/
def InOrder (cfg : Config) (events : ℕ → Event) (r : ℕ) : Prop :=
  ∀ i j, r < i → i < j → ∀ x ∈ readingOf (exec cfg events i) (events i),
    ∀ y ∈ readingOf (exec cfg events j) (events j),
      inFlight cfg events r x.1 = true → inFlight cfg events r y.1 = false → x.2 ≤ y.2

/-- The sticky target, the live errors and the live wins that a selection sees. -/
def Transport.observed (cfg : Config) (t : Transport) (now : ℕ) :
    String × (String → List ℕ) × (String → List ℕ) :=
  (t.current, fun tag => pruneTimes (t.records tag).errors cfg.errorTTL now,
    fun tag => pruneTimes (t.records tag).wins cfg.winTTL now)

theorem Transport.Agree.observed_eq {D : ℕ → Prop} {t u : Transport} (h : t.Agree cfg D u) {now : ℕ}
    (hnow : ∀ d, D d → d ≤ now) : u.observed cfg now = t.observed cfg now := by
  unfold observed
  rw [h.current]
  refine congrArg _ (Prod.ext (funext fun tag => ?_) (funext fun tag => ?_))
  · obtain ⟨p, he, hp⟩ := (h.records tag).errors
    simp only [he]
    refine pruneTimes_append fun time ht => ?_
    obtain ⟨-, d, hd, hexp⟩ := hp time ht
    exact hexp.trans (hnow d hd)
  · simp only [(h.records tag).wins]

/-- The readings that queries in flight at event `r` use in the next `n` events. -/
def used (cfg : Config) (events : ℕ → Event) (r n now : ℕ) : Prop :=
  ∃ i, r < i ∧ i < r + 1 + n ∧ ∃ x ∈ readingOf (exec cfg events i) (events i),
    inFlight cfg events r x.1 = true ∧ x.2 = now

theorem silentRun_agree {events : ℕ → Event} {r : ℕ} (hr : events r = .reset)
    (hord : InOrder cfg events r) (n : ℕ) :
    (exec cfg events (r + 1 + n)).Agree cfg (inFlight cfg events r) (used cfg events r n)
      (silentRun cfg (inFlight cfg events r) events r n) := by
  induction n with
  | zero =>
    refine ⟨rfl, .refl _, fun _ _ => rfl, fun q hq => ?_⟩
    have hl := exec_late cfg events r q hq
    have hrst : exec cfg events (r + 1) = step cfg (exec cfg events r) .reset := by
      rw [exec_succ, hr]
    have ha : ((exec cfg events (r + 1)).queries q).Late
        (exec cfg events (r + 1)).transport.gen := by
      rw [hrst]
      exact hl
    exact ⟨ha, ha, .inl rfl⟩
  | succ n ih =>
    have hstep : ∀ now, used cfg events r n now → used cfg events r (n + 1) now := by
      rintro now ⟨i, hri, hin, hu⟩
      exact ⟨i, hri, by omega, hu⟩
    refine step_agree ih hstep ?_ ?_
    · intro x hx ho
      exact ⟨r + 1 + n, by omega, by omega, x, hx, ho, rfl⟩
    · rintro y hy hn d ⟨i, hri, hin, x, hx, ho, rfl⟩
      exact hord i (r + 1 + n) hri hin x hx y hy ho hn

/-- The amnesty of `Reset` and the single flight of elections, for every run. At most one election
fan is in flight and the flag is set exactly while one is. After a reset the sticky target and the
queries that had not selected their target are, at every moment, as if those that had wrote nothing,
and so are the live records that each selection sees; no selection may use a reading of the clock
older than one that a query of before the reset has already pruned with. -/
theorem reset_amnesty (cfg : Config) (events : ℕ → Event) :
    (∀ n, (exec cfg events n).Elects) ∧
    ∀ r, events r = .reset → InOrder cfg events r → ∀ n,
      let s := exec cfg events (r + 1 + n)
      let silent := silentRun cfg (inFlight cfg events r) events r n
      s.transport.current = silent.transport.current ∧
        (∀ q, inFlight cfg events r q = false → s.queries q = silent.queries q) ∧
        ∀ q choice now, events (r + 1 + n) = .act q choice → s.queries q = .selecting now →
          s.transport.observed cfg now = silent.transport.observed cfg now := by
  refine ⟨exec_elects cfg events, fun r hr hor n => ?_⟩
  have ha := silentRun_agree hr hor n
  refine ⟨ha.transport.current.symm, fun q hq => (ha.fresh q hq).symm, ?_⟩
  intro q choice now hev hqu
  have hre : (q, now) ∈ readingOf (exec cfg events (r + 1 + n)) (events (r + 1 + n)) := by
    rw [hev]
    simp [readingOf, hqu, reading]
  have hn : inFlight cfg events r q = false := by
    by_contra ho
    have hl := (ha.late q (by simpa using ho)).1
    rw [hqu] at hl
    exact absurd hl.selected (by simp [selected])
  refine (ha.transport.observed_eq ?_).symm
  rintro d ⟨i, hri, hin, x, hx, ho, rfl⟩
  exact hor i (r + 1 + n) hri hin x hx (q, now) hre ho hn

/-- The two members and the lifetimes of the runs below. -/
def resetConfig : Config := { members := ["a", "b"], errorTTL := 10, winTTL := 10 }

/-- Nothing happens after the listed events. -/
def followed (events : List Event) (n : ℕ) : Event := events.getD n (.tick 0)

/-- Query 0 asks `a` before a reset and fails after it. In the meantime query 1 fails at `b`; query
0 drops the expired error, and query 2 is called. -/
def failures : List Event :=
  [.act 0 {}, .act 0 {}, .act 0 {}, .reset, .act 1 {}, .act 1 { random := 1 }, .act 1 {},
    .act 1 { failed := true }, .act 1 {}, .tick 10, .act 0 { failed := true }, .act 0 {}, .act 0 {},
    .act 0 {}, .act 2 {}, .act 2 {}]

private theorem readingOf_followed {events : List Event} {n : ℕ} (h : events.length ≤ n)
    (s : State) : readingOf s (followed events n) = none := by
  unfold followed
  rw [getD_eq_default _ _ h]
  rfl

private theorem inOrder_failures : InOrder resetConfig (followed failures) 3 := by
  intro i j hi hij x hx y hy ho hn
  by_cases hj : failures.length ≤ j
  · rw [readingOf_followed hj] at hy
    exact absurd hy (by simp)
  have hs : ∀ j < 16, ∀ i < j, 3 < i →
      ((readingOf (exec resetConfig (followed failures) i) (followed failures i)).all fun x =>
        (readingOf (exec resetConfig (followed failures) j) (followed failures j)).all fun y =>
          !inFlight resetConfig (followed failures) 3 x.1 ||
            inFlight resetConfig (followed failures) 3 y.1 || decide (x.2 ≤ y.2)) = true := by
    decide
  have hle := hs j (by simpa [failures] using hj) i hij hi
  rw [Option.mem_def.mp hx, Option.mem_def.mp hy] at hle
  simpa [ho, hn] using hle

theorem reset_amnesty_failures :
    (followed failures 3 = .reset ∧ InOrder resetConfig (followed failures) 3) ∧
      (exec resetConfig (followed failures) 15).transport.observed resetConfig 10 =
        (silentRun resetConfig (inFlight resetConfig (followed failures) 3) (followed failures) 3
          11).transport.observed resetConfig 10 :=
  ⟨⟨rfl, inOrder_failures⟩, ((reset_amnesty resetConfig (followed failures)).2 3 rfl
    inOrder_failures 11).2.2 2 {} 10 rfl (by decide)⟩

/-- The queries that have been called before event `r`. -/
def called (cfg : Config) (events : ℕ → Event) (r q : ℕ) : Bool :=
  decide ((exec cfg events r).queries q ≠ .idle)

/-- As `failures`, but query 2 reads the clock while the error of `b` is live, and selects after
query 0 has dropped it. -/
def staleReading : List Event :=
  [.act 0 {}, .act 0 {}, .act 0 {}, .reset, .act 1 {}, .act 1 { random := 1 }, .act 1 {},
    .act 1 { failed := true }, .act 1 {}, .act 2 {}, .tick 10, .act 0 { failed := true }, .act 0 {},
    .act 0 {}, .act 0 {}, .act 2 {}]

/-- Query 0 is called before a reset and selects after it. -/
def lateSelection : List Event := [.act 0 {}, .reset, .act 0 {}, .act 0 {}, .act 1 {}, .act 1 {}]

/-- Selections that see a write of a query called before the reset: a dropped error record, and the
sticky target. -/
theorem reset_observed_difference :
    (followed staleReading 3 = .reset ∧ followed staleReading 15 = .act 2 {} ∧
      (exec resetConfig (followed staleReading) 15).queries 2 = .selecting 0 ∧
      (exec resetConfig (followed staleReading) 15).transport.observed resetConfig 0 ≠
        (silentRun resetConfig (called resetConfig (followed staleReading) 3)
          (followed staleReading) 3 11).transport.observed resetConfig 0) ∧
    (followed lateSelection 1 = .reset ∧ followed lateSelection 5 = .act 1 {} ∧
      (exec resetConfig (followed lateSelection) 5).queries 1 = .selecting 0 ∧
      (exec resetConfig (followed lateSelection) 5).transport.observed resetConfig 0 ≠
        (silentRun resetConfig (called resetConfig (followed lateSelection) 1)
          (followed lateSelection) 1 3).transport.observed resetConfig 0) := by
  refine ⟨⟨rfl, rfl, by decide, fun h => ?_⟩, rfl, rfl, by decide, fun h => ?_⟩
  · have he := congrArg (fun o => o.2.1 "b") h
    revert he
    decide
  · have hc := congrArg Prod.fst h
    revert hc
    decide

end SingBox.DNS.Group
