import SingBox.Lxd.Controller

/-!
# What lxd says about the core

The records of the controller are true whenever no operation is in progress, the last-good file
holds a config that has started, and the daemon never boots from a candidate that was only staged;
all of this for every sequence of operations and crashes, and for all outcomes of the disk, the
validation, the hooks and the service.
-/

namespace SingBox.Lxd

open Foundation Option

variable {ν φ : Type} {configFacts : String → Option ν → φ}

/-- The boot config is the one its source has. -/
def BootsFrom (disk : Disk φ) (options : Options) (content : String) : Source → Prop
  | .configForce => options.configForce = some (some content)
  | .lastGood => disk.lastGood = some content
  | .seed => options.configPath = some (some content)

/-- The config that a boot is about to start. -/
def Booting (content : String) (options : Options) (source : Source) : Place φ → Prop
  | .gate c purpose => c = content ∧ purpose = .boot options source
  | .starting c _ purpose => c = content ∧ purpose = .boot options source
  | _ => False

/-- `running` and `activeContent` are those of the instance. -/
def Synced (s : State ν φ) : Prop :=
  (s.running = true ↔ s.inst.isSome = true) ∧
    ∀ content names, s.inst = some (content, names) → s.activeContent = content

/-- What holds in every state, if the first state directory has the given last-good. -/
structure Truthful (configFacts : String → Option ν → φ) (lastGood : Option String)
    (s : State ν φ) : Prop where
  /-- After every operation the records are true. -/
  synced : s.place = .idle → Synced s
  /-- Last-good has reached started, or is the operator's file. -/
  lastGood : ∀ content, s.disk.lastGood = some content →
    content ∈ s.reached ∨ lastGood = some content
  /-- The daemon boots from `--config-force`, last-good or the seed. -/
  boots : ∀ content options source, Booting content options source s.place →
    BootsFrom s.disk options content source
  /-- A rejected candidate changes nothing but the candidate file. -/
  rejected : s.place = .idle → ∀ content,
    step configFacts (step configFacts (step configFacts s (.apply content)) (.proceed true))
      (.proceed false) = { s with disk.candidate := some content }

/-- There is no core. -/
def NoCore (s : State ν φ) : Prop := s.inst = none ∧ s.running = false

/-- The records and the instance, by where the operation is. -/
def RecordsOk (s : State ν φ) : Prop :=
  match s.place with
  | .idle | .staging _ | .validating _ | .marking _ | .recording _ _ | .announcing _ _
  | .clearing | .loading | .stopping | .closing _ _ => Synced s
  | .gate _ _ | .ending _ _ _ | .removing _ | .down | .recovering _ | .unmarking _
  | .resolving _ => NoCore s
  | .intending content _ _ | .saving content _ _ =>
    (∃ names, s.inst = some (content, names)) ∧ content ∈ s.reached
  -- A swap is under way; the records are those of the core before it.
  | .starting _ _ _ => True
  | .falling _ _ => s.inst = none

variable {s : State ν φ}

theorem NoCore.synced (h : NoCore s) : Synced s := by
  refine ⟨?_, ?_⟩
  · rw [h.1, h.2]
    simp
  · intro content ns hi
    rw [h.1] at hi
    cases hi

variable {content : String}

theorem synced_setActive (h : ∃ ns, s.inst = some (content, ns)) :
    Synced (s.setActive content) := by
  obtain ⟨ns, hi⟩ := h
  refine ⟨?_, ?_⟩
  · simp [State.setActive, hi]
  · intro c' names' hi'
    have heq : some (content, ns) = some (c', names') := hi.symm.trans hi'
    simp only [some.injEq, Prod.mk.injEq] at heq
    exact heq.1

/-- The invariant. -/
structure Inv (lastGood : Option String) (s : State ν φ) : Prop where
  records : RecordsOk s
  lastGood : ∀ content, s.disk.lastGood = some content →
    content ∈ s.reached ∨ lastGood = some content
  boots : ∀ content options source, Booting content options source s.place →
    BootsFrom s.disk options content source

theorem Inv.truthful {lastGood : Option String} (h : Inv lastGood s) :
    Truthful configFacts lastGood s where
  synced := by
    intro hi
    have hr := h.records
    rwa [RecordsOk, hi] at hr
  lastGood := h.lastGood
  boots := h.boots
  rejected := by
    intro hi content
    obtain ⟨disk, inst, running, activeContent, interruptedApply, place, fired, reached⟩ := s
    obtain rfl : place = .idle := hi
    rfl

/-! ### Steps -/

section Steps

variable {lastGood : Option String} {s t : State ν φ}

section

variable (h : Inv lastGood s) (hlastGood : t.disk.lastGood = s.disk.lastGood)
  (hreached : t.reached = s.reached)

include h hlastGood hreached

theorem Inv.of_records (hpl : ∀ content options source, ¬ Booting content options source t.place)
    (hr : RecordsOk t) : Inv lastGood t where
  records := hr
  lastGood := by
    rw [hlastGood, hreached]
    exact h.lastGood
  boots := fun content options source hb =>
    absurd hb (hpl content options source)

theorem Inv.finish (hs : Synced t) (clear : Bool) : Inv lastGood (t.finish clear) := by
  cases clear <;> exact h.of_records hlastGood hreached (fun _ _ _ => id) hs

theorem Inv.announceFatal (hi : t.inst = none) (previous : Option φ) (failed : String)
    (clear : Bool) : Inv lastGood (t.announceFatal configFacts previous failed clear) :=
  h.of_records hlastGood hreached (fun _ _ _ => id) ⟨hi, rfl⟩

theorem Inv.enterStart (hs : Synced t) {pu : Purpose}
    (hp : ∀ options source, pu ≠ .boot options source) :
    Inv lastGood (t.enterStart configFacts content pu) := by
  rw [State.enterStart]
  cases hl : t.liveFacts configFacts with
  | none =>
    have hr : t.running = false := by
      rw [State.liveFacts] at hl
      simpa using hl
    have hin : t.inst = none := by
      have hi := hs.1
      rw [hr] at hi
      simpa using hi
    exact h.of_records hlastGood hreached
      (fun _ options source hb => hp options source hb.2) ⟨hin, hr⟩
  | some previous =>
    exact h.of_records hlastGood hreached
      (fun _ options source hb => hp options source hb.2) trivial

end

theorem bootsFrom_of_resolveBootConfig {disk : Disk φ} {options : Options} {rd : Bool}
    {source : Source} (h : resolveBootConfig disk options rd = some (content, source)) :
    BootsFrom disk options content source := by
  rw [resolveBootConfig] at h
  cases hf : options.configForce with
  | some forced =>
    rw [hf] at h
    obtain ⟨c', rfl, heq⟩ := map_eq_some_iff.mp h
    simp only [Prod.mk.injEq] at heq
    obtain ⟨rfl, rfl⟩ := heq
    exact hf
  | none =>
    rw [hf] at h
    simp only at h
    split at h
    · rename_i c' hr
      simp only [some.injEq, Prod.mk.injEq] at h
      obtain ⟨rfl, rfl⟩ := h
      cases rd <;> simp_all [BootsFrom]
    · obtain ⟨c', hj, heq⟩ := map_eq_some_iff.mp h
      simp only [Prod.mk.injEq] at heq
      obtain ⟨rfl, rfl⟩ := heq
      exact join_eq_some_iff.mp hj

theorem Inv.afterStart (h : Inv lastGood s) {previous : Option φ} {pu : Purpose}
    (ns : Option ν) :
    Inv lastGood (afterStart configFacts s content previous pu ns) := by
  cases ns with
  | some ns =>
    refine ⟨⟨⟨ns, rfl⟩, List.mem_cons_self⟩, ?_, fun _ _ _ => False.elim⟩
    intro good hg
    exact (h.lastGood good hg).imp_left (List.mem_cons_of_mem content)
  | none =>
    cases pu with
    | apply => exact h.of_records rfl rfl (fun _ _ _ => id) rfl
    | fallback | rollback | boot =>
      exact h.announceFatal (t := { s with inst := none }) rfl rfl rfl _ _ _

theorem Inv.proceed (h : Inv lastGood s) (ok : Bool) {place : Place φ} (hpl : s.place = place) :
    Inv lastGood (proceed configFacts s ok place) := by
  have hr := h.records
  rw [RecordsOk, hpl] at hr
  have hsm : Inv lastGood (s.goto place) := by
    rw [State.goto, ← hpl]
    exact h
  cases place
  case down | idle | starting => exact hsm
  case marking content =>
    cases ok with
    | true =>
      exact h.enterStart (t := { s with disk.pending := true }) rfl rfl hr
        (fun _ _ => by simp)
    | false => exact h.of_records rfl rfl (fun _ _ _ => id) hr
  case gate content pu =>
    cases ok with
    | true =>
      refine ⟨trivial, h.lastGood, fun c' options source hb => ?_⟩
      exact h.boots c' options source (by rw [hpl]; exact hb)
    | false =>
      have hn : NoCore (s.fire (.preStart false)).setInactive := ⟨hr.1, rfl⟩
      exact h.finish (t := (s.fire (.preStart false)).setInactive) rfl rfl hn.synced _
  case falling content previous =>
    simp only [Lxd.proceed]
    split
    · split_ifs
      · exact h.announceFatal rfl rfl hr _ _ _
      · exact h.of_records rfl rfl (fun _ _ _ hb => by cases hb.2) trivial
    · exact h.announceFatal rfl rfl hr _ _ _
  case intending content previous pu =>
    cases hsa : pu.saves <;> simp only [Lxd.proceed, hsa] <;> cases ok
    iterate 2 exact h.of_records rfl rfl (fun _ _ _ => id) (synced_setActive hr.1)
    all_goals exact h.of_records rfl rfl (fun _ _ _ => id) hr
  case saving content previous pu =>
    cases ok with
    | true =>
      refine ⟨synced_setActive hr.1, ?_, fun _ _ _ => False.elim⟩
      intro good hg
      exact Or.inl (some.inj hg ▸ hr.2)
    | false => exact h.of_records rfl rfl (fun _ _ _ => id) (synced_setActive hr.1)
  case announcing previous clear =>
    simp only [Lxd.proceed]
    split
    · exact h.finish (t := s.fire _) rfl rfl hr clear
    · exact h.finish (t := s.fire _) rfl rfl hr clear
    · exact h.finish rfl rfl hr clear
  case removing after =>
    have hs := NoCore.synced hr
    cases ok <;> cases after with
    | finish clear =>
      first
      | exact h.finish (t := { s with disk.snapshot := none }) rfl rfl hs clear
      | exact h.finish rfl rfl hs clear
    | boot options => exact h.of_records rfl rfl (fun _ _ _ => id) hr
    | exit => exact h.of_records rfl rfl (fun _ _ _ => id) ⟨rfl, hr.2⟩
  case loading =>
    simp only [Lxd.proceed]
    split
    · exact h.of_records rfl rfl (fun _ _ _ => id) hr
    · exact h.enterStart rfl rfl hr (fun _ _ => by simp)
  case closing previous shutdown =>
    have hn : NoCore (({ s with inst := none } : State ν φ).setInactive) := ⟨rfl, rfl⟩
    rcases previous with _ | previous <;> cases shutdown
    · exact h.of_records rfl rfl (fun _ _ _ => id) hn.synced
    all_goals exact h.of_records rfl rfl (fun _ _ _ => id) hn
  case resolving options =>
    simp only [Lxd.proceed]
    split
    · exact h.of_records rfl rfl (fun _ _ _ => id) (NoCore.synced hr)
    · rename_i content source hre
      split_ifs
      · exact h.of_records rfl rfl (fun _ _ _ => id) (NoCore.synced hr)
      · refine ⟨hr, h.lastGood, ?_⟩
        rintro c' o' source' ⟨rfl, heq⟩
        cases heq
        exact bootsFrom_of_resolveBootConfig hre
  case recovering options =>
    simp only [Lxd.proceed]
    split <;> exact h.of_records rfl rfl (fun _ _ _ => id) hr
  -- the other steps leave the records as they are
  all_goals cases ok <;> exact h.of_records rfl rfl (fun _ _ _ => id) hr

theorem Inv.step (h : Inv lastGood s) (event : Event ν) :
    Inv lastGood (step configFacts s event) := by
  have hr := h.records
  unfold Lxd.step
  split
  case h_1 | h_11 => exact h
  case h_2 => exact h.of_records rfl rfl (fun _ _ _ => id) ⟨rfl, rfl⟩
  case h_8 => exact h.afterStart _
  case h_9 hpl =>
    refine ⟨?_, h.lastGood, h.boots⟩
    rw [RecordsOk, hpl]
    trivial
  case h_10 => exact h.proceed _ rfl
  -- an operation begins
  all_goals
    rename_i hpl
    rw [RecordsOk, hpl] at hr
    exact h.of_records rfl rfl (fun _ _ _ => id) hr

end Steps

/-- For every sequence of operations and crashes, with all outcomes. -/
theorem run_truthful (configFacts : String → Option ν → φ) (lastGood : Option String)
    (wasRunning : Option Bool) (events : ℕ → Event ν) (n : ℕ) : Truthful configFacts lastGood
      (run (step configFacts) (initial lastGood wasRunning) events n) := by
  refine Inv.truthful (run_invariant (P := fun s : State ν φ => Inv lastGood s) ?_
    (fun s ev h => h.step ev) n)
  exact ⟨⟨rfl, rfl⟩, fun content hc => Or.inr hc, fun _ _ _ => False.elim⟩

end SingBox.Lxd
