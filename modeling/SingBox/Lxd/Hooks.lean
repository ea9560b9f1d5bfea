import SingBox.Lxd.Controller

/-!
# The language of the lifecycle hooks

The hooks that are fired announce every core: `pre_start` comes only when no core is announced, is
answered by one `post_start` or `post_stop`, and so on. After a crash the next boot fires the
missing `post_stop` with the facts of the snapshot. The snapshot is written before the hook it
belongs to, so that a crash between the two leaves the facts of a core that was not announced.
-/

namespace SingBox.Lxd

open Foundation

variable {ν φ : Type}

/-- What the hooks fired so far have announced. -/
structure Announced (φ : Type) where
  /-- The facts of the core that is announced. -/
  core : Option φ
  /-- A `pre_start` has passed and is not answered. -/
  owed : Bool
  /-- The facts of an announcement that a crash has cut off. -/
  cutOff : Option φ
deriving DecidableEq, Repr

/-- One more hook. -/
def Announced.next (a : Announced φ) : Hook φ → Announced φ
  | .preStart passed => { a with owed := passed }
  | .postStart current => ⟨some current, false, none⟩
  | .postReload current _ => ⟨some current, a.owed, none⟩
  | .postStop _ _ => ⟨none, false, none⟩
  -- A crash answers what is owed.
  | .crash cutOff => ⟨a.core, false, cutOff.or a.cutOff⟩

/-- What a list of hooks has announced, the last first. -/
def announced : List (Hook φ) → Announced φ
  | [] => ⟨none, false, none⟩
  | hook :: hooks => (announced hooks).next hook

/-- The hooks that may follow. -/
def Allowed (exact : Bool) (a : Announced φ) : Hook φ → Prop
  | .preStart _ => a.core = none ∧ a.owed = false
  | .postStart _ => a.core = none ∧ a.owed = true
  | .postReload _ previous => a.core = some previous
  -- A fatal end is that of the announced core, or the answer to a `pre_start`.
  | .postStop .fatal previous => a.core = some previous ∨ a.core = none ∧ a.owed = true
  | .postStop .stop previous => a.core = some previous
  | .postStop .shutdown previous => a.core = some previous
  | .postStop .recover previous =>
    a.core = none ∨ a.core = some previous ∨ exact = false ∧ a.cutOff = some previous
  | .crash _ => True

/-- The language of the hooks. -/
def Lawful (exact : Bool) : List (Hook φ) → Prop
  | [] => True
  | hook :: hooks => Allowed exact (announced hooks) hook ∧ Lawful exact hooks

/-- The snapshot can be written and read. -/
def KeepsSnapshot (s : State ν φ) : Event ν → Prop
  | .proceed ok =>
    match s.place with
    | .recording _ _ | .recovering _ => ok = true
    | _ => True
  | _ => True

variable (configFacts : String → Option ν → φ)

/-- The snapshot has the facts of the announced core, or of the announcement that was cut off. -/
def SnapshotOk (s : State ν φ) : Prop :=
  ∀ facts, (announced s.fired).core = some facts →
    s.disk.snapshot = some facts ∨
      ∃ cut, s.disk.snapshot = some cut ∧ (announced s.fired).cutOff = some cut

/-- While the process runs, the snapshot has the facts of the announced core. -/
def SnapshotExact (s : State ν φ) : Prop :=
  ∀ facts, (announced s.fired).core = some facts → s.disk.snapshot = some facts

/-- What is announced during a start, with the facts of the core before it. -/
def Swapping (s : State ν φ) (previous : Option φ) : Prop :=
  (announced s.fired).core = previous ∧ (announced s.fired).owed = previous.isNone

/-- What is announced, by where the operation is. -/
def AnnouncedOk (s : State ν φ) : Prop :=
  match s.place with
  | .idle | .staging _ | .validating _ | .marking _ | .clearing | .loading | .stopping =>
    (announced s.fired).core = s.liveFacts configFacts ∧ (announced s.fired).owed = false ∧
      SnapshotExact s
  | .closing previous _ =>
    (announced s.fired).core = previous ∧ (announced s.fired).owed = false ∧ SnapshotExact s
  | .gate _ _ | .unmarking _ | .resolving _ | .removing _ =>
    (announced s.fired).core = none ∧ (announced s.fired).owed = false ∧ s.running = false
  | .starting _ previous _ | .falling _ previous => Swapping s previous ∧ SnapshotExact s
  | .intending content previous _ | .saving content previous _ =>
    Swapping s previous ∧ SnapshotExact s ∧ ∃ names, s.inst = some (content, names)
  | .recording previous _ => Swapping s previous ∧ SnapshotExact s ∧ s.running = true
  | .announcing previous _ =>
    Swapping s previous ∧ s.running = true ∧ s.disk.snapshot = s.liveFacts configFacts
  | .ending reason previous _ =>
    Allowed false (announced s.fired) (.postStop reason previous) ∧ SnapshotOk s ∧
      s.running = false
  | .down | .recovering _ =>
    (announced s.fired).owed = false ∧ SnapshotOk s ∧ s.running = false

/-- The invariant. -/
structure HooksInv (s : State ν φ) : Prop where
  lawful : Lawful false s.fired
  place : AnnouncedOk configFacts s

/-! ### Steps -/

section Steps

variable {configFacts} {s t : State ν φ}

theorem liveFacts_eq_none_iff : s.liveFacts configFacts = none ↔ s.running = false := by
  rw [State.liveFacts]
  cases s.running <;> simp

theorem liveFacts_of_running (configFacts : String → Option ν → φ) (h : s.running) :
    ∃ facts, s.liveFacts configFacts = some facts :=
  ⟨_, if_pos h⟩

theorem SnapshotExact.snapshotOk (h : SnapshotExact s) : SnapshotOk s :=
  fun facts hf => .inl (h facts hf)

theorem snapshotExact_of_core_eq_none (h : (announced s.fired).core = none) : SnapshotExact s := by
  intro facts hf
  rw [h] at hf
  cases hf

theorem snapshotOk_of_core_eq_none (h : (announced s.fired).core = none) : SnapshotOk s :=
  (snapshotExact_of_core_eq_none h).snapshotOk

theorem HooksInv.of_fired_eq (h : HooksInv configFacts s) (hf : t.fired = s.fired)
    (hpl : AnnouncedOk configFacts t) : HooksInv configFacts t :=
  ⟨hf ▸ h.lawful, hpl⟩

theorem HooksInv.of_fire (h : HooksInv configFacts s) (hook : Hook φ)
    (hf : t.fired = hook :: s.fired) (ha : Allowed false (announced s.fired) hook)
    (hpl : AnnouncedOk configFacts t) : HooksInv configFacts t := by
  refine ⟨?_, hpl⟩
  rw [hf]
  exact ⟨ha, h.lawful⟩

theorem announcedOk_finish {clear : Bool}
    (h : (announced s.fired).core = s.liveFacts configFacts ∧ (announced s.fired).owed = false ∧
      SnapshotExact s) : AnnouncedOk configFacts (s.finish clear) := by
  cases clear <;> exact h

theorem announcedOk_finish_of_none (clear : Bool) (hc : (announced s.fired).core = none)
    (ho : (announced s.fired).owed = false) (hr : s.running = false) :
    AnnouncedOk configFacts (s.finish clear) :=
  announcedOk_finish ⟨hc.trans (liveFacts_eq_none_iff.mpr hr).symm, ho,
    snapshotExact_of_core_eq_none hc⟩

variable {previous : Option φ} {purpose : Purpose} {content : String}

theorem announcedOk_announceFatal (hs : Swapping s previous) (hsn : SnapshotExact s)
    (failed : String) (clear : Bool) :
    AnnouncedOk configFacts (s.announceFatal configFacts previous failed clear) := by
  refine ⟨?_, hsn.snapshotOk, rfl⟩
  cases previous with
  | none => exact .inr hs
  | some facts => exact .inl hs.1

theorem announcedOk_enterStart (hc : (announced s.fired).core = s.liveFacts configFacts)
    (ho : (announced s.fired).owed = false) (hs : SnapshotExact s) :
    AnnouncedOk configFacts (s.enterStart configFacts content purpose) := by
  rw [State.enterStart]
  cases hl : s.liveFacts configFacts with
  | none => exact ⟨hc.trans hl, ho, liveFacts_eq_none_iff.mp hl⟩
  | some previous => exact ⟨⟨hc.trans hl, ho⟩, hs⟩

section

variable (h : HooksInv configFacts s)

include h

theorem HooksInv.enterStart (hf : t.fired = s.fired)
    (hc : (announced t.fired).core = t.liveFacts configFacts)
    (ho : (announced t.fired).owed = false) (hs : SnapshotExact t) :
    HooksInv configFacts (t.enterStart configFacts content purpose) := by
  refine h.of_fired_eq ?_ (announcedOk_enterStart hc ho hs)
  rw [State.enterStart]
  cases t.liveFacts configFacts <;> exact hf

theorem HooksInv.afterStart (hpl : s.place = .starting content previous purpose)
    (ns : Option ν) :
    HooksInv configFacts (afterStart configFacts s content previous purpose ns) := by
  have ha := h.place
  rw [AnnouncedOk, hpl] at ha
  obtain ⟨hsw, hs⟩ := ha
  cases ns with
  | some ns => exact h.of_fired_eq rfl ⟨hsw, hs, ns, rfl⟩
  | none =>
    cases purpose with
    | apply => exact h.of_fired_eq rfl ⟨hsw, hs⟩
    | fallback | rollback | boot =>
      exact h.of_fired_eq rfl
        (announcedOk_announceFatal (s := { s with inst := none }) hsw hs _ _)

theorem HooksInv.announcing {clear : Bool} (hpl : s.place = .announcing previous clear)
    (ok : Bool) : HooksInv configFacts (proceed configFacts s ok (.announcing previous clear)) := by
  have ha := h.place
  rw [AnnouncedOk, hpl] at ha
  obtain ⟨⟨hc, ho⟩, hr, hs⟩ := ha
  obtain ⟨current, hl⟩ := liveFacts_of_running configFacts hr
  have hex : ∀ facts, some current = some facts → s.disk.snapshot = some facts := by
    intro facts hf
    rw [hs, hl, hf]
  cases previous with
  | none =>
    simp only [proceed, hl]
    exact h.of_fire (.postStart current) (by cases clear <;> rfl) ⟨hc, ho⟩
      (announcedOk_finish (s := s.fire (.postStart current)) ⟨hl.symm, rfl, hex⟩)
  | some previous =>
    simp only [proceed, hl]
    exact h.of_fire (.postReload current previous) (by cases clear <;> rfl) hc
      (announcedOk_finish (s := s.fire (.postReload current previous))
        ⟨hl.symm, ho, hex⟩)

theorem HooksInv.proceed {ok : Bool} {place : Place φ} (hpl : s.place = place)
    (hsn : KeepsSnapshot s (.proceed ok)) :
    HooksInv configFacts (proceed configFacts s ok place) := by
  have ha := h.place
  rw [AnnouncedOk, hpl] at ha
  have hsm : HooksInv configFacts (s.goto place) := by
    rw [State.goto, ← hpl]
    exact h
  cases place with
  | down | idle | starting => exact hsm
  | staging | validating | clearing | stopping => cases ok <;> exact h.of_fired_eq rfl ha
  | marking content =>
    cases ok with
    | true =>
      exact h.enterStart (t := { s with disk.pending := true }) rfl ha.1 ha.2.1
        ha.2.2
    | false => exact h.of_fired_eq rfl ha
  | gate content purpose =>
    obtain ⟨hc, ho, hr⟩ := ha
    cases ok with
    | true =>
      exact h.of_fire (.preStart true) rfl ⟨hc, ho⟩
        ⟨⟨hc, rfl⟩, snapshotExact_of_core_eq_none hc⟩
    | false =>
      refine h.of_fire (t := ((s.fire (.preStart false)).setInactive).finish purpose.clears)
        (.preStart false) (by cases purpose.clears <;> rfl) ⟨hc, ho⟩ ?_
      exact announcedOk_finish_of_none _ hc rfl rfl
  | falling content previous =>
    simp only [Lxd.proceed]
    split
    · split_ifs
      · exact h.of_fired_eq rfl (announcedOk_announceFatal ha.1 ha.2 _ _)
      · exact h.of_fired_eq rfl ha
    · exact h.of_fired_eq rfl (announcedOk_announceFatal ha.1 ha.2 _ _)
  | intending content previous purpose =>
    obtain ⟨hs, hex, hi⟩ := ha
    cases hsa : purpose.saves <;> simp only [Lxd.proceed, hsa] <;> cases ok
    iterate 2 exact h.of_fired_eq rfl ⟨hs, hex, rfl⟩
    all_goals exact h.of_fired_eq rfl ⟨hs, hex, hi⟩
  | saving content previous purpose =>
    obtain ⟨hs, hex, hi⟩ := ha
    cases ok <;> exact h.of_fired_eq rfl ⟨hs, hex, rfl⟩
  | recording previous clear =>
    obtain ⟨hs, hex, hr⟩ := ha
    obtain rfl : ok = true := by simpa only [KeepsSnapshot, hpl] using hsn
    exact h.of_fired_eq rfl ⟨hs, hr, rfl⟩
  | announcing previous clear => exact h.announcing hpl ok
  | ending reason previous after =>
    exact h.of_fire (.postStop reason previous) rfl ha.1 ⟨rfl, rfl, ha.2.2⟩
  | removing after =>
    obtain ⟨hc, ho, hr⟩ := ha
    have hn := snapshotOk_of_core_eq_none hc
    cases after with
    | finish clear =>
      cases ok with
      | true =>
        exact h.of_fired_eq (by cases clear <;> rfl)
          (announcedOk_finish_of_none (s := { s with disk.snapshot := none }) clear hc ho
            hr)
      | false =>
        exact h.of_fired_eq (by cases clear <;> rfl)
          (announcedOk_finish_of_none clear hc ho hr)
    | boot options => cases ok <;> exact h.of_fired_eq rfl ⟨hc, ho, hr⟩
    | exit =>
      cases ok with
      | true =>
        exact h.of_fired_eq rfl ⟨ho,
          snapshotOk_of_core_eq_none (s := { s with disk.snapshot := none }) hc, hr⟩
      | false => exact h.of_fired_eq rfl ⟨ho, hn, hr⟩
  | loading =>
    simp only [Lxd.proceed]
    split
    · exact h.of_fired_eq rfl ha
    · exact h.enterStart rfl ha.1 ha.2.1 ha.2.2
  | closing previous shutdown =>
    obtain ⟨hc, ho, hex⟩ := ha
    cases previous with
    | none =>
      cases shutdown with
      | true => exact h.of_fired_eq rfl ⟨ho, snapshotOk_of_core_eq_none hc, rfl⟩
      | false =>
        exact h.of_fired_eq rfl ⟨hc, ho, snapshotExact_of_core_eq_none hc⟩
    | some previous =>
      cases shutdown <;> exact h.of_fired_eq rfl ⟨hc, hex.snapshotOk, rfl⟩
  | recovering options =>
    obtain ⟨ho, hok, hr⟩ := ha
    obtain rfl : ok = true := by simpa only [KeepsSnapshot, hpl] using hsn
    simp only [Lxd.proceed, if_true]
    cases hre : s.disk.snapshot with
    | none =>
      have hc : (announced s.fired).core = none := by
        refine Option.eq_none_iff_forall_ne_some.mpr fun facts hf => ?_
        rcases hok facts hf with heq | ⟨cut, heq, -⟩ <;> rw [hre] at heq <;> cases heq
      exact h.of_fired_eq rfl ⟨hc, ho, hr⟩
    | some previous =>
      refine h.of_fired_eq rfl ⟨?_, hok, hr⟩
      cases hc : (announced s.fired).core with
      | none => exact .inl hc
      | some facts =>
        rcases hok facts hc with heq | ⟨cut, heq, hcut⟩
        · obtain rfl : facts = previous := Option.some.inj (heq.symm.trans hre)
          exact .inr (.inl hc)
        · obtain rfl : cut = previous := Option.some.inj (heq.symm.trans hre)
          exact .inr (.inr ⟨rfl, hcut⟩)
  | unmarking options => exact h.of_fired_eq rfl ha
  | resolving options =>
    obtain ⟨hc, ho, hr⟩ := ha
    have hid : AnnouncedOk configFacts (s.goto .idle) :=
      announcedOk_finish_of_none false hc ho hr
    simp only [Lxd.proceed]
    split
    · exact h.of_fired_eq rfl hid
    · split_ifs
      · exact h.of_fired_eq rfl hid
      · exact h.of_fired_eq rfl ⟨hc, ho, hr⟩

end

/-- A crash leaves a snapshot from which the next boot can tell what ended. -/
theorem AnnouncedOk.crash (h : AnnouncedOk configFacts s) {facts : φ}
    (hc : (announced s.fired).core = some facts) :
    s.disk.snapshot = some facts ∨ ∃ cut, s.disk.snapshot = some cut ∧
      (s.cutOff configFacts).or (announced s.fired).cutOff = some cut := by
  have hor : SnapshotOk s → s.cutOff configFacts = none → s.disk.snapshot = some facts ∨
      ∃ cut, s.disk.snapshot = some cut ∧
        (s.cutOff configFacts).or (announced s.fired).cutOff = some cut := by
    intro hok hcut
    rw [hcut, Option.none_or]
    exact hok facts hc
  rw [AnnouncedOk] at h
  rw [State.cutOff] at hor ⊢
  cases hpl : s.place with
  | announcing previous clear =>
    rw [hpl] at h
    obtain ⟨-, hr, hs⟩ := h
    obtain ⟨current, hl⟩ := liveFacts_of_running configFacts hr
    exact .inr ⟨current, hs.trans hl, by simp [hl]⟩
  | idle | staging | validating | marking | clearing | loading | stopping | closing =>
    rw [hpl] at h hor
    exact hor h.2.2.snapshotOk rfl
  | gate | unmarking | resolving | removing =>
    rw [hpl] at h
    exact absurd (h.1.symm.trans hc) (by simp)
  | starting | falling =>
    rw [hpl] at h hor
    exact hor h.2.snapshotOk rfl
  | intending | saving | recording =>
    rw [hpl] at h hor
    exact hor h.2.1.snapshotOk rfl
  | ending | down | recovering =>
    rw [hpl] at h hor
    exact hor h.2.1 rfl

theorem HooksInv.step (h : HooksInv configFacts s) {event : Event ν}
    (hs : KeepsSnapshot s event) : HooksInv configFacts (step configFacts s event) := by
  have ha := h.place
  unfold Lxd.step
  split
  case h_1 | h_11 => exact h
  case h_2 => exact h.of_fire (.crash _) rfl trivial ⟨rfl, fun _ => ha.crash, rfl⟩
  case h_8 hpl => exact h.afterStart hpl _
  case h_9 hpl =>
    rw [AnnouncedOk, hpl] at ha
    refine h.of_fired_eq rfl ?_
    rw [AnnouncedOk, hpl]
    exact ha
  case h_10 => exact h.proceed rfl hs
  -- an operation begins
  all_goals
    rename_i hpl
    rw [AnnouncedOk, hpl] at ha
    exact h.of_fired_eq rfl ha

end Steps

/-- For every sequence of operations and crashes in which the snapshot can be written and read, the
hooks are in the language: `pre_start` comes only when no core is announced and is answered once,
`post_reload` only for an announced core, two `post_start` have a `post_stop` between them, and a
`post_stop` that ends an announced core has its facts, or, after a crash between the snapshot and
its hook, the facts of the snapshot. -/
theorem run_lawful (configFacts : String → Option ν → φ) (lastGood : Option String)
    (wasRunning : Option Bool) (events : ℕ → Event ν)
    (hsnapshot : ∀ n, KeepsSnapshot
      (run (step configFacts) (initial lastGood wasRunning) events n) (events n)) (n : ℕ) :
    Lawful false (run (step configFacts) (initial lastGood wasRunning) events n).fired := by
  suffices hi : HooksInv configFacts
      (run (step configFacts) (initial lastGood wasRunning) events n) from hi.lawful
  induction n with
  | zero =>
    refine ⟨trivial, rfl, ?_, rfl⟩
    exact snapshotOk_of_core_eq_none (s := initial lastGood wasRunning) rfl
  | succ n ih =>
    rw [run_succ]
    exact ih.step (hsnapshot n)

/-! ### A crash between the snapshot and its hook -/

/-- Facts that are the content of the config. -/
def contentFacts (content : String) (_ : Option Unit) : String := content

/-- The daemon boots from a seed, applies another config, and crashes before `post_reload`, with the
snapshot written. The next boot recovers. -/
def cutOffEvents : List (Event Unit) :=
  [.boot ⟨none, some (some "a"), false⟩, .proceed true, .proceed true, .proceed true, .proceed true,
    .started (some ()), .proceed true, .proceed true, .proceed true, .proceed true,
    .apply "b", .proceed true, .proceed true, .proceed true, .started (some ()), .proceed true,
    .proceed true, .proceed true, .crash, .boot ⟨none, some (some "a"), false⟩, .proceed true,
    .proceed true]

theorem run_lawful_example :
    Lawful false (run (step contentFacts) (initial none none)
        (fun n => cutOffEvents.getD n .crash) 22).fired ∧
      (run (step contentFacts) (initial none none)
        (fun n => cutOffEvents.getD n .crash) 22).fired.length = 4 := by
  refine ⟨run_lawful contentFacts none none _ ?_ 22, by decide +kernel⟩
  refine forall_getD _ _ (fun n hn => ?_) fun _ => trivial
  have ha : ∀ n < 22, ∀ ok, cutOffEvents.getD n .crash = .proceed ok → ok = true := by
    decide +kernel
  generalize hev : cutOffEvents.getD n .crash = ev
  cases ev with
  | proceed ok =>
    rw [KeepsSnapshot]
    split <;> first | exact ha n hn ok hev | trivial
  | _ => trivial

/-- The core that `post_stop` ends was announced with the facts `a`, and the hook is given `b`. -/
theorem recovers_unannounced_facts :
    (run (step contentFacts) (initial none none) (fun n => cutOffEvents.getD n .crash) 22).fired =
        [.postStop .recover "b", .crash (some "b"), .postStart "a", .preStart true] ∧
      ¬ Lawful true (run (step contentFacts) (initial none none)
        (fun n => cutOffEvents.getD n .crash) 22).fired := by
  have hf : (run (step contentFacts) (initial none none)
      (fun n => cutOffEvents.getD n .crash) 22).fired =
        [.postStop .recover "b", .crash (some "b"), .postStart "a", .preStart true] := by
    decide +kernel
  refine ⟨hf, ?_⟩
  rw [hf]
  rintro ⟨h, -⟩
  simp [Allowed, announced, Announced.next] at h

end SingBox.Lxd
