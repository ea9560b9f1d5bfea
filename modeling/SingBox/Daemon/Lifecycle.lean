import SingBox.Foundation.Calls
import SingBox.Foundation.Run

/-!
# The lifecycle of the daemon's service

`StartOrReloadService` and `CloseService` run one at a time under `lifecycleAccess`; each of their
sections under `serviceAccess` is one step. Before a call waits for the lifecycle lock it interrupts
a start in progress: if an instance is published and not yet started, it sets `startInterrupted`.
The start then closes its instance and leaves the status to the call that has interrupted it.

Instances are numbered in the order in which they are built. Every status is recorded as it is
emitted.
-/

namespace SingBox.Daemon

open Foundation List

/-- `ServiceStatus_Type`. -/
inductive Status
  | idle
  | starting
  | started
  | stopping
  | fatal
deriving DecidableEq, Repr

/-- The two calls. -/
inductive CallKind
  | startOrReloadService
  | closeService
deriving DecidableEq, Repr

/-- A call that does not have the lifecycle lock yet. -/
structure Waiting where
  kind : CallKind
  /-- It has passed `interruptStart`. -/
  passed : Bool
deriving DecidableEq, Repr

/-- The next step of the call that has the lifecycle lock. -/
inductive Phase
  | startTake
  | startClose (old : ℕ)
  | startBegin
  | build
  | buildFailed
  | publish (instance_ : ℕ)
  | startInstance (instance_ : ℕ)
  | finish (instance_ : ℕ) (ok : Bool)
  | closeFailed (instance_ : ℕ)
  | closeTake
  | closeOld (old : Option ℕ)
  | closeIdle
deriving DecidableEq, Repr

/-- The first step of a call. -/
def CallKind.first : CallKind → Phase
  | .startOrReloadService => .startTake
  | .closeService => .closeTake

/-- The service, its calls in progress, and what has happened to the instances. -/
structure Service where
  status : Status
  instance_ : Option ℕ
  startInterrupted : Bool
  /-- The instance that was current when `startInterrupted` was set. -/
  meantFor : Option ℕ
  holder : Option Phase
  waiting : List Waiting
  /-- The number of instances that were built. -/
  built : ℕ
  closed : List ℕ
  /-- The instances that have started successfully. -/
  succeeded : List ℕ
  /-- The instances whose start was interrupted, and for which one the interruption was meant. -/
  ended : List (ℕ × Option ℕ)
  emitted : List Status
deriving DecidableEq, Repr

def Service.initial : Service := ⟨.idle, none, false, none, none, [], 0, [], [], [], []⟩

/-- What can happen next. -/
inductive Event
  | call (kind : CallKind)
  /-- The call at a place runs `interruptStart`. -/
  | interruptStart (i : ℕ)
  /-- The call at a place gets the lifecycle lock. -/
  | acquire (i : ℕ)
  /-- The call that has the lock goes on; `ok` is the outcome of building or starting. -/
  | advance (ok : Bool)
deriving DecidableEq, Repr

/-- `updateStatus` and `updateStatusError`. -/
def Service.updateStatus (s : Service) (newStatus : Status) : Service :=
  { s with status := newStatus, emitted := s.emitted ++ [newStatus] }

def Service.interruptStart (s : Service) : Service :=
  if s.status = .starting ∧ s.instance_ ≠ none then
    { s with startInterrupted := true, meantFor := s.instance_ }
  else s

/-- The section of `StartOrReloadService` that begins a start. -/
def Service.beginStart (s : Service) : Service :=
  { s.updateStatus .starting with startInterrupted := false, holder := some .build }

/-- One step of the call that has the lifecycle lock. -/
def Service.advance (s : Service) (ok : Bool) : Phase → Service
  | .startTake =>
    match s.instance_ with
    | some old =>
      { s.updateStatus .stopping with instance_ := none, holder := some (.startClose old) }
    | none => s.beginStart
  | .startClose old => { s with closed := s.closed ++ [old], holder := some .startBegin }
  | .startBegin => s.beginStart
  | .build =>
    if ok then { s with built := s.built + 1, holder := some (.publish s.built) }
    else { s with holder := some .buildFailed }
  | .buildFailed => { s.updateStatus .fatal with holder := none }
  | .publish i => { s with instance_ := some i, holder := some (.startInstance i) }
  | .startInstance i => { s with holder := some (.finish i ok) }
  | .finish i started =>
    if s.startInterrupted then
      { s with
        startInterrupted := false
        instance_ := none
        ended := s.ended ++ [(i, s.meantFor)]
        holder := some (.closeFailed i) }
    else if started then
      { s.updateStatus .started with succeeded := s.succeeded ++ [i], holder := none }
    else { s.updateStatus .fatal with instance_ := none, holder := some (.closeFailed i) }
  | .closeFailed i => { s with closed := s.closed ++ [i], holder := none }
  | .closeTake =>
    if s.instance_ = none ∧ s.status ≠ .starting ∧ s.status ≠ .started then
      { s with holder := none }
    else
      { s.updateStatus .stopping with instance_ := none, holder := some (.closeOld s.instance_) }
  | .closeOld old => { s with closed := s.closed ++ old.toList, holder := some .closeIdle }
  | .closeIdle => { s.updateStatus .idle with holder := none }

/-- One event. -/
def step (s : Service) : Event → Service
  | .call kind => { s with waiting := s.waiting ++ [⟨kind, false⟩] }
  | .interruptStart i =>
    match s.waiting[i]? with
    | none => s
    | some w =>
      if w.passed then s
      else { s.interruptStart with waiting := resume s.waiting i [{ w with passed := true }] }
  | .acquire i =>
    match s.waiting[i]?, s.holder with
    | some w, none =>
      if w.passed then { s with waiting := resume s.waiting i [], holder := some w.kind.first }
      else s
    | _, _ => s
  | .advance ok =>
    match s.holder with
    | none => s
    | some phase => s.advance ok phase

/-! ### The property -/

/-- The status is the truth about the current instance. -/
def Service.Settled (s : Service) : Prop :=
  (s.status = .started ∧ ∃ i, s.instance_ = some i ∧ i ∈ s.succeeded ∧ i ∉ s.closed) ∨
    ((s.status = .idle ∨ s.status = .fatal) ∧ s.instance_ = none)

/-- At most one instance is open; no instance is closed twice, and one that is not current is
closed, unless the call that is closing it has still the lifecycle lock; an interruption ends the
start it was meant for; with no call in progress the status is the truth. -/
structure Truthful (s : Service) : Prop where
  oneOpen : ∀ i j, i < s.built → j < s.built → i ∉ s.closed → j ∉ s.closed → i = j
  closedOnce : ∀ i < s.built, s.closed.count i ≤ 1 ∧
    (s.instance_ ≠ some i → s.holder = none → s.closed.count i = 1)
  meant : ∀ e ∈ s.ended, e.2 = some e.1
  settled : s.holder = none → s.waiting = [] → s.Settled

/-! ### Which instance is open -/

/-- The instance that is built and not closed, in a phase and with a current instance. -/
def Phase.openInstance (current : Option ℕ) : Phase → Option ℕ
  | .startClose i | .publish i | .closeFailed i => some i
  | .closeOld old => old
  | _ => current

/-- The instance that is built and not closed. -/
def Service.openInstance (s : Service) : Option ℕ :=
  match s.holder with
  | none => s.instance_
  | some phase => phase.openInstance s.instance_

/-- Every instance but the open one was closed once. -/
structure Accounted (s : Service) : Prop where
  bound : ∀ i, s.openInstance = some i → i < s.built
  count : ∀ i, s.closed.count i = if i < s.built ∧ s.openInstance ≠ some i then 1 else 0

variable {s : Service} {s' : Service}

section

variable (h : Accounted s)

include h

theorem Accounted.frame (hb : s'.built = s.built) (hcl : s'.closed = s.closed)
    (ho : s'.openInstance = s.openInstance) : Accounted s' := by
  constructor
  · rw [ho, hb]
    exact h.bound
  · rw [ho, hb, hcl]
    exact h.count

theorem Accounted.close (hb : s'.built = s.built)
    (hcl : s'.closed = s.closed ++ s.openInstance.toList) (ho : s'.openInstance = none) :
    Accounted s' := by
  constructor
  · rw [ho]
    exact nofun
  · intro i
    rw [ho, hb, hcl, count_append, h.count i]
    cases hi : s.openInstance with
    | none => simp
    | some j =>
      have hj := h.bound j hi
      by_cases hij : i = j
      · subst hij
        simp [hj]
      · simp [Ne.symm hij]

theorem Accounted.build (hb : s'.built = s.built + 1) (hcl : s'.closed = s.closed)
    (hno : s.openInstance = none) (ho : s'.openInstance = some s.built) : Accounted s' := by
  constructor
  · intro i hi
    rw [ho] at hi
    cases hi
    rw [hb]
    exact Nat.lt_succ_self _
  · intro i
    rw [ho, hb, hcl, h.count i, hno]
    rcases Nat.lt_trichotomy i s.built with hlt | rfl | hgt
    · have hne : s.built ≠ i := by omega
      simp [hlt, hne, Nat.lt_succ_of_lt hlt]
    · simp
    · have hn : ¬ i < s.built + 1 := by omega
      have hn' : ¬ i < s.built := by omega
      simp [hn, hn']

theorem Accounted.notMem_closed {i : ℕ} (ho : s.openInstance = some i) : i ∉ s.closed := by
  rw [← count_eq_zero, h.count i]
  simp [ho]

theorem Accounted.eq_of_notMem {i : ℕ} (hi : i < s.built) (hm : i ∉ s.closed) :
    s.openInstance = some i := by
  by_contra hne
  have hc := h.count i
  rw [if_pos ⟨hi, hne⟩, count_eq_zero.mpr hm] at hc
  cases hc

end

/-! ### What each phase knows -/

/-- Some call has passed `interruptStart` and will get the lifecycle lock. -/
def Service.Passed (s : Service) : Prop := ∃ w ∈ s.waiting, w.passed = true

/-- The status is settled, apart from what was closed. -/
def Service.AtRest (s : Service) : Prop :=
  (s.status = .started ∧ ∃ i, s.instance_ = some i ∧ i ∈ s.succeeded) ∨
    ((s.status = .idle ∨ s.status = .fatal) ∧ s.instance_ = none)

/-- Status, instance and flag while no start is published. -/
def Service.Quiet (s : Service) (status : Status) : Prop :=
  s.startInterrupted = false ∧ s.status = status ∧ s.instance_ = none

/-- A start in progress whose instance is published; whoever interrupts it will come after it. -/
def Service.Starting (s : Service) (i : ℕ) : Prop :=
  s.status = .starting ∧ s.instance_ = some i ∧
    (s.startInterrupted = true → s.meantFor = some i ∧ s.Passed)

/-- The status, the instance and the flag in every phase. -/
def Service.PhaseOk (s : Service) : Prop :=
  match s.holder with
  | none => s.startInterrupted = false ∧ (s.AtRest ∨ (s.Quiet .starting ∧ s.Passed))
  | some .startTake | some .closeTake => s.startInterrupted = false ∧ (s.AtRest ∨ s.Quiet .starting)
  | some (.startClose _) | some .startBegin | some (.closeOld _) | some .closeIdle =>
    s.Quiet .stopping
  | some .build | some .buildFailed | some (.publish _) => s.Quiet .starting
  | some (.startInstance i) | some (.finish i _) => s.Starting i
  | some (.closeFailed _) => s.Quiet .fatal ∨ (s.Quiet .starting ∧ s.Passed)

/-- The invariant. -/
structure Sound (s : Service) : Prop where
  accounted : Accounted s
  phase : s.PhaseOk
  meant : ∀ e ∈ s.ended, e.2 = some e.1

open Service

theorem Sound.initial : Sound initial := by
  refine ⟨⟨nofun, fun i => rfl⟩, ⟨rfl, .inl (.inr ⟨.inl rfl, rfl⟩)⟩, nofun⟩

theorem Sound.truthful (h : Sound s) : Truthful s where
  oneOpen i j hi hj hi' hj' := by
    have ho := h.accounted.eq_of_notMem hi hi'
    rw [h.accounted.eq_of_notMem hj hj'] at ho
    exact (Option.some.inj ho).symm
  closedOnce i hi := by
    have hc := h.accounted.count i
    refine ⟨?_, fun hne hh => ?_⟩
    · rw [hc]
      split_ifs <;> omega
    · have ho : s.openInstance = s.instance_ := by rw [openInstance, hh]
      rw [hc, ho, if_pos ⟨hi, hne⟩]
  meant := h.meant
  settled hh hwa := by
    have ho : s.openInstance = s.instance_ := by rw [openInstance, hh]
    have hph := h.phase
    rw [Service.PhaseOk, hh] at hph
    rcases hph.2 with (⟨hst, i, hin, hs⟩ | hr) | ⟨-, w, hw, -⟩
    · refine .inl ⟨hst, i, hin, hs, ?_⟩
      exact h.accounted.notMem_closed (ho.trans hin)
    · exact .inr hr
    · rw [hwa] at hw
      cases hw

/-! ### Steps -/

theorem Sound.advance (h : Sound s) {ph : Phase} (hh : s.holder = some ph) (ok : Bool) :
    Sound (s.advance ok ph) := by
  have hph := h.phase
  have hm := h.meant
  have ha := h.accounted
  rw [Service.PhaseOk, hh] at hph
  have ho : s.openInstance = ph.openInstance s.instance_ := by
    rw [openInstance, hh]
  cases ph with
  | startTake =>
    dsimp only at ho hph
    cases hi : s.instance_ with
    | some old =>
      simp only [Service.advance, hi]
      refine ⟨ha.frame rfl rfl (ho.trans hi).symm, ⟨hph.1, rfl, rfl⟩, hm⟩
    | none =>
      simp only [Service.advance, hi]
      exact ⟨ha.frame rfl rfl ho.symm, ⟨rfl, rfl, hi⟩, hm⟩
  | startClose old =>
    exact ⟨ha.close rfl (by rw [ho]; rfl) hph.2.2, hph, hm⟩
  | startBegin =>
    exact ⟨ha.frame rfl rfl ho.symm, ⟨rfl, rfl, hph.2.2⟩, hm⟩
  | build =>
    simp only [Service.advance]
    split_ifs
    · exact ⟨ha.build rfl rfl (ho.trans hph.2.2) rfl, hph, hm⟩
    · exact ⟨ha.frame rfl rfl ho.symm, hph, hm⟩
  | buildFailed =>
    exact ⟨ha.frame rfl rfl ho.symm, ⟨hph.1, .inl (.inr ⟨.inr rfl, hph.2.2⟩)⟩, hm⟩
  | publish i =>
    refine ⟨ha.frame rfl rfl ho.symm, ⟨hph.2.1, rfl, fun hf => ?_⟩, hm⟩
    exact absurd (hph.1.symm.trans hf) Bool.false_ne_true
  | startInstance i =>
    exact ⟨ha.frame rfl rfl ho.symm, hph, hm⟩
  | finish i started =>
    obtain ⟨hs, hi, hf⟩ := hph
    have ho' : s.openInstance = some i := ho.trans hi
    simp only [Service.advance]
    by_cases hin : s.startInterrupted = true
    · rw [if_pos hin]
      obtain ⟨hme, hp⟩ := hf hin
      refine ⟨ha.frame rfl rfl ho'.symm, .inr ⟨⟨rfl, hs, rfl⟩, hp⟩, fun e he => ?_⟩
      rcases mem_append.mp he with he | he
      · exact hm e he
      · rw [mem_singleton.mp he]
        exact hme
    · rw [if_neg hin]
      have hnot : s.startInterrupted = false := Bool.eq_false_iff.mpr hin
      split_ifs
      · refine ⟨ha.frame rfl rfl ho.symm, ⟨hnot, .inl (.inl ⟨rfl, i, hi, ?_⟩)⟩, hm⟩
        exact mem_append_right _ (mem_singleton_self i)
      · exact ⟨ha.frame rfl rfl ho'.symm, .inl ⟨hnot, rfl, rfl⟩, hm⟩
  | closeFailed i =>
    have hno : s.instance_ = none := hph.elim (·.2.2) (·.1.2.2)
    refine ⟨ha.close rfl (by rw [ho]; rfl) hno, ?_, hm⟩
    rcases hph with ⟨hf, hs, -⟩ | ⟨hq, hp⟩
    · exact ⟨hf, .inl (.inr ⟨.inr hs, hno⟩)⟩
    · exact ⟨hq.1, .inr ⟨hq, hp⟩⟩
  | closeTake =>
    simp only [Service.advance]
    split_ifs with hid
    · obtain ⟨hno, hn, hnt⟩ := hid
      refine ⟨ha.frame rfl rfl ho.symm, ⟨hph.1, ?_⟩, hm⟩
      rcases hph.2 with hr | ⟨-, hst, -⟩
      · exact .inl hr
      · exact absurd hst hn
    · exact ⟨ha.frame rfl rfl ho.symm, ⟨hph.1, rfl, rfl⟩, hm⟩
  | closeOld old =>
    exact ⟨ha.close rfl (by rw [ho]; rfl) hph.2.2, hph, hm⟩
  | closeIdle =>
    exact ⟨ha.frame rfl rfl ho.symm, ⟨hph.1, .inl (.inr ⟨.inl rfl, hph.2.2⟩)⟩, hm⟩

/-- The calls that wait change, and some call that has passed `interruptStart` is still there. -/
theorem Service.PhaseOk.waiting (h : s.PhaseOk) (waiting : List Waiting)
    (hp : s.Passed → ∃ w ∈ waiting, w.passed = true) :
    Service.PhaseOk { s with waiting := waiting } := by
  unfold Service.PhaseOk at h ⊢
  dsimp only
  cases hh : s.holder with
  | none =>
    rw [hh] at h
    exact ⟨h.1, h.2.imp_right fun hq => ⟨hq.1, hp hq.2⟩⟩
  | some phase =>
    rw [hh] at h
    cases phase with
    | startInstance | finish =>
      exact ⟨h.1, h.2.1, fun hf => ⟨(h.2.2 hf).1, hp (h.2.2 hf).2⟩⟩
    | closeFailed i => exact h.imp_right fun hq => ⟨hq.1, hp hq.2⟩
    | _ => exact h

theorem Service.PhaseOk.starting (h : s.PhaseOk) (hs : s.status = .starting)
    (hin : s.instance_ ≠ none) : ∃ i, s.Starting i ∧
      (s.holder = some (.startInstance i) ∨ ∃ ok, s.holder = some (.finish i ok)) := by
  have hr : ¬ s.AtRest := by
    rintro (⟨hst, -⟩ | ⟨hi | hf, -⟩)
    · rw [hs] at hst
      cases hst
    · rw [hs] at hi
      cases hi
    · rw [hs] at hf
      cases hf
  have hqu : ∀ status, ¬ s.Quiet status := fun _ hqu => hin hqu.2.2
  unfold Service.PhaseOk at h
  cases hh : s.holder with
  | none =>
    rw [hh] at h
    exact (h.2.elim hr fun hq => hqu _ hq.1).elim
  | some phase =>
    rw [hh] at h
    cases phase with
    | startInstance i => exact ⟨i, h, .inl rfl⟩
    | finish i ok => exact ⟨i, h, .inr ⟨ok, rfl⟩⟩
    | startTake => exact (h.2.elim hr (hqu _)).elim
    | closeTake => exact (h.2.elim hr (hqu _)).elim
    | closeFailed i => exact (h.elim (hqu _) fun hq => hqu _ hq.1).elim
    | _ => exact (hqu _ h).elim

/-- `interruptStart`, and the call goes on to wait for the lifecycle lock. -/
theorem Sound.interruptStart (h : Sound s) {waiting : List Waiting}
    (hp : ∃ w ∈ waiting, w.passed = true) : Sound { s.interruptStart with waiting := waiting } := by
  unfold Service.interruptStart
  split_ifs with hst
  · obtain ⟨i, ⟨hstat, hi, -⟩, hh⟩ := h.phase.starting hst.1 hst.2
    have hs : Service.Starting
        { s with startInterrupted := true, meantFor := s.instance_, waiting := waiting } i :=
      ⟨hstat, hi, fun _ => ⟨hi, hp⟩⟩
    refine ⟨h.accounted.frame rfl rfl rfl, ?_, h.meant⟩
    rcases hh with hh | ⟨ok, hh⟩ <;>
      simpa only [Service.PhaseOk, hh] using hs
  · exact ⟨h.accounted.frame rfl rfl rfl, h.phase.waiting waiting fun _ => hp, h.meant⟩

theorem Sound.step (h : Sound s) (e : Event) : Sound (step s e) := by
  cases e with
  | call kind =>
    refine ⟨h.accounted.frame rfl rfl rfl, h.phase.waiting _ ?_, h.meant⟩
    rintro ⟨w, hw, hp⟩
    exact ⟨w, mem_append_left _ hw, hp⟩
  | interruptStart i =>
    rw [Daemon.step]
    split
    · exact h
    · split_ifs
      · exact h
      · exact h.interruptStart ⟨_, mem_resume_new (mem_singleton_self _), rfl⟩
  | acquire i =>
    rw [Daemon.step]
    split
    · rename_i w hw hh
      split_ifs
      · have hph := h.phase
        rw [Service.PhaseOk, hh] at hph
        have ho : s.openInstance = s.instance_ := by rw [openInstance, hh]
        have hr : s.startInterrupted = false ∧ (s.AtRest ∨ s.Quiet .starting) :=
          ⟨hph.1, hph.2.imp_right (·.1)⟩
        cases w.kind <;> exact ⟨h.accounted.frame rfl rfl ho.symm, hr, h.meant⟩
      · exact h
    · exact h
  | advance ok =>
    rw [Daemon.step]
    split
    · exact h
    · rename_i ph hh
      exact h.advance hh ok

/-! ### Runs -/

theorem run_sound (es : ℕ → Event) (n : ℕ) : Sound (run step initial es n) :=
  run_invariant Sound.initial (fun _ e h => h.step e) n

/-- Every state of every run is truthful. -/
theorem run_status_truthful (events : ℕ → Event) (n : ℕ) :
    Truthful (run step Service.initial events n) :=
  (run_sound events n).truthful

/-- A service is started, and `CloseService` runs its first section. -/
def startThenClose : List Event :=
  [.call .startOrReloadService, .interruptStart 0, .acquire 0, .advance true, .advance true,
    .advance true, .advance true, .advance true, .call .closeService, .interruptStart 0,
    .acquire 0, .advance true]

/-- The instance is no longer current and not closed yet: `CloseService` clears it in one section
and closes it afterwards. -/
theorem cleared_before_closed :
    let s := run step Service.initial (startThenClose.getD · (.call .closeService)) 12
    s.built = 1 ∧ s.succeeded = [0] ∧ s.instance_ = none ∧ s.closed.count 0 = 0 ∧
      s.holder = some (.closeOld (some 0)) := by
  decide

end SingBox.Daemon
