import SingBox.Daemon.WaitForStarted

/-!
# The streaming calls and the instance

The calls wait for the service and then read the current instance. `SubscribeGroups`,
`SubscribeOutbounds` and `SubscribeClashMode` read it in a loop, in one section with the status, and
use it only if the service is started. `SubscribeConnections` and `StartNetworkQualityTest` read it
once and use it in any case: by then it may be gone, or another one may be starting.
-/

namespace SingBox.Daemon

open Foundation List

inductive Stream
  | connections
  | networkQualityTest
  | groups
  | outbounds
  | clashMode
deriving DecidableEq

/-- The call looks at the status before it uses the instance. -/
def Stream.checks : Stream → Bool
  | .connections | .networkQualityTest => false
  | .groups | .outbounds | .clashMode => true

structure Streams where
  waits : Waiters := .initial
  /-- The calls that `waitForStarted` has let through and that read the instance. -/
  calls : List Stream := []
  /-- The instances that were used, and whether they had been started; none is a nil pointer. -/
  used : List (Option (ℕ × Bool)) := []

def Streams.service (s : Streams) : Service := s.waits.service

inductive StreamEvent
  | wait (e : WaitEvent)
  | setError
  /-- The call of `waitForStarted` at a place returns to a streaming call. -/
  | proceed (i : ℕ) (call : Stream)
  /-- The call at a place reads the instance. -/
  | read (i : ℕ)

/-- `Start` of the instance has returned without an error. -/
def Service.Ran (s : Service) (i : ℕ) : Prop := i ∈ s.succeeded ∨ s.holder = some (.finish i true)

instance (s : Service) (i : ℕ) : Decidable (s.Ran i) := inferInstanceAs (Decidable (_ ∨ _))

/-- The current instance is used. -/
def Streams.use (s : Streams) : Streams :=
  { s with used := s.used ++ [s.service.instance_.map fun i => (i, decide (s.service.Ran i))] }

def streamStep (s : Streams) : StreamEvent → Streams
  | .wait e => { s with waits := waitStep s.waits e }
  | .setError => { s with waits.service := s.service.updateStatus .fatal }
  | .proceed i call =>
    match s.waits.returned[i]? with
    | some ⟨true, _⟩ =>
      { s with waits.returned := resume s.waits.returned i [], calls := s.calls ++ [call] }
    | _ => s
  | .read i =>
    match s.calls[i]? with
    | none => s
    | some call =>
      if call.checks then if s.service.status = .started then s.use else s
      else { s.use with calls := resume s.calls i [] }

/-- Every instance that was used had been started. -/
def Streams.Safe (s : Streams) : Prop := ∀ u ∈ s.used, ∃ i, u = some (i, true)

/-- A section of `StartOrReloadService` or `CloseService`. -/
def StreamEvent.isSection : StreamEvent → Bool
  | .wait (.lifecycle (.advance _)) => true
  | _ => false

/-- The calls, with a note that the service was started at some moment and that no section of
`StartOrReloadService` or `CloseService` has run since. -/
structure Watched where
  streams : Streams := {}
  undisturbed : Bool := false

def watchStep (w : Watched) (e : StreamEvent) : Watched where
  streams := streamStep w.streams e
  undisturbed := decide ((streamStep w.streams e).service.status = .started) ||
    (w.undisturbed && !e.isSection)

/-- A call that does not look at the status reads the instance before the service, once it was
started, is disturbed. -/
def ReadsUndisturbed (w : Watched) : StreamEvent → Prop
  | .read i => ∀ call, w.streams.calls[i]? = some call → call.checks = false →
    w.undisturbed = true
  | _ => True

/-- What the status says about the instance, whatever `SetError` does to it. -/
def Service.Published (s : Service) : Prop :=
  match s.holder with
  | none | some .startTake | some .closeTake =>
    (s.status = .started → s.instance_ ≠ none) ∧ ∀ i, s.instance_ = some i → i ∈ s.succeeded
  | some (.startInstance i) | some (.finish i _) => s.instance_ = some i ∧ s.status ≠ .started
  | _ => s.instance_ = none ∧ s.status ≠ .started

variable {s : Service}

namespace Service.Published

theorem advance {ph : Phase} (h : s.Published) (hp : s.holder = some ph)
    (ok : Bool) : (s.advance ok ph).Published := by
  simp only [Service.Published, hp] at h
  cases ph with
  | startTake =>
    unfold Service.advance
    cases hi : s.instance_ with
    | none => exact ⟨hi, by rintro ⟨⟩⟩
    | some old => exact ⟨rfl, by rintro ⟨⟩⟩
  | build => cases ok <;> exact h
  | publish i => exact ⟨rfl, h.2⟩
  | finish i started =>
    simp only [Service.advance]
    split_ifs
    · exact ⟨rfl, h.2⟩
    · refine ⟨fun _ hn => ?_, fun j hj => ?_⟩
      · cases h.1.symm.trans hn
      · cases h.1.symm.trans hj
        exact mem_append_right _ (mem_singleton_self _)
    · exact ⟨rfl, by rintro ⟨⟩⟩
  | closeTake =>
    simp only [Service.advance]
    split_ifs
    · exact h
    · exact ⟨rfl, by rintro ⟨⟩⟩
  | startBegin => exact ⟨h.1, by rintro ⟨⟩⟩
  | startClose _ | startInstance _ | closeOld _ => exact h
  | buildFailed | closeIdle => exact ⟨by rintro ⟨⟩, fun _ hi => by cases h.1.symm.trans hi⟩
  | closeFailed _ => exact ⟨fun hs => absurd hs h.2, fun _ hi => by cases h.1.symm.trans hi⟩

theorem step (h : s.Published) (e : Event) : (step s e).Published := by
  cases e with
  | call kind => exact h
  | interruptStart i =>
    simp only [Daemon.step]
    split
    · exact h
    · split_ifs
      · exact h
      · unfold interruptStart
        split_ifs <;> exact h
  | acquire i =>
    simp only [Daemon.step]
    split
    · next w hw hh =>
      split_ifs
      · simp only [Service.Published, hh] at h
        cases hk : w.kind <;> simpa [Service.Published, CallKind.first, hk] using h
      · exact h
    · exact h
  | advance ok =>
    simp only [Daemon.step]
    split
    · exact h
    · next ph hp => exact h.advance hp ok

theorem setError (h : s.Published) : (s.updateStatus .fatal).Published := by
  unfold Service.Published at h ⊢
  simp only [updateStatus]
  split <;> simp_all

/-- The instance of a started service has started. -/
theorem started (h : s.Published) (hs : s.status = .started) :
    ∃ i, s.instance_ = some i ∧ i ∈ s.succeeded := by
  unfold Service.Published at h
  split at h
  case h_4 | h_5 | h_6 => exact absurd hs h.2
  all_goals
    obtain ⟨i, hi⟩ := Option.ne_none_iff_exists'.mp (h.1 hs)
    exact ⟨i, hi, h.2 i hi⟩

theorem waitStep {w : Waiters} (h : w.service.Published) (e : WaitEvent) :
    (waitStep w e).service.Published := by
  cases e with
  | lifecycle l => exact h.step l
  | wait => exact h
  | advance i =>
    simp only [Daemon.waitStep, Waiters.advance]
    repeat' split
    all_goals exact h
  | deliver | cancel i =>
    simp only [Daemon.waitStep]
    split <;> exact h

end Service.Published

/-! ### What the calls use -/

/-- Only a section of a lifecycle call changes the instance. -/
theorem streamStep_instance (s : Streams) {e : StreamEvent} (he : e.isSection = false) :
    (streamStep s e).service.instance_ = s.service.instance_ ∧
      (streamStep s e).service.succeeded = s.service.succeeded := by
  cases e with
  | wait e =>
    cases e with
    | lifecycle l =>
      cases l with
      | advance ok => cases he
      | call kind => exact ⟨rfl, rfl⟩
      | interruptStart i =>
        simp only [streamStep, waitStep, Streams.service, Daemon.step, Service.interruptStart]
        split
        · exact ⟨rfl, rfl⟩
        · split_ifs <;> exact ⟨rfl, rfl⟩
      | acquire i =>
        simp only [streamStep, waitStep, Streams.service, Daemon.step]
        split
        · split_ifs <;> exact ⟨rfl, rfl⟩
        · exact ⟨rfl, rfl⟩
    | wait => exact ⟨rfl, rfl⟩
    | advance i =>
      simp only [streamStep, waitStep, Waiters.advance, Streams.service]
      repeat' split
      all_goals exact ⟨rfl, rfl⟩
    | deliver | cancel i =>
      simp only [streamStep, waitStep, Streams.service]
      split <;> exact ⟨rfl, rfl⟩
  | setError => exact ⟨rfl, rfl⟩
  | proceed i call =>
    simp only [streamStep]
    split <;> exact ⟨rfl, rfl⟩
  | read i =>
    simp only [streamStep]
    split
    · exact ⟨rfl, rfl⟩
    · split_ifs <;> exact ⟨rfl, rfl⟩

/-- Only instances that had been started are used, and there is one while the service is
undisturbed. -/
structure Watched.Inv (w : Watched) : Prop where
  safe : w.streams.Safe
  published : w.streams.service.Published
  serves : w.undisturbed = true →
    ∃ i, w.streams.service.instance_ = some i ∧ i ∈ w.streams.service.succeeded

theorem Streams.Safe.use {s : Streams} (h : s.Safe)
    (hs : ∃ i, s.service.instance_ = some i ∧ i ∈ s.service.succeeded) : s.use.Safe := by
  intro u hu
  rcases mem_append.mp hu with hu | hu
  · exact h u hu
  · obtain ⟨i, hi, hm⟩ := hs
    refine ⟨i, ?_⟩
    rw [mem_singleton.mp hu, hi]
    simp [Service.Ran, hm]

namespace Watched.Inv

variable {w : Watched} (h : w.Inv)

include h

theorem safe_step {e : StreamEvent} (hread : ReadsUndisturbed w e) :
    (streamStep w.streams e).Safe := by
  cases e with
  | wait | setError => exact h.safe
  | proceed i call =>
    simp only [streamStep]
    split <;> exact h.safe
  | read i =>
    simp only [streamStep]
    split
    · exact h.safe
    · next call hcall =>
      split_ifs with hchecks hstatus
      · exact h.safe.use (h.published.started hstatus)
      · exact h.safe
      · exact h.safe.use (h.serves (hread call hcall (Bool.eq_false_iff.mpr hchecks)))

theorem published_step (e : StreamEvent) : (streamStep w.streams e).service.Published := by
  cases e with
  | wait e => exact h.published.waitStep e
  | setError => exact h.published.setError
  | proceed i call =>
    simp only [streamStep]
    split <;> exact h.published
  | read i =>
    simp only [streamStep]
    split
    · exact h.published
    · split_ifs <;> exact h.published

theorem step {e : StreamEvent} (hread : ReadsUndisturbed w e) : (watchStep w e).Inv := by
  have hpublished := h.published_step e
  refine ⟨h.safe_step hread, hpublished, fun hu => ?_⟩
  simp only [watchStep, Bool.or_eq_true, decide_eq_true_eq, Bool.and_eq_true,
    Bool.not_eq_true'] at hu
  rcases hu with hs | ⟨hu, he⟩
  · exact hpublished.started hs
  · obtain ⟨hinstance, hsucceeded⟩ := streamStep_instance w.streams he
    simpa only [watchStep, hinstance, hsucceeded] using h.serves hu

end Watched.Inv

theorem streams_watch (events : List StreamEvent) (w : Watched) :
    (events.foldl watchStep w).streams = events.foldl streamStep w.streams := by
  induction events generalizing w with
  | nil => rfl
  | cons e events ih => exact ih (watchStep w e)

/-- **The streaming calls use only instances that had been started,** in every run in which no
section of `StartOrReloadService` or `CloseService` comes between the start of the service and the
read of a call that does not look at the status. -/
theorem streams_safe (events : List StreamEvent) (h : Along watchStep ReadsUndisturbed {} events) :
    (events.foldl streamStep {}).Safe := by
  have hinit : Watched.Inv {} := ⟨nofun, ⟨nofun, nofun⟩, nofun⟩
  have hsafe : (events.foldl watchStep {}).streams.Safe :=
    (h.foldl (P := Watched.Inv) hinit fun _ _ hi hr => hi.step hr).safe
  rwa [streams_watch] at hsafe

/-- The service is started and a call is let through, before other events. -/
def letThrough (events : List StreamEvent) : List StreamEvent :=
  startUpToFinish.map .wait ++ .wait (.lifecycle (.advance true)) :: .wait .wait ::
    .wait (.advance 0) :: .proceed 0 .connections :: events

/-- `SetError`, a new call of `CloseService` and its interruption of a start leave the instance
alone. -/
theorem streams_safe_example :
    ((letThrough [.setError, .wait (.lifecycle (.call .closeService)),
      .wait (.lifecycle (.interruptStart 0)), .wait (.lifecycle (.acquire 0)),
      .read 0]).foldl streamStep {}).Safe := by
  refine streams_safe _ ?_
  simp only [letThrough, startUpToFinish, map_cons, map_nil, cons_append, nil_append, Along,
    ReadsUndisturbed, true_and, and_true]
  exact fun _ _ _ => by decide

/-- `CloseService` takes the instance before the call reads it. -/
theorem not_streams_safe :
    ¬((letThrough [.wait (.lifecycle (.call .closeService)), .wait (.lifecycle (.interruptStart 0)),
      .wait (.lifecycle (.acquire 0)), .wait (.lifecycle (.advance true)), .read 0]).foldl
        streamStep {}).Safe := by
  intro h
  obtain ⟨i, hi⟩ := h none (by decide)
  cases hi

end SingBox.Daemon
