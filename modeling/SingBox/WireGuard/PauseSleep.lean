import SingBox.WireGuard.IdleDial

/-!
# Sleep and network pauses of a WireGuard endpoint

The endpoint keeps its state in two layers. The upper one has `started`, `idleAsleep`, `torndown`
and `disabled`, all written under `resumeMu`. The lower one has the device and the flag `suspended`.
Network pauses and wakes are stamped, and applied later, one at a time, under `pauseOpAccess`; they
look at `suspended` only, and `Suspend` and `Resume` do not take `pauseOpAccess`.

The flags of the upper layer are not read by the lower one, so that an operation of the upper layer
tests and writes them in one step; each of its accesses to the lower layer is a step of its own.
A device that has just been built is brought up by an event of its tun device, some time later.
-/

namespace SingBox.WireGuard

open Foundation

/-- The operation that holds `resumeMu`, and its next access to the lower layer. -/
inductive Operation
  /-- `Suspend`, and then `Teardown` if the endpoint is released too. -/
  | suspendFlag (release : Bool)
  | suspendDown (release : Bool)
  /-- `Teardown`. -/
  | teardownFlag
  | teardownRelease
  /-- `Resume`. -/
  | resumeFlag
  | resumeUp
  /-- `Rebuild` and both stages of `Start`. -/
  | rebuild
  | start
  | awake
deriving DecidableEq, Repr

/-- A pause event that is being applied under `pauseOpAccess`. -/
inductive Applying
  | readPaused
  | readSuspended
  | down
  | up
deriving DecidableEq, Repr

/-- An event that waits to be applied. -/
structure Stamped where
  seq : ℕ
  /-- A network pause or wake. The other events are stamped too, and do nothing. -/
  network : Bool
deriving DecidableEq, Repr

/-- Both layers of an endpoint. -/
structure Layers where
  started : Bool
  idleAsleep : Bool
  torndown : Bool
  neverBuilt : Bool
  disabled : Bool
  suspended : Bool
  device : Device
  /-- The device has an event of its tun device to handle. -/
  eventUp : Bool
  registered : Bool
  networkPaused : Bool
  pauseSeq : ℕ
  queue : List Stamped
  operation : Option Operation
  applying : Option Applying
deriving DecidableEq, Repr

/-- What happens next. -/
inductive PauseEvent
  /-- `SuspendIfIdle`, on an endpoint without traffic that has been idle for long. -/
  | tick
  /-- `TeardownIfSlept`, on an endpoint that has slept for long. -/
  | slept
  /-- `TeardownForBudget`, on an endpoint without dials and traffic. -/
  | evict
  /-- The slow path of a dial. `slot` says whether the budget gives a slot if one is needed. -/
  | dial (slot : Bool)
  | setEnabled (enabled : Bool)
  /-- The next step of the operation. -/
  | proceed (ok : Bool)
  | emit (network paused : Bool)
  /-- The goroutine of a stamped event takes `pauseOpAccess`. -/
  | take (i : ℕ)
  /-- The next step of the event that is applied. -/
  | apply (ok : Bool)
  /-- The device handles the event of its tun device. -/
  | handleUp (ok : Bool)
deriving DecidableEq, Repr

/-- A call of `Up`. If it fails, the device is down. -/
def afterUp (ok : Bool) : Device → Device
  | .released => .released
  | _ => if ok then .up else .down

/-- A call of `Down`. -/
def afterDown : Device → Device
  | .released => .released
  | _ => .down

/-- An operation takes `resumeMu`, tests the flags and writes them. Operations that find nothing to
do leave everything as it is. -/
def begin (s : Layers) : PauseEvent → Layers
  | .tick =>
    if s.disabled ∨ ¬ s.started ∨ s.idleAsleep then s
    else
      { s with idleAsleep := true, started := false, operation := some (.suspendFlag false) }
  | .slept =>
    if ¬ s.idleAsleep ∨ s.torndown then s
    else { s with torndown := true, operation := some .teardownFlag }
  | .evict =>
    if s.torndown ∨ ¬ s.started ∧ ¬ s.idleAsleep then s
    else if s.started then
      { s with idleAsleep := true, started := false, operation := some (.suspendFlag true) }
    else { s with torndown := true, operation := some .teardownFlag }
  | .dial slot =>
    if s.disabled ∨ ¬ s.idleAsleep then s
    else if s.torndown then
      if slot then { s with operation := some .rebuild } else s
    else { s with operation := some .resumeFlag }
  | .setEnabled false =>
    if s.disabled then s
    else if s.started then
      { s with
        disabled := true
        started := false
        idleAsleep := true
        operation := some (.suspendFlag false) }
    else { s with disabled := true }
  | .setEnabled true =>
    if ¬ s.disabled then s
    else if ¬ s.idleAsleep ∨ s.torndown ∨ s.neverBuilt then { s with disabled := false }
    else { s with disabled := false, operation := some .resumeFlag }
  | _ => s

/-- The next step of an operation. -/
def proceed (s : Layers) (ok : Bool) : Operation → Layers
  | .suspendFlag release =>
    { s with suspended := true, operation := some (.suspendDown release) }
  | .suspendDown false => { s with device := afterDown s.device, operation := none }
  | .suspendDown true =>
    { s with
      device := afterDown s.device
      torndown := true
      operation := some .teardownFlag }
  | .teardownFlag => { s with suspended := true, operation := some .teardownRelease }
  | .teardownRelease =>
    -- The device is released under `pauseOpAccess`, and what is queued is invalidated.
    if s.applying = none then
      { s with
        pauseSeq := s.pauseSeq + 1
        device := .released
        eventUp := false
        registered := false
        operation := none }
    else s
  | .resumeFlag => { s with suspended := false, operation := some .resumeUp }
  | .resumeUp =>
    if ok ∨ s.device = .released then
      { s with device := afterUp true s.device, operation := some .awake }
    -- The flags of the upper layer are kept, and `suspended` stays false.
    else { s with device := .down, operation := none }
  | .rebuild =>
    if ok then { s with suspended := false, operation := some .start }
    else { s with operation := some .teardownFlag }
  | .start =>
    if ok then
      { s with
        device := .down
        eventUp := true
        registered := true
        operation := some .awake }
    else { s with operation := some .teardownFlag }
  | .awake =>
    { s with
      torndown := false
      started := true
      idleAsleep := false
      neverBuilt := false
      operation := none }

/-- The next step of a pause event. -/
def applyPauseEvent (s : Layers) (ok : Bool) : Applying → Layers
  | .readPaused =>
    { s with applying := some (if s.networkPaused then .down else .readSuspended) }
  | .readSuspended => { s with applying := if s.suspended then none else some .up }
  | .down => { s with device := afterDown s.device, applying := none }
  | .up => { s with device := afterUp ok s.device, applying := none }

/-- The goroutine of a stamped event. -/
def takePause (s : Layers) (i : ℕ) : Layers :=
  match s.queue[i]? with
  | none => s
  | some stamped =>
    let s := { s with queue := s.queue.eraseIdx i }
    if stamped.seq = s.pauseSeq ∧ s.device ≠ .released ∧ stamped.network then
      { s with applying := some .readPaused }
    else s

/-- The transitions. -/
def pauseStep (s : Layers) (event : PauseEvent) : Layers :=
  match event with
  | .proceed ok =>
    match s.operation with
    | none => s
    | some operation => proceed s ok operation
  | .emit network paused =>
    let s := if network then { s with networkPaused := paused } else s
    if s.registered then
      { s with pauseSeq := s.pauseSeq + 1, queue := s.queue ++ [⟨s.pauseSeq + 1, network⟩] }
    else s
  | .take i => if s.applying = none then takePause s i else s
  | .apply ok =>
    match s.applying with
    | none => s
    | some applying => applyPauseEvent s ok applying
  | .handleUp ok =>
    if s.eventUp then { s with eventUp := false, device := afterUp ok s.device } else s
  | event => if s.operation = none then begin s event else s

/-- `Start` has finished: the endpoint is awake, or has not been built yet. -/
structure StartFinished (s : Layers) : Prop where
  operation : s.operation = none
  layers :
    s.started = true ∧ s.idleAsleep = false ∧ s.torndown = false ∧ s.suspended = false ∧
        s.device ≠ .released ∨
      s.started = false ∧ s.idleAsleep = true ∧ s.torndown = true ∧ s.suspended = true ∧
        s.device = .released

/-- While nothing is in progress, an endpoint that is asleep has no device that is up, and an
endpoint that is started has a device. -/
def StaysDown (s : Layers) : Prop :=
  s.operation = none → s.applying = none →
    (s.idleAsleep = true → s.device ≠ .up) ∧ (s.started = true → s.device ≠ .released)

/-- A pause event and the event of the tun device bring the device up only while the endpoint is not
suspended, and `Resume` succeeds. -/
def UpsUnsuspended (s : Layers) (event : PauseEvent) : Prop :=
  match event with
  | .proceed ok => s.operation = some .resumeUp → ok = true
  | .apply _ => s.applying = some .up → s.suspended = false
  | .handleUp _ => s.eventUp = true → s.suspended = false
  | _ => True

/-! ### The invariant -/

/-- Both layers, by what the operation does next. -/
def LayersOk (s : Layers) : Prop :=
  match s.operation with
  | none =>
    s.started = true ∧ s.idleAsleep = false ∧ s.torndown = false ∧ s.device ≠ .released ∨
      s.started = false ∧ s.idleAsleep = true ∧ s.torndown = false ∧ s.suspended = true ∧
        s.device = .down ∨
      s.started = false ∧ s.idleAsleep = true ∧ s.torndown = true ∧ s.device = .released
  | some (.suspendFlag _) | some .resumeFlag | some .resumeUp =>
    s.started = false ∧ s.idleAsleep = true ∧ s.torndown = false ∧ s.device ≠ .released
  | some (.suspendDown _) =>
    s.started = false ∧ s.idleAsleep = true ∧ s.torndown = false ∧ s.suspended = true ∧
      s.device ≠ .released
  | some .teardownFlag | some .teardownRelease =>
    s.started = false ∧ s.idleAsleep = true ∧ s.torndown = true
  | some .rebuild | some .start =>
    s.started = false ∧ s.idleAsleep = true ∧ s.torndown = true ∧ s.device = .released
  | some .awake => s.started = false ∧ s.idleAsleep = true ∧ s.device ≠ .released

variable {s : Layers} {device : Device}

theorem LayersOk.of_startFinished (h : StartFinished s) : LayersOk s := by
  rw [LayersOk, h.operation]
  rcases h.layers with ⟨h₁, h₂, h₃, -, h₅⟩ | ⟨h₁, h₂, h₃, -, h₅⟩
  · exact .inl ⟨h₁, h₂, h₃, h₅⟩
  · exact .inr (.inr ⟨h₁, h₂, h₃, h₅⟩)

theorem LayersOk.staysDown (h : LayersOk s) : StaysDown s := by
  intro hop _
  rw [LayersOk, hop] at h
  rcases h with ⟨h₁, h₂, -, h₄⟩ | ⟨h₁, -, -, -, h₅⟩ | ⟨h₁, -, -, h₄⟩
  · exact ⟨fun ha => absurd (h₂.symm.trans ha) (by decide), fun _ => h₄⟩
  · exact ⟨fun _ => by rw [h₅]; decide, fun hst => absurd (h₁.symm.trans hst) (by decide)⟩
  · exact ⟨fun _ => by rw [h₄]; decide, fun hst => absurd (h₁.symm.trans hst) (by decide)⟩

variable {ok : Bool}

@[simp] theorem afterUp_eq_released : afterUp ok device = .released ↔ device = .released := by
  cases device <;> cases ok <;> decide

@[simp] theorem afterDown_eq_released : afterDown device = .released ↔ device = .released := by
  cases device <;> decide

theorem afterDown_of_ne (h : device ≠ .released) : afterDown device = .down := by
  cases device <;> first | rfl | exact absurd rfl h

theorem LayersOk.begin (h : LayersOk s) (hf : s.operation = none) (event : PauseEvent) :
    LayersOk (begin s event) := by
  rw [LayersOk, hf] at h
  have hs : LayersOk s := by rwa [LayersOk, hf]
  cases event with
  | setEnabled enabled =>
    cases enabled <;> simp only [WireGuard.begin] <;> split_ifs <;> simp_all [LayersOk]
  | tick | slept | evict | dial =>
    simp only [WireGuard.begin]
    split_ifs <;> simp_all [LayersOk]
  | _ => exact hs

theorem LayersOk.proceed (h : LayersOk s) {operation : Operation}
    (hop : s.operation = some operation) (hr : operation = .resumeUp → ok = true) :
    LayersOk (proceed s ok operation) := by
  rw [LayersOk, hop] at h
  cases operation with
  | suspendDown release =>
    cases release <;> simp_all [WireGuard.proceed, LayersOk, afterDown_of_ne]
  | _ =>
    simp only [WireGuard.proceed]
    (try split_ifs) <;> simp_all [LayersOk]

theorem LayersOk.of_device {s t : Layers} (h : LayersOk s)
    (hs : t.operation = s.operation ∧ t.started = s.started ∧ t.idleAsleep = s.idleAsleep ∧
      t.torndown = s.torndown ∧ t.suspended = s.suspended)
    (hr : t.device = .released ↔ s.device = .released)
    (hd : s.suspended = true → s.device = .down → t.device = .down) : LayersOk t := by
  obtain ⟨h₁, h₂, h₃, h₄, h₅⟩ := hs
  rw [LayersOk, h₁, h₂, h₃, h₄, h₅]
  rw [LayersOk] at h
  split at h <;> simp_all
  grind

theorem LayersOk.applyPauseEvent (h : LayersOk s) {applying : Applying}
    (hup : applying = .up → s.suspended = false) : LayersOk (applyPauseEvent s ok applying) := by
  cases applying with
  | readPaused | readSuspended => exact h.of_device ⟨rfl, rfl, rfl, rfl, rfl⟩ Iff.rfl fun _ => id
  | down =>
    refine h.of_device ⟨rfl, rfl, rfl, rfl, rfl⟩ afterDown_eq_released fun _ hd => ?_
    exact afterDown_of_ne (by rw [hd]; decide)
  | up =>
    refine h.of_device ⟨rfl, rfl, rfl, rfl, rfl⟩ afterUp_eq_released fun hs => ?_
    exact absurd (hs.symm.trans (hup rfl)) (by decide)

theorem LayersOk.takePause (h : LayersOk s) (i : ℕ) : LayersOk (takePause s i) := by
  rw [WireGuard.takePause]
  cases s.queue[i]? with
  | none => exact h
  | some stamped =>
    simp only
    split_ifs <;> exact h.of_device ⟨rfl, rfl, rfl, rfl, rfl⟩ Iff.rfl fun _ => id

theorem LayersOk.step (h : LayersOk s) {event : PauseEvent} (hu : UpsUnsuspended s event) :
    LayersOk (pauseStep s event) := by
  cases event with
  | proceed ok =>
    rw [pauseStep]
    cases hop : s.operation with
    | none => exact h
    | some operation =>
      exact h.proceed hop fun heq => hu (by rw [hop, heq])
  | emit network paused =>
    rw [pauseStep]
    split_ifs <;> exact h.of_device ⟨rfl, rfl, rfl, rfl, rfl⟩ Iff.rfl fun _ => id
  | take i =>
    rw [pauseStep]
    split_ifs
    · exact h.takePause i
    · exact h
  | apply ok =>
    rw [pauseStep]
    cases ha : s.applying with
    | none => exact h
    | some applying => exact h.applyPauseEvent fun heq => hu (by rw [ha, heq])
  | handleUp ok =>
    rw [pauseStep]
    split_ifs with he
    · refine h.of_device ⟨rfl, rfl, rfl, rfl, rfl⟩ afterUp_eq_released fun hs => ?_
      exact absurd (hs.symm.trans (hu he)) (by decide)
    · exact h
  | tick | slept | evict | dial | setEnabled =>
    simp only [pauseStep]
    split_ifs with hf
    · exact h.begin hf _
    · exact h

/-- In every run, after `Start`, in which the device is brought up behind the back of the endpoint
only while it is not suspended, and no wake fails, the endpoint stays down while it is asleep, and
has a device while it is started. -/
theorem run_staysDown {s : Layers} (hstart : StartFinished s) (events : ℕ → PauseEvent)
    (hups : ∀ n, UpsUnsuspended (run pauseStep s events n) (events n)) (n : ℕ) :
    StaysDown (run pauseStep s events n) := by
  refine LayersOk.staysDown ?_
  induction n with
  | zero => exact LayersOk.of_startFinished hstart
  | succ n ih =>
    rw [run_succ]
    exact ih.step (hups n)

/-- An endpoint that has been started, on a network that is not paused. -/
def startedLayers : Layers where
  started := true
  idleAsleep := false
  torndown := false
  neverBuilt := false
  disabled := false
  suspended := false
  device := .up
  eventUp := false
  registered := true
  networkPaused := false
  pauseSeq := 0
  queue := []
  operation := none
  applying := none

theorem startFinished_startedLayers : StartFinished startedLayers :=
  ⟨rfl, .inl ⟨rfl, rfl, rfl, rfl, by decide⟩⟩

instance (s : Layers) (event : PauseEvent) : Decidable (UpsUnsuspended s event) := by
  unfold UpsUnsuspended
  split <;> infer_instance

instance (s : Layers) : Decidable (StaysDown s) :=
  inferInstanceAs (Decidable (_ → _ → _ ∧ _))

/-- The endpoint is put to sleep, a network wake finds it suspended, and a dial wakes it. -/
def sleepAndWakeEvents : List PauseEvent :=
  [.tick, .proceed true, .proceed true, .emit true false, .take 0, .apply true, .apply true,
    .dial true, .proceed true, .proceed true, .proceed true]

theorem run_staysDown_example : StaysDown (run pauseStep startedLayers
        (fun n => sleepAndWakeEvents.getD n (.setEnabled true)) 7) ∧ (run pauseStep startedLayers
        (fun n => sleepAndWakeEvents.getD n (.setEnabled true)) 7).idleAsleep = true := by
  refine ⟨run_staysDown startFinished_startedLayers _ ?_ 7, by decide +kernel⟩
  exact forall_getD _ _ (by decide +kernel) fun _ => trivial

/-- A network wake has read that the endpoint is not suspended, the tick puts it to sleep, and the
wake brings the device up. -/
def racingWakeEvents : List PauseEvent :=
  [.emit true false, .take 0, .apply true, .apply true, .tick, .proceed true, .proceed true,
    .apply true]

/-- The wake of a dial fails, and leaves `suspended` false. A network wake then brings the device up
while the endpoint is asleep. -/
def failedWakeEvents : List PauseEvent :=
  [.tick, .proceed true, .proceed true, .dial true, .proceed true, .proceed false,
    .emit true false, .take 0, .apply true, .apply true, .apply true]

theorem up_while_asleep : StartFinished startedLayers ∧ ¬ StaysDown (run pauseStep startedLayers
        (fun n => racingWakeEvents.getD n (.setEnabled true)) 8) ∧
      ¬ StaysDown (run pauseStep startedLayers
        (fun n => failedWakeEvents.getD n (.setEnabled true)) 11) := by
  refine ⟨startFinished_startedLayers, ?_⟩
  decide +kernel

end SingBox.WireGuard
