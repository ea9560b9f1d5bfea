import SingBox.Foundation.Run

/-!
# The return path of an endpoint

The device of an endpoint is wrapped, and the wrapper has an atomic pointer to the return path that
is attached. `AttachReturn` and `DetachReturn` load the wrapper from a field of the endpoint for
each of their accesses to the pointer, and change it by a compare-and-swap. `Rebuild` copies the
pointer to a new wrapper and then stores that in the field, under no lock that the other two take.
A change between the copy and the store is lost, and so is one of a wrapper no longer in use.
-/

namespace SingBox.WireGuard

open Foundation Function

/-- Where a call is: what it has loaded, and what it does next. A state has the number `n` of its
allocation, since pointers to it are compared. -/
inductive ReturnCall (Path : Type)
  | idle
  | attachField (p : Path) (n : ℕ)
  | attachState (p : Path) (n w : ℕ)
  | attachAgain (p : Path) (n : ℕ)
  | attachSwap (p : Path) (n w : ℕ)
  | detachField (p : Path)
  | detachState (p : Path) (w : ℕ)
  | detachAgain (p : Path) (n : ℕ)
  | detachSwap (p : Path) (n w : ℕ)
deriving DecidableEq

/-- Where `Rebuild` is. -/
inductive RebuildCall (Path : Type)
  | idle
  | field
  | state (w : ℕ)
  | store (previous : Option (ℕ × Path))
deriving DecidableEq

/-- The pointer has been copied, and the new wrapper has not been stored. -/
def RebuildCall.copied {Path : Type} : RebuildCall Path → Bool
  | .store _ => true
  | _ => false

/-- The wrappers, and the calls of the goroutines `ι`. -/
structure ReturnDevice (ι Path : Type) where
  /-- The number of the wrapper in the field `returnDevice`. -/
  returnDevice : ℕ := 0
  /-- The pointers of the wrappers. -/
  state : ℕ → Option (ℕ × Path) := fun _ => none
  wrappers : ℕ := 1
  allocated : ℕ := 0
  tunDevice : Bool := true
  rebuild : RebuildCall Path := .idle
  calls : ι → ReturnCall Path := fun _ => .idle
  /-- The path of the last successful `AttachReturn`, until a `DetachReturn` of it completes. -/
  attached : Option Path := none

/-- A call begins, or a goroutine or `Rebuild` takes its next step. `Rebuild` and `Teardown` run
under the mutex of the endpoint. -/
inductive ReturnEvent (ι Path : Type)
  | attachReturn (i : ι) (p : Path)
  | detachReturn (i : ι) (p : Path)
  | proceed (i : ι)
  | teardown
  | rebuild (ok : Bool)
  | rebuildStep

variable {ι Path : Type} [DecidableEq ι] [DecidableEq Path]

namespace ReturnDevice

def setCall (s : ReturnDevice ι Path) (i : ι) (call : ReturnCall Path) : ReturnDevice ι Path :=
  { s with calls := update s.calls i call }

/-- `AttachReturn` returns without an error. -/
def succeed (s : ReturnDevice ι Path) (i : ι) (p : Path) : ReturnDevice ι Path :=
  { s.setCall i .idle with attached := some p }

/-- `DetachReturn` returns. -/
def complete (s : ReturnDevice ι Path) (i : ι) (p : Path) : ReturnDevice ι Path :=
  { s.setCall i .idle with attached := if s.attached = some p then none else s.attached }

/-- The next load or compare-and-swap of a call. -/
def proceed (s : ReturnDevice ι Path) (i : ι) : ReturnDevice ι Path :=
  match s.calls i with
  | .idle => s
  | .attachField p n => s.setCall i (.attachState p n s.returnDevice)
  | .attachState p n w =>
    match s.state w with
    | some (_, q) => if q = p then s.succeed i p else s.setCall i .idle
    | none => s.setCall i (.attachAgain p n)
  | .attachAgain p n => s.setCall i (.attachSwap p n s.returnDevice)
  | .attachSwap p n w =>
    if s.state w = none then { s with state := update s.state w (some (n, p)) }.succeed i p
    else s.setCall i (.attachField p n)
  | .detachField p => s.setCall i (.detachState p s.returnDevice)
  | .detachState p w =>
    match s.state w with
    | some (n, q) => if q = p then s.setCall i (.detachAgain p n) else s.complete i p
    | none => s.complete i p
  | .detachAgain p n => s.setCall i (.detachSwap p n s.returnDevice)
  | .detachSwap p n w =>
    if s.state w = some (n, p) then { s with state := update s.state w none }.complete i p
    else s.complete i p

/-- The next load or store of `Rebuild`. The new wrapper is not shared before the store. -/
def rebuildStep (s : ReturnDevice ι Path) : ReturnDevice ι Path :=
  match s.rebuild with
  | .idle => s
  | .field => { s with rebuild := .state s.returnDevice }
  | .state w => { s with rebuild := .store (s.state w) }
  | .store previous =>
    { s with
      state := update s.state s.wrappers previous
      returnDevice := s.wrappers
      wrappers := s.wrappers + 1
      rebuild := .idle }

def step (s : ReturnDevice ι Path) : ReturnEvent ι Path → ReturnDevice ι Path
  | .attachReturn i p =>
    if s.calls i = .idle then
      { s.setCall i (.attachField p s.allocated) with allocated := s.allocated + 1 }
    else s
  | .detachReturn i p => if s.calls i = .idle then s.setCall i (.detachField p) else s
  | .proceed i => s.proceed i
  | .teardown => if s.rebuild = .idle then { s with tunDevice := false } else s
  | .rebuild ok =>
    if s.rebuild = .idle ∧ s.tunDevice = false ∧ ok then
      { s with tunDevice := true, rebuild := .field }
    else s
  | .rebuildStep => s.rebuildStep

/-- The wrapper in use holds the return path. -/
def Holds (s : ReturnDevice ι Path) (p : Path) : Prop :=
  (s.state s.returnDevice).map Prod.snd = some p

/-- With no call in progress, the wrapper in use holds the path that is attached. -/
def Survives (s : ReturnDevice ι Path) : Prop :=
  (∀ i, s.calls i = .idle) → s.rebuild = .idle → ∀ p, s.Holds p ↔ s.attached = some p

/-- A change of the pointer of the wrapper `w` is seen: the wrapper is in use, and `Rebuild` has not
copied the pointer. -/
def Seen (s : ReturnDevice ι Path) (w : ℕ) : Prop :=
  w = s.returnDevice ∧ s.rebuild.copied = false

/-- No call is lost by the step: an `AttachReturn` succeeds on the wrapper in use, and by a change
that is seen, and a `DetachReturn` returns with a change that is seen or while the wrapper in use
does not hold its path. -/
def Kept (s : ReturnDevice ι Path) : ReturnEvent ι Path → Prop
  | .proceed i =>
    match s.calls i with
    | .attachState p _ w => (s.state w).map Prod.snd = some p → w = s.returnDevice
    | .attachSwap _ _ w => s.state w = none → s.Seen w
    | .detachState p w => (s.state w).map Prod.snd = some p ∨ ¬ s.Holds p
    | .detachSwap p n w => s.state w = some (n, p) ∧ s.Seen w ∨ ¬ s.Holds p
    | _ => True
  | _ => True

/-! ### The invariant -/

/-- The wrapper in use holds what is attached, and `Rebuild` has what it holds. -/
structure Carried (s : ReturnDevice ι Path) : Prop where
  inUse : (s.state s.returnDevice).map Prod.snd = s.attached
  loaded : ∀ w, s.rebuild = .state w → w = s.returnDevice
  copied : ∀ previous, s.rebuild = .store previous → previous = s.state s.returnDevice

variable {s : ReturnDevice ι Path}

section

variable (h : s.Carried)

include h

omit [DecidableEq ι] [DecidableEq Path] in
theorem Carried.survives : s.Survives := by
  intro _ _ p
  rw [Holds, h.inUse]

omit [DecidableEq Path] in
theorem Carried.setCall (i : ι) (call : ReturnCall Path) : (s.setCall i call).Carried :=
  ⟨h.inUse, h.loaded, h.copied⟩

omit [DecidableEq Path] in
theorem Carried.succeed (i : ι) {p : Path} (hp : s.Holds p) : (s.succeed i p).Carried :=
  ⟨hp, h.loaded, h.copied⟩

theorem Carried.complete (i : ι) {p : Path} (hp : ¬ s.Holds p) : (s.complete i p).Carried := by
  refine ⟨?_, h.loaded, h.copied⟩
  have hne : s.attached ≠ some p := h.inUse ▸ hp
  exact h.inUse.trans (if_neg hne).symm

omit [DecidableEq ι] [DecidableEq Path] in
/-- The pointer of a wrapper that is not in use. -/
theorem Carried.update_of_ne {w : ℕ} (hw : w ≠ s.returnDevice) (x : Option (ℕ × Path)) :
    Carried { s with state := update s.state w x } := by
  refine ⟨?_, h.loaded, fun previous hp => ?_⟩ <;> simp only [Function.update_of_ne hw.symm]
  · exact h.inUse
  · exact h.copied previous hp

omit [DecidableEq ι] [DecidableEq Path] in
/-- A change that is seen, by a call that attaches or detaches accordingly. -/
theorem Carried.update_seen {w : ℕ} (hw : s.Seen w) (x : Option (ℕ × Path))
    (calls : ι → ReturnCall Path) : Carried { s with
      state := update s.state w x
      calls := calls
      attached := x.map Prod.snd } := by
  obtain ⟨rfl, hc⟩ := hw
  refine ⟨by simp, h.loaded, fun previous hp => ?_⟩
  rw [show s.rebuild = .store previous from hp] at hc
  cases hc

theorem Carried.proceed {i : ι} (hk : s.Kept (.proceed i)) : (s.proceed i).Carried := by
  unfold ReturnDevice.proceed
  simp only [Kept] at hk
  cases hc : s.calls i with
  | idle => exact h
  | attachField | attachAgain | detachField | detachAgain => exact h.setCall i _
  | attachState p n w =>
    rw [hc] at hk
    simp only at hk ⊢
    split
    · next m q hs =>
      split_ifs with hq
      · subst hq
        rw [hs] at hk
        obtain rfl := hk rfl
        exact h.succeed i (by rw [Holds, hs]; rfl)
      · exact h.setCall i _
    · exact h.setCall i _
  | attachSwap p n w =>
    rw [hc] at hk
    simp only at hk ⊢
    split_ifs with hn
    · exact h.update_seen (hk hn) (some (n, p)) _
    · exact h.setCall i _
  | detachState p w =>
    rw [hc] at hk
    simp only at hk ⊢
    split
    · next m q hs =>
      split_ifs with hq
      · exact h.setCall i _
      · refine h.complete i (hk.resolve_left fun hp => hq ?_)
        rw [hs] at hp
        exact Option.some.inj hp
    · next hs =>
      exact h.complete i (hk.resolve_left (by simp [hs]))
  | detachSwap p n w =>
    rw [hc] at hk
    simp only at hk ⊢
    by_cases hs : s.state w = some (n, p)
    · rw [if_pos hs]
      rcases hk with ⟨-, hse⟩ | hh
      · have ha : s.attached = some p := by rw [← h.inUse, ← hse.1, hs]; rfl
        simp only [ReturnDevice.complete, ReturnDevice.setCall, if_pos ha]
        exact h.update_seen hse none _
      · have hne : w ≠ s.returnDevice := by
          rintro rfl
          exact hh (by rw [Holds, hs]; rfl)
        refine (h.update_of_ne hne none).complete i ?_
        simpa only [Holds, Function.update_of_ne hne.symm] using hh
    · rw [if_neg hs]
      exact h.complete i (hk.resolve_left fun hse => hs hse.1)

omit [DecidableEq ι] [DecidableEq Path] in
theorem Carried.rebuildStep : s.rebuildStep.Carried := by
  unfold ReturnDevice.rebuildStep
  cases hr : s.rebuild with
  | idle => exact h
  | field => exact ⟨h.inUse, by rintro w ⟨⟩; rfl, by rintro _ ⟨⟩⟩
  | state w =>
    refine ⟨h.inUse, by rintro _ ⟨⟩, ?_⟩
    rintro _ ⟨⟩
    rw [h.loaded w hr]
  | store previous =>
    refine ⟨?_, by rintro _ ⟨⟩, by rintro _ ⟨⟩⟩
    simp only [update_self]
    rw [h.copied previous hr]
    exact h.inUse

theorem Carried.step {event : ReturnEvent ι Path} (hk : s.Kept event) : (s.step event).Carried := by
  cases event with
  | proceed i => exact h.proceed hk
  | rebuildStep => exact h.rebuildStep
  | attachReturn | detachReturn | teardown =>
    simp only [ReturnDevice.step]
    split_ifs
    · exact ⟨h.inUse, h.loaded, h.copied⟩
    · exact h
  | rebuild ok =>
    simp only [ReturnDevice.step]
    split_ifs
    · exact ⟨h.inUse, by rintro _ ⟨⟩, by rintro _ ⟨⟩⟩
    · exact h

end

/-- In every run of an endpoint in which no call is lost, the wrapper in use holds the return path
that is attached whenever no call is in progress. -/
theorem run_survives (events : ℕ → ReturnEvent ι Path)
    (hkept : ∀ n, (run step ({} : ReturnDevice ι Path) events n).Kept (events n)) (n : ℕ) :
    (run step ({} : ReturnDevice ι Path) events n).Survives := by
  refine Carried.survives ?_
  induction n with
  | zero => exact ⟨rfl, by rintro _ ⟨⟩, by rintro _ ⟨⟩⟩
  | succ n ih => exact ih.step (hkept n)

instance (s : ReturnDevice ι Path) (p : Path) : Decidable (s.Holds p) :=
  inferInstanceAs (Decidable (_ = _))

instance (s : ReturnDevice ι Path) (w : ℕ) : Decidable (s.Seen w) :=
  inferInstanceAs (Decidable (_ ∧ _))

instance (s : ReturnDevice ι Path) (event : ReturnEvent ι Path) : Decidable (s.Kept event) := by
  unfold Kept
  split
  · split <;> infer_instance
  · infer_instance

/-- A path is attached, the endpoint is torn down and built anew, and the path is detached. -/
def keptReturnEvents : List (ReturnEvent (Fin 1) Bool) :=
  [.attachReturn 0 true, .proceed 0, .proceed 0, .proceed 0, .proceed 0, .teardown, .rebuild true,
    .rebuildStep, .rebuildStep, .rebuildStep, .detachReturn 0 true, .proceed 0, .proceed 0,
    .proceed 0, .proceed 0]

theorem run_survives_example :
    (run step {} (fun n => keptReturnEvents.getD n .teardown) 10).Survives ∧
      (run step {} (fun n => keptReturnEvents.getD n .teardown) 10).Holds true := by
  refine ⟨run_survives _ ?_ 10, by decide +kernel⟩
  exact forall_getD _ _ (by decide +kernel) fun _ => trivial

/-- `Rebuild` copies the pointer before the path is attached, and stores the copy after that. -/
def lostReturnEvents : List (ReturnEvent (Fin 1) Bool) :=
  [.teardown, .rebuild true, .rebuildStep, .rebuildStep, .attachReturn 0 true, .proceed 0,
    .proceed 0, .proceed 0, .proceed 0, .rebuildStep]

theorem attach_lost : ¬ (run step {} (fun n => lostReturnEvents.getD n .teardown) 10).Survives := by
  intro h
  have := (h (by decide) (by decide) true).mpr (by decide)
  revert this
  decide

end ReturnDevice

end SingBox.WireGuard
