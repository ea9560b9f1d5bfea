import SingBox.Foundation.Calls
import SingBox.Foundation.Run

/-!
# A network change ends in a reset

A notification of the default interface marks a reset as pending and starts `updateInterface` in a
goroutine, with a context that the next one cancels. The goroutines run one at a time. Each looks
for its interface in the list of the platform, and takes the mark before it resets the network.
`UpdateInterfaces` stores a new list and starts no goroutine: an update that does not find its
interface gives up, and nobody takes the mark.
-/

namespace SingBox.Route

open Foundation List

/-- The next step of `updateInterface`; at `done`, `ResetNetwork` has begun. -/
inductive UpdatePhase
  | lock
  | find
  | check
  | take
  | reset
  | done
deriving DecidableEq

/-- A goroutine of `updateInterface`. -/
structure Update (ι : Type) where
  context : ℕ
  interface : ι
  phase : UpdatePhase := .lock

structure NetworkManager (ι : Type) where
  defaultInterface : Option ι
  networkInterfaces : List ι
  /-- Changes of the default interface for which `notifyInterfaceUpdate` has not run. -/
  changes : ℕ
  networkResetPending : Bool
  /-- No `ResetNetwork` with an uncancelled context has begun since the last notification. -/
  due : Bool
  context : ℕ := 0
  updates : List (Update ι) := []

inductive NetworkEvent (ι : Type)
  | change (defaultInterface : Option ι)
  | notifyInterfaceUpdate
  | updateInterfaces (networkInterfaces : List ι)
  /-- The goroutine at a place takes its next step. -/
  | advance (i : ℕ)

namespace NetworkManager

variable {ι : Type}

def dispatchInterfaceUpdate (s : NetworkManager ι) : NetworkManager ι :=
  match s.defaultInterface with
  | none => s
  | some d =>
    { s with
      context := s.context + 1
      updates := s.updates ++ [{ context := s.context + 1, interface := d }] }

/-- The state after `Start`, which dispatches an update. -/
def start (d : Option ι) (l : List ι) (n : ℕ) (pending : Bool) : NetworkManager ι :=
  dispatchInterfaceUpdate ⟨d, l, n, pending, pending, 0, []⟩

/-- The goroutine at a place goes on, or returns. -/
def goOn (s : NetworkManager ι) (i : ℕ) (u : Update ι) (phase : Option UpdatePhase) :
    NetworkManager ι :=
  { s with updates := resume s.updates i (phase.toList.map fun p => { u with phase := p }) }

/-- One step of `updateInterface`; with `platform` the list of the platform is in use. -/
def updateInterface [DecidableEq ι] (platform : Bool) (s : NetworkManager ι) (i : ℕ)
    (u : Update ι) : NetworkManager ι :=
  let live := u.context = s.context
  match u.phase with
  | .lock =>
    if s.updates.all (·.phase = .lock) then s.goOn i u (if live then some .find else none) else s
  | .find =>
    s.goOn i u (if platform ∧ u.interface ∉ s.networkInterfaces then none else some .check)
  | .check => s.goOn i u (if live then some .take else none)
  | .take =>
    if live ∧ s.networkResetPending then
      { s.goOn i u (some .reset) with networkResetPending := false }
    else s.goOn i u none
  | .reset => { s.goOn i u (some .done) with due := s.due && decide ¬live }
  | .done => s.goOn i u none

def step [DecidableEq ι] (platform : Bool) (s : NetworkManager ι) :
    NetworkEvent ι → NetworkManager ι
  | .change d => { s with defaultInterface := d, changes := s.changes + 1 }
  | .notifyInterfaceUpdate =>
    if s.changes = 0 then s
    else dispatchInterfaceUpdate
      { s with changes := s.changes - 1, networkResetPending := true, due := true }
  | .updateInterfaces l => { s with networkInterfaces := l }
  | .advance i =>
    match s.updates[i]? with
    | none => s
    | some u => updateInterface platform s i u

/-- With nothing in progress and a default interface in the list, nothing is pending, and a reset
has begun since the last notification. -/
def Settled (s : NetworkManager ι) : Prop :=
  s.updates = [] → s.changes = 0 → (∃ d ∈ s.networkInterfaces, s.defaultInterface = some d) →
    s.networkResetPending = false ∧ s.due = false

/-- An update that is not cancelled finds its interface. -/
def Finds (platform : Bool) (s : NetworkManager ι) : NetworkEvent ι → Prop
  | .advance i => ∀ u, s.updates[i]? = some u → u.phase = .find → u.context = s.context →
    platform → u.interface ∈ s.networkInterfaces
  | _ => True

/-- Unless a change is to be notified, the last update that was started takes the mark, and then
begins the reset. -/
def Kept (s : NetworkManager ι) : Prop :=
  s.changes = 0 → s.defaultInterface ≠ none →
    (s.networkResetPending → ∃ u ∈ s.updates, u.context = s.context ∧
      u.phase ≠ .reset ∧ u.phase ≠ .done) ∧
    (s.due → s.networkResetPending ∨
      ∃ u ∈ s.updates, u.context = s.context ∧ u.phase = .reset)

variable {s : NetworkManager ι} {i : ℕ} {u : Update ι}

theorem Kept.settled (h : Kept s) : Settled s := by
  rintro hu hc ⟨d, -, hd⟩
  obtain ⟨h1, h2⟩ := h hc (by simp [hd])
  simp_all

theorem kept_dispatch (h : s.due → s.networkResetPending) :
    Kept (dispatchInterfaceUpdate s) := by
  unfold dispatchInterfaceUpdate
  cases hd : s.defaultInterface with
  | none => exact fun _ hn => absurd hd hn
  | some d =>
    refine fun _ _ => ⟨fun _ => ⟨_, mem_append_right _ (mem_singleton_self _), rfl, ?_⟩, ?_⟩
    · simp
    · exact fun hdu => .inl (h hdu)

theorem Kept.goOn (h : Kept s) (hu : s.updates[i]? = some u) (hr : u.phase ≠ .reset)
    {ph : Option UpdatePhase} (hp : s.networkResetPending → u.context = s.context →
      u.phase ≠ .done → ∃ p, ph = some p ∧ p ≠ .reset ∧ p ≠ .done) :
    Kept (s.goOn i u ph) := by
  intro hc hd
  obtain ⟨h1, h2⟩ := h hc hd
  refine ⟨fun hpe => exists_mem_resume hu (h1 hpe) ?_, fun hdu => (h2 hdu).imp_right fun he => ?_⟩
  · rintro ⟨hx, -, hdo⟩
    obtain ⟨p, rfl, hpr⟩ := hp hpe hx hdo
    exact ⟨_, mem_singleton_self _, hx, hpr⟩
  · exact exists_mem_resume hu he fun hx => absurd hx.2 hr

variable [DecidableEq ι] {platform : Bool}

theorem Kept.advance (h : Kept s) (hu : s.updates[i]? = some u)
    (hf : Finds platform s (.advance i)) : Kept (updateInterface platform s i u) := by
  have hf := hf u hu
  obtain ⟨context, interface, ph⟩ := u
  cases ph with
  | lock =>
    simp only [updateInterface]
    split
    · exact h.goOn hu (by simp) (by simp_all)
    · exact h
  | find | check | done => exact h.goOn hu (by simp) (by simp_all)
  | take =>
    simp only [updateInterface]
    split
    · next hl =>
      exact fun _ _ => ⟨by simp, fun _ =>
        .inr ⟨_, mem_resume_new (mem_singleton_self _), hl.1, rfl⟩⟩
    · next hl => exact h.goOn hu (by simp) fun hp hx => absurd ⟨hx, hp⟩ hl
  | reset =>
    intro hc hd
    obtain ⟨h1, h2⟩ := h hc hd
    refine ⟨fun hp => exists_mem_resume hu (h1 hp) (by simp), fun hdu => ?_⟩
    obtain ⟨hdu, hl⟩ := Bool.and_eq_true_iff.mp hdu
    refine (h2 hdu).imp_right fun he => exists_mem_resume hu he fun hx => ?_
    exact absurd hx.1 (of_decide_eq_true hl)

theorem Kept.step (h : Kept s) {e : NetworkEvent ι} (hf : Finds platform s e) :
    Kept (step platform s e) := by
  cases e with
  | change d => exact fun hc => absurd hc (Nat.succ_ne_zero _)
  | notifyInterfaceUpdate =>
    simp only [NetworkManager.step]
    split
    · exact h
    · exact kept_dispatch fun _ => rfl
  | updateInterfaces l => exact h
  | advance i =>
    simp only [NetworkManager.step]
    split
    · exact h
    · next hu => exact h.advance hu hf

/-- In every run in which the updates that are not cancelled find their interfaces, every state is
settled. -/
theorem settled_run (platform : Bool) (d : Option ι) (l : List ι) (n : ℕ) (pending : Bool)
    (events : List (NetworkEvent ι))
    (h : Along (step platform) (Finds platform) (start d l n pending) events) :
    Settled (events.foldl (step platform) (start d l n pending)) :=
  (h.foldl (kept_dispatch id) fun _ _ h => h.step).settled

/-- The interface is listed before its update looks for it. -/
theorem settled_example : Settled ([.change (some 1), .notifyInterfaceUpdate,
    .updateInterfaces [1], .advance 0, .advance 0, .advance 0, .advance 0, .advance 0, .advance 0,
    .advance 0].foldl (step true) (start (some 0) [0] 0 false)) := by
  refine settled_run true _ _ _ _ _ ?_
  simp [Along, Finds, step, start, dispatchInterfaceUpdate, updateInterface, goOn, resume]

/-- The interface is listed after its update has looked for it. -/
theorem not_settled : ¬Settled ([.change (some 1), .notifyInterfaceUpdate, .advance 0, .advance 0,
    .advance 0, .updateInterfaces [1]].foldl (step true) (start (some 0) [0] 0 false)) := by
  intro h
  have hp := (h (by decide) (by decide) ⟨1, by decide, by decide⟩).1
  revert hp
  decide

end NetworkManager

end SingBox.Route
