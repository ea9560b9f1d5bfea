import SingBox.Foundation.Run
import SingBox.Foundation.Count

/-!
# Idle ticks, evictions and dials of a WireGuard endpoint

An endpoint that has not been dialled for a while is put to sleep by the idle tick, and later
released; the build budget releases endpoints too. A dial wakes or rebuilds the endpoint. Ticks,
evictions and the slow path of a dial hold the lock `resumeMu`. The fast path of a dial reads
`idleAsleep` and then `started` without it. Every access to an atomic is a step of its own.

The tests of `building` before the lock only keep a tick from waiting, and are left out: a tick
takes the lock whenever it is free. The endpoint is neither closing nor disabled.
-/

namespace SingBox.WireGuard

open Foundation List

/-- The WireGuard device. -/
inductive Device
  | up
  | down
  | released
deriving DecidableEq, Repr

/-- A dial entry. -/
inductive Phase
  | entered
  | stamped
  /-- It has read that the endpoint is not asleep. -/
  | fast
  /-- It waits for the lock or holds it. -/
  | waiting
  /-- `resumeOnDial` has returned true. -/
  | returned
  /-- `resumeOnDial` has returned false after a failed wake, rebuild or acquisition. -/
  | failed
  /-- `resumeOnDial` has returned false because it read that the endpoint is not started. -/
  | refused
  | left
deriving DecidableEq, Repr

/-- The dial is counted. -/
def Phase.inFlight : Phase → Bool
  | .left => false
  | _ => true

/-- The dial relies on the endpoint being awake. -/
def Phase.reliesOnAwake : Phase → Bool
  | .fast | .returned => true
  | _ => false

/-- The places of a dial that holds the lock. -/
inductive WakePlace
  | locked
  | readStarted
  | asleep
  | budget
  | rebuild
  | built
  | resumed
  | clearing
  | done
deriving DecidableEq, Repr

/-- Who holds the lock, and what the next step is. -/
inductive Holder
  /-- `SuspendIfIdle`. Without a threshold the endpoint stays up. -/
  | tickReads (threshold : Option ℕ)
  | tickStarted
  | tickTraffic
  | tickSwap
  | tickStop
  | tickClock
  | tickSuspend
  | sleptReads (threshold : ℕ)
  | sleptSwap
  | sleptClose
  | evictReads
  | evictLive (awake : Bool)
  | evictMark
  | evictRecheck
  | evictUnmark
  | evictStop
  | evictClock
  | evictSuspend
  | evictTorn
  | evictClose
  /-- The slow path of `resumeOnDial`. -/
  | dial (d : ℕ) (place : WakePlace)
deriving DecidableEq, Repr

/-- The flags of an endpoint, with its device. -/
structure Flags where
  idleAsleep : Bool
  started : Bool
  torndown : Bool
  device : Device
deriving DecidableEq, Repr

/-- The state of an endpoint. -/
structure State where
  flags : Flags
  holder : Option Holder
  dials : List Phase
  dialsInFlight : ℕ
  now : ℕ
  lastActivity : ℕ
  sleepSince : ℕ
deriving DecidableEq, Repr

/-- What happens next. -/
inductive Event
  | advance (d : ℕ)
  | enter
  /-- The next step of a dial. If it depends on a device or the budget, `ok` says how it ends. -/
  | dial (d : ℕ) (ok : Bool)
  | tick (threshold : Option ℕ)
  | slept (threshold : ℕ)
  | evict
  /-- The next step of the holder of the lock that is not a dial. `flows` and `moved` say what it
  finds if it looks for established flows and transferred bytes. -/
  | proceed (flows moved : Bool)
deriving DecidableEq, Repr

namespace State

def unlock (s : State) : State := { s with holder := none }

def goto (s : State) (holder : Holder) : State := { s with holder := some holder }

def setDial (s : State) (d : ℕ) (phase : Phase) : State :=
  { s with dials := s.dials.set d phase }

def sleptFor (s : State) : ℕ :=
  if s.sleepSince = 0 ∨ ¬ s.flags.idleAsleep then 0 else s.now - s.sleepSince

end State

/-- The slow path of a dial. -/
def wakeStep (s : State) (d : ℕ) (ok : Bool) : WakePlace → State
  | .locked => s.goto (.dial d (if s.flags.idleAsleep then .asleep else .readStarted))
  | .readStarted => (s.setDial d (if s.flags.started then .returned else .refused)).unlock
  | .asleep =>
    if s.flags.torndown then s.goto (.dial d .budget)
    -- A failed `Up` leaves the device down.
    else if ok then { s with flags.device := .up }.goto (.dial d .resumed)
    else (s.setDial d .failed).unlock
  | .budget => if ok then s.goto (.dial d .rebuild) else (s.setDial d .failed).unlock
  | .rebuild =>
    if ok then { s with flags.device := .up }.goto (.dial d .built)
    else ({ s with flags.device := .released }.setDial d .failed).unlock
  | .built => { s with flags.torndown := false }.goto (.dial d .resumed)
  | .resumed => { s with flags.started := true }.goto (.dial d .clearing)
  | .clearing => { s with flags.idleAsleep := false, sleepSince := 0 }.goto (.dial d .done)
  | .done => (s.setDial d .returned).unlock

/-- A step of a dial. -/
def dialStep (s : State) (d : ℕ) (ok : Bool) : Phase → State
  | .entered => { s with lastActivity := s.now }.setDial d .stamped
  | .stamped => s.setDial d (if s.flags.idleAsleep then .waiting else .fast)
  | .fast => s.setDial d (if s.flags.started then .returned else .refused)
  | .waiting =>
    match s.holder with
    | none => s.goto (.dial d .locked)
    | some (.dial d' place) => if d' = d then wakeStep s d ok place else s
    | some _ => s
  | .returned | .failed | .refused =>
    { s with dialsInFlight := s.dialsInFlight - 1 }.setDial d .left
  | .left => s

/-- A step of a tick or an eviction. -/
def holderStep (s : State) (flows moved : Bool) : Holder → State
  | .tickReads threshold =>
    if threshold.any (· ≤ s.now - s.lastActivity) then s.goto .tickStarted else s.unlock
  | .tickStarted => if s.flags.started then s.goto .tickTraffic else s.unlock
  | .tickTraffic =>
    if flows then s.unlock
    else if moved then { s with lastActivity := s.now }.unlock
    else s.goto .tickSwap
  | .tickSwap =>
    if s.flags.idleAsleep then s.unlock
    else { s with flags.idleAsleep := true }.goto .tickStop
  | .tickStop => { s with flags.started := false }.goto .tickClock
  | .tickClock => { s with sleepSince := s.now }.goto .tickSuspend
  | .tickSuspend => { s with flags.device := .down }.unlock
  | .sleptReads threshold =>
    if ¬ s.flags.idleAsleep ∨ s.flags.torndown then s.unlock
    else if s.sleptFor < threshold then s.unlock
    else s.goto .sleptSwap
  | .sleptSwap => { s with flags.torndown := true }.goto .sleptClose
  | .sleptClose => { s with flags.device := .released }.unlock
  | .evictReads =>
    if s.flags.torndown then s.unlock
    else if ¬ s.flags.started ∧ ¬ s.flags.idleAsleep then s.unlock
    else s.goto (.evictLive s.flags.started)
  | .evictLive awake =>
    if 0 < s.dialsInFlight ∨ flows ∨ moved then s.unlock
    else s.goto (if awake then .evictMark else .evictTorn)
  | .evictMark => { s with flags.idleAsleep := true }.goto .evictRecheck
  | .evictRecheck => s.goto (if 0 < s.dialsInFlight then .evictUnmark else .evictStop)
  | .evictUnmark => { s with flags.idleAsleep := false }.unlock
  | .evictStop => { s with flags.started := false }.goto .evictClock
  | .evictClock => { s with sleepSince := s.now }.goto .evictSuspend
  | .evictSuspend => { s with flags.device := .down }.goto .evictTorn
  | .evictTorn => { s with flags.torndown := true }.goto .evictClose
  | .evictClose => { s with flags.device := .released }.unlock
  -- A dial proceeds with its own steps.
  | .dial _ _ => s

/-- The lock is taken if it is free. -/
def lock (s : State) (holder : Holder) : State :=
  match s.holder with
  | none => s.goto holder
  | some _ => s

/-- The transitions. -/
def step (s : State) : Event → State
  | .advance d => { s with now := s.now + d }
  | .enter => { s with dials := s.dials ++ [.entered], dialsInFlight := s.dialsInFlight + 1 }
  | .dial d ok =>
    match s.dials[d]? with
    | none => s
    | some phase => dialStep s d ok phase
  | .tick threshold => lock s (.tickReads threshold)
  | .slept threshold => if threshold = 0 then s else lock s (.sleptReads threshold)
  | .evict => lock s .evictReads
  | .proceed flows moved =>
    match s.holder with
    | none => s
    | some holder => holderStep s flows moved holder

/-- A started endpoint: awake, or built lazily and not yet built. -/
structure Started (s : State) : Prop where
  holder : s.holder = none
  dials : s.dials = []
  dialsInFlight : s.dialsInFlight = 0
  flags : s.flags = ⟨false, true, false, .up⟩ ∨ s.flags = ⟨true, false, true, .released⟩

/-- The endpoint is not put to sleep under a dial: it is up as long as a dial that it has let
through is in flight, and no dial is refused but after a failure. -/
def NeverUnderDial (s : State) : Prop :=
  ∀ phase ∈ s.dials, (phase = .returned → s.flags.device = .up) ∧ phase ≠ .refused

/-- The tick marks the endpoint asleep only when no dial in flight has found it awake. -/
def SwapsAlone (s : State) (event : Event) : Prop :=
  match s.holder, event with
  | some .tickSwap, .proceed _ _ => ∀ phase ∈ s.dials, phase.reliesOnAwake = false
  | _, _ => True

/-! ### The flags -/

/-- The flags of an endpoint that is awake. -/
abbrev awakeFlags : Flags := ⟨false, true, false, .up⟩

/-- The flags of an endpoint that sleeps with its device. -/
abbrev sleepingFlags : Flags := ⟨true, false, false, .down⟩

/-- The flags of an endpoint whose device is released. -/
abbrev releasedFlags : Flags := ⟨true, false, true, .released⟩

/-- The flags while nobody changes them. -/
abbrev settledFlags : List Flags := [awakeFlags, sleepingFlags, releasedFlags]

/-- The flags there can be, by what the holder of the lock does next. -/
def flagsAt : Option Holder → List Flags
  | none => settledFlags
  | some holder => match holder with
    | .tickReads _ | .tickStarted | .sleptReads _ | .evictReads => settledFlags
    | .tickTraffic | .tickSwap | .evictMark => [awakeFlags]
    | .tickStop | .evictRecheck | .evictUnmark | .evictStop => [⟨true, true, false, .up⟩]
    | .tickClock | .tickSuspend | .evictClock | .evictSuspend => [⟨true, false, false, .up⟩]
    | .evictLive awake => [if awake then awakeFlags else sleepingFlags]
    | .sleptSwap | .evictTorn => [sleepingFlags]
    | .sleptClose | .evictClose => [⟨true, false, true, .down⟩]
    | .dial _ place => match place with
      | .locked => settledFlags
      | .readStarted | .done => [awakeFlags]
      | .asleep => [sleepingFlags, releasedFlags]
      | .budget | .rebuild => [releasedFlags]
      | .built => [⟨true, false, true, .up⟩]
      | .resumed => [⟨true, false, false, .up⟩]
      | .clearing => [⟨true, true, false, .up⟩]

/-- The holder is about to clear `started`. -/
def Stopping (holder : Option Holder) : Prop :=
  holder = some .tickStop ∨ holder = some .evictStop

/-- A dial may rely on the endpoint. -/
def Reliable (s : State) : Prop := s.flags.started = true ∧ ¬ Stopping s.holder

section

variable {f : Flags} {holder : Option Holder} (h : f ∈ flagsAt holder)

include h

theorem device_up_of_mem_flagsAt (hst : f.started) : f.device = .up := by
  revert f
  rcases holder with _ | holder
  · decide
  cases holder with
  | evictLive awake => cases awake <;> simp [flagsAt]
  | dial d place => cases place <;> simp [flagsAt]
  | _ => simp [flagsAt]

theorem reliable_of_mem_flagsAt (ha : f.idleAsleep = false) :
    f.started = true ∧ ¬ Stopping holder := by
  revert f
  rcases holder with _ | holder
  · simp [flagsAt, Stopping]
  cases holder with
  | evictLive awake => cases awake <;> simp [flagsAt, Stopping]
  | dial d place => cases place <;> simp [flagsAt, Stopping]
  | _ => simp [flagsAt, Stopping]

end

/-! ### Ticks and evictions -/

theorem holderStep_frame (s : State) (flows moved : Bool) (holder : Holder) :
    (holderStep s flows moved holder).dials = s.dials ∧
      (holderStep s flows moved holder).dialsInFlight = s.dialsInFlight := by
  cases holder <;> simp only [holderStep] <;> (try split_ifs) <;>
    first | exact ⟨rfl, rfl⟩ | exact ⟨trivial, trivial⟩

variable {s : State} {holder : Holder} {flows moved : Bool} {d : ℕ}

open Phase State

section

variable (hholder : s.holder = some holder) (h : s.flags ∈ flagsAt (some holder))

include hholder h

theorem holderStep_flags :
    (holderStep s flows moved holder).flags ∈ flagsAt (holderStep s flows moved holder).holder := by
  obtain ⟨flags, ho', dials, dialsInFlight, now, lastActivity, sleepSince⟩ := s
  obtain rfl : ho' = some holder := hholder
  cases holder with
  | evictLive awake =>
    cases awake <;> simp [flagsAt] at h <;> subst h <;> simp only [holderStep] <;> split_ifs <;>
      simp_all [flagsAt, goto, unlock]
  | dial d place => exact h
  | tickStarted | sleptReads | evictReads =>
    -- The three values are told apart by the flags that are read.
    simp only [flagsAt, settledFlags, mem_cons, not_mem_nil, or_false] at h
    rcases h with rfl | rfl | rfl <;> simp only [holderStep] <;> split_ifs <;>
      simp_all [flagsAt, goto, unlock]
  | _ =>
    simp [flagsAt] at h
    simp only [holderStep]
    (try split_ifs) <;> simp_all [flagsAt, goto, unlock]

/-- While a dial is in flight, no tick that swaps alone and no eviction stops the endpoint. -/
theorem holderStep_reliable (hi : 0 < s.dialsInFlight) (hsw : holder ≠ .tickSwap)
    (hr : Reliable s) : Reliable (holderStep s flows moved holder) := by
  obtain ⟨flags, ho', dials, dialsInFlight, now, lastActivity, sleepSince⟩ := s
  obtain rfl : ho' = some holder := hholder
  obtain ⟨hst, hs⟩ := hr
  cases holder with
  | tickSwap => exact absurd rfl hsw
  | tickStop => exact absurd (.inl rfl) hs
  | evictStop => exact absurd (.inr rfl) hs
  | evictLive awake =>
    simp only [holderStep, if_pos (Or.inl hi)]
    exact ⟨hst, by simp [unlock, Stopping]⟩
  | _ =>
    simp only [holderStep]
    (try split_ifs) <;>
      simp_all [Reliable, Stopping, goto, unlock]

end

/-! ### Dials -/

theorem inFlight_of_reliesOnAwake {phase : Phase} (h : phase.reliesOnAwake) : phase.inFlight := by
  cases phase <;> first | rfl | cases h

/-- What holds in every state. -/
structure Inv (s : State) : Prop where
  inFlight : s.dialsInFlight = s.dials.countP Phase.inFlight
  flags : s.flags ∈ flagsAt s.holder
  reliable : ∀ phase ∈ s.dials, phase.reliesOnAwake = true → Reliable s
  notRefused : ∀ phase ∈ s.dials, phase ≠ .refused

theorem Inv.neverUnderDial (h : Inv s) : NeverUnderDial s := by
  intro phase hph
  refine ⟨?_, h.notRefused phase hph⟩
  rintro rfl
  exact device_up_of_mem_flagsAt h.flags (h.reliable _ hph rfl).1

theorem Inv.of_started (h : Started s) : Inv s where
  inFlight := by rw [h.dialsInFlight, h.dials]; rfl
  flags := by
    rw [h.holder]
    rcases h.flags with heq | heq <;> rw [heq] <;> decide
  reliable := by rw [h.dials]; simp
  notRefused := by rw [h.dials]; simp

theorem Inv.holderStep (h : Inv s) (hholder : s.holder = some holder)
    (hs : holder = .tickSwap → ∀ phase ∈ s.dials, phase.reliesOnAwake = false) :
    Inv (holderStep s flows moved holder) := by
  obtain ⟨hd, hc⟩ := holderStep_frame s flows moved holder
  have hfl : s.flags ∈ flagsAt (some holder) := hholder ▸ h.flags
  refine ⟨by rw [hd, hc, h.inFlight], holderStep_flags hholder hfl, ?_,
    by rw [hd]; exact h.notRefused⟩
  rw [hd]
  intro phase hph hr
  have hpos : 0 < s.dialsInFlight := by
    rw [h.inFlight, countP_pos_iff]
    exact ⟨phase, hph, inFlight_of_reliesOnAwake hr⟩
  refine holderStep_reliable hholder hfl hpos ?_ (h.reliable phase hph hr)
  intro heq
  rw [hs heq phase hph] at hr
  cases hr

theorem Inv.of_step {s t : State} (h : Inv s) (hc : t.dialsInFlight = t.dials.countP Phase.inFlight)
    (hfl : t.flags ∈ flagsAt t.holder) (hrel : Reliable s → Reliable t)
    (hd : ∀ phase ∈ t.dials, phase ∈ s.dials ∨
      (phase.reliesOnAwake = true → Reliable t) ∧ phase ≠ .refused) : Inv t where
  inFlight := hc
  flags := hfl
  reliable := by
    intro phase hph hr
    rcases hd phase hph with ho | ⟨hn, -⟩
    · exact hrel (h.reliable phase ho hr)
    · exact hn hr
  notRefused := by
    intro phase hph
    rcases hd phase hph with ho | ⟨-, hn⟩
    · exact h.notRefused phase ho
    · exact hn

/-- A dial comes into a new phase, with a step that does not stop the endpoint. -/
theorem Inv.of_set {s t : State} (h : Inv s) {old new : Phase} (ho : s.dials[d]? = some old)
    (hd : t.dials = s.dials.set d new) (hc : t.dialsInFlight = s.dialsInFlight)
    (hi : new.inFlight = old.inFlight) (hfl : t.flags ∈ flagsAt t.holder)
    (hr : Reliable s → Reliable t)
    (hn : (new.reliesOnAwake = true → Reliable t) ∧ new ≠ .refused) : Inv t := by
  refine h.of_step ?_ hfl hr ?_
  · have hs := countP_set_add (q := Phase.inFlight) ho new
    rw [hi] at hs
    rw [hc, h.inFlight, hd]
    omega
  · intro phase hph
    rw [hd] at hph
    rcases mem_or_eq_of_mem_set hph with hm | rfl
    · exact .inl hm
    · exact .inr hn

section

variable (h : Inv s)

include h

theorem Inv.goto_dial (f : Flags) (since : ℕ) {place : WakePlace}
    (hf : f ∈ flagsAt (some (.dial d place))) (hst : s.flags.started = true → f.started = true) :
    Inv ({ s with flags := f, sleepSince := since }.goto (.dial d place)) :=
  h.of_step h.inFlight hf
    (fun hr => ⟨hst hr.1, by simp [State.goto, Stopping]⟩)
    fun _ hph => .inl hph

theorem Inv.unlock_dial (f : Flags) {new : Phase} (hph : s.dials[d]? = some .waiting)
    (hf : f ∈ settledFlags) (hst : s.flags.started = true → f.started = true)
    (hn : new = .failed ∨ new = .returned ∧ f.started = true) :
    Inv ({ s with flags := f }.setDial d new).unlock := by
  have hl : ¬ Stopping none := by simp [Stopping]
  refine h.of_set hph rfl rfl ?_ hf (fun hr => ⟨hst hr.1, hl⟩) ?_
  · rcases hn with rfl | ⟨rfl, -⟩ <;> rfl
  · rcases hn with rfl | ⟨rfl, hup⟩
    · exact ⟨by simp [reliesOnAwake], by simp⟩
    · exact ⟨fun _ => ⟨hup, hl⟩, by simp⟩

/-- The slow path of a dial. -/
theorem Inv.wakeStep {ok : Bool} {place : WakePlace} (hph : s.dials[d]? = some .waiting)
    (hholder : s.holder = some (.dial d place)) : Inv (wakeStep s d ok place) := by
  have hfl := h.flags
  rw [hholder] at hfl
  cases place with
  | locked =>
    refine h.goto_dial s.flags s.sleepSince ?_ id
    rcases hs : s.flags with ⟨idleAsleep, started, torndown, device⟩
    rw [hs] at hfl
    cases idleAsleep <;> simp_all [flagsAt]
  | readStarted =>
    have ha : s.flags = awakeFlags := mem_singleton.mp hfl
    rw [WireGuard.wakeStep, ha, if_pos rfl]
    exact h.unlock_dial s.flags hph (by rw [ha]; decide) id (.inr ⟨rfl, by rw [ha]⟩)
  | asleep =>
    rw [WireGuard.wakeStep]
    have hsl : s.flags = sleepingFlags ∨ s.flags = releasedFlags := by
      simpa [flagsAt] using hfl
    rcases hsl with hs | hs
    · rw [if_neg (by rw [hs]; decide)]
      split_ifs
      · exact h.goto_dial _ s.sleepSince (by simp [flagsAt, hs]) (by simp)
      · exact h.unlock_dial s.flags hph (by rw [hs]; decide) id (.inl rfl)
    · rw [if_pos (by rw [hs])]
      exact h.goto_dial s.flags s.sleepSince (by simp [flagsAt, hs]) id
  | budget =>
    have hs : s.flags = releasedFlags := mem_singleton.mp hfl
    rw [WireGuard.wakeStep]
    split_ifs
    · exact h.goto_dial s.flags s.sleepSince (by simp [flagsAt, hs]) id
    · exact h.unlock_dial s.flags hph (by rw [hs]; decide) id (.inl rfl)
  | rebuild =>
    have hs : s.flags = releasedFlags := mem_singleton.mp hfl
    rw [WireGuard.wakeStep]
    split_ifs
    · exact h.goto_dial _ s.sleepSince (by simp [flagsAt, hs]) (by simp)
    · exact h.unlock_dial _ hph (by rw [hs]; decide) (by simp) (.inl rfl)
  | built =>
    have hs : s.flags = ⟨true, false, true, .up⟩ := mem_singleton.mp hfl
    exact h.goto_dial _ s.sleepSince (by simp [flagsAt, hs]) (by simp)
  | resumed =>
    have hs : s.flags = ⟨true, false, false, .up⟩ := mem_singleton.mp hfl
    exact h.goto_dial _ s.sleepSince (by simp [flagsAt, hs]) (by simp)
  | clearing =>
    have hs : s.flags = ⟨true, true, false, .up⟩ := mem_singleton.mp hfl
    exact h.goto_dial _ 0 (by simp [flagsAt, hs]) (by simp)
  | done =>
    have hs : s.flags = awakeFlags := mem_singleton.mp hfl
    exact h.unlock_dial s.flags hph (by rw [hs]; decide) id (.inr ⟨rfl, by rw [hs]⟩)

theorem Inv.dialStep {ok : Bool} {phase : Phase} (hph : s.dials[d]? = some phase) :
    Inv (dialStep s d ok phase) := by
  have hm : phase ∈ s.dials := mem_of_getElem? hph
  have hq : ∀ (t : State) (new : Phase), t.dials = s.dials.set d new →
      t.dialsInFlight = s.dialsInFlight → t.flags = s.flags → t.holder = s.holder →
      new.inFlight = phase.inFlight →
      (new.reliesOnAwake = true → Reliable s) ∧ new ≠ .refused → Inv t := by
    intro t new hdi hc hfl hholder hi hn
    have hsa : Reliable t ↔ Reliable s := by rw [Reliable, Reliable, hfl, hholder]
    refine h.of_set hph hdi hc hi (by rw [hfl, hholder]; exact h.flags)
      hsa.mpr ⟨fun hre => hsa.mpr (hn.1 hre), hn.2⟩
  cases phase with
  | entered => exact hq _ .stamped rfl rfl rfl rfl rfl ⟨by simp [Phase.reliesOnAwake], by simp⟩
  | stamped =>
    rw [WireGuard.dialStep]
    cases ha : s.flags.idleAsleep with
    | true => exact hq _ .waiting rfl rfl rfl rfl rfl ⟨by simp [Phase.reliesOnAwake], by simp⟩
    | false =>
      exact hq _ .fast rfl rfl rfl rfl rfl
        ⟨fun _ => reliable_of_mem_flagsAt h.flags ha, by simp⟩
  | fast =>
    have hr := h.reliable _ hm rfl
    rw [WireGuard.dialStep, if_pos hr.1]
    exact hq _ .returned rfl rfl rfl rfl rfl ⟨fun _ => hr, by simp⟩
  | waiting =>
    rw [WireGuard.dialStep]
    cases hholder : s.holder with
    | none =>
      have hs : s.flags ∈ settledFlags := by
        have hfl := h.flags
        rwa [hholder] at hfl
      exact h.goto_dial s.flags s.sleepSince hs id
    | some holder =>
      cases holder with
      | dial d' place =>
        simp only
        split_ifs with hd
        · subst hd
          exact h.wakeStep hph hholder
        · exact h
      | _ => exact h
  | returned | failed | refused =>
    have hset := countP_set_add (q := Phase.inFlight) hph .left
    refine h.of_step ?_ h.flags id fun phase hph => ?_
    · have hc := h.inFlight
      simp only [Phase.inFlight, if_true, Bool.false_eq_true, if_false] at hset
      change s.dialsInFlight - 1 = (s.dials.set d .left).countP Phase.inFlight
      omega
    · rcases mem_or_eq_of_mem_set hph with hm | rfl
      · exact .inl hm
      · exact .inr ⟨by simp [Phase.reliesOnAwake], by simp⟩
  | left => exact h

/-! ### Whole runs -/

theorem Inv.lock (hrd : flagsAt (some holder) = settledFlags)
    (hh : ¬ Stopping (some holder)) : Inv (lock s holder) := by
  rw [WireGuard.lock]
  cases hf : s.holder with
  | some _ => exact h
  | none =>
    refine h.of_step h.inFlight ?_ (fun hr => ⟨hr.1, hh⟩)
      fun _ hph => .inl hph
    have hfl := h.flags
    rw [hf] at hfl
    simp only [goto, hrd]
    exact hfl

theorem Inv.step {event : Event} (hs : SwapsAlone s event) : Inv (step s event) := by
  cases event with
  | advance d => exact ⟨h.inFlight, h.flags, h.reliable, h.notRefused⟩
  | enter =>
    refine h.of_step ?_ h.flags id fun phase hph => ?_
    · simp only [WireGuard.step, countP_append, h.inFlight]
      rfl
    · rcases mem_append.mp hph with hm | hm
      · exact .inl hm
      · obtain rfl := mem_singleton.mp hm
        exact .inr ⟨by simp [Phase.reliesOnAwake], by simp⟩
  | dial d ok =>
    rw [WireGuard.step]
    cases hph : s.dials[d]? with
    | none => exact h
    | some phase => exact h.dialStep hph
  | tick threshold => exact h.lock rfl (by simp [Stopping])
  | slept threshold =>
    rw [WireGuard.step]
    split_ifs
    · exact h
    · exact h.lock rfl (by simp [Stopping])
  | evict => exact h.lock rfl (by simp [Stopping])
  | proceed flows moved =>
    rw [WireGuard.step]
    cases hholder : s.holder with
    | none => exact h
    | some holder =>
      refine h.holderStep hholder ?_
      rintro rfl
      simpa only [SwapsAlone, hholder] using hs

end

/-- In every run of a started endpoint in which the tick marks it asleep only when no dial in flight
has found it awake, the endpoint is never put to sleep under a dial. -/
theorem run_neverUnderDial {s : State} (hstarted : Started s) (events : ℕ → Event)
    (hswap : ∀ n, SwapsAlone (run step s events n) (events n)) (n : ℕ) :
    NeverUnderDial (run step s events n) := by
  refine Inv.neverUnderDial ?_
  induction n with
  | zero => exact Inv.of_started hstarted
  | succ n ih =>
    rw [run_succ]
    exact ih.step (hswap n)

/-- An endpoint that has just started and has not been dialled for a long time. -/
def idleEndpoint : State where
  flags := awakeFlags
  holder := none
  dials := []
  dialsInFlight := 0
  now := 100
  lastActivity := 0
  sleepSince := 0

theorem started_idleEndpoint : Started idleEndpoint := ⟨rfl, rfl, rfl, .inl rfl⟩

instance (s : State) (event : Event) : Decidable (SwapsAlone s event) := by
  unfold SwapsAlone
  split <;> infer_instance

instance (s : State) : Decidable (NeverUnderDial s) :=
  inferInstanceAs (Decidable (∀ phase ∈ s.dials, _ ∧ _))

/-- A dial has left when the tick puts the endpoint to sleep, and the next one wakes it. -/
def quietEvents : List Event :=
  [.enter, .dial 0 true, .dial 0 true, .dial 0 true, .dial 0 true, .advance 60, .tick (some 50),
    .proceed false false, .proceed false false, .proceed false false, .proceed false false,
    .enter, .dial 1 true, .dial 1 true, .proceed false false, .proceed false false,
    .proceed false false, .dial 1 true, .dial 1 true, .dial 1 true, .dial 1 true, .dial 1 true,
    .dial 1 true]

theorem run_neverUnderDial_example :
    NeverUnderDial (run step idleEndpoint (fun n => quietEvents.getD n (.advance 0)) 23) ∧
      .returned ∈ (run step idleEndpoint (fun n => quietEvents.getD n (.advance 0)) 23).dials := by
  refine ⟨run_neverUnderDial started_idleEndpoint _ ?_ 23, by decide +kernel⟩
  refine forall_getD _ _ (by decide +kernel) fun n => ?_
  rw [SwapsAlone]
  · trivial
  · rintro _ _ _ ⟨⟩

/-- The tick finds the endpoint idle, a dial is let through, and the tick puts the endpoint to
sleep. -/
def sleepEvents : List Event :=
  [.tick (some 50), .proceed false false, .enter, .dial 0 true, .dial 0 true, .dial 0 true,
    .proceed false false, .proceed false false, .proceed false false, .proceed false false,
    .proceed false false, .proceed false false]

/-- The dial reads `idleAsleep` before the tick sets it, and `started` after the tick has cleared
it. -/
def refuseEvents : List Event :=
  [.tick (some 50), .proceed false false, .enter, .dial 0 true, .dial 0 true,
    .proceed false false, .proceed false false, .proceed false false, .proceed false false,
    .dial 0 true]

theorem sleeps_under_dial : Started idleEndpoint ∧
      ((run step idleEndpoint (fun n => sleepEvents.getD n (.advance 0)) 12).dials = [.returned] ∧
        (run step idleEndpoint (fun n => sleepEvents.getD n (.advance 0)) 12).flags =
          sleepingFlags ∧
        ¬ NeverUnderDial (run step idleEndpoint (fun n => sleepEvents.getD n (.advance 0)) 12)) ∧
      (run step idleEndpoint (fun n => refuseEvents.getD n (.advance 0)) 10).dials = [.refused] ∧
        ¬ NeverUnderDial
          (run step idleEndpoint (fun n => refuseEvents.getD n (.advance 0)) 10) := by
  refine ⟨started_idleEndpoint, ?_⟩
  decide +kernel

end SingBox.WireGuard
