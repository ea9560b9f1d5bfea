import SingBox.Foundation.Run

/-!
# The automatic fallback from h3 to h2

`connect` starts with the remembered network. The h3 leg runs in a goroutine of its own; h2 is tried
when h3 has failed or its time is up. The single answer of the h3 leg is taken by one of two selects
or by a goroutine that drains it. What came up is remembered, h2 for a window that is the current
rung of a ladder.

The answers of the legs, the timer, the cancellation and the choices of the selects are events.
-/

namespace SingBox.Masque

inductive Network
  | h3
  | h2
deriving DecidableEq

/-- `autoNetwork` and `autoH2Rung`, with the windows since the ladder was last restarted. -/
structure Memory where
  network : Option Network
  rung : ℕ
  windows : List ℕ := []
  restarted : Bool := false

/-- Where the answer of the h3 leg is. -/
inductive Leg
  | idle
  | running
  | ready (ok : Bool)
  | taken (ok : Bool)
deriving DecidableEq

/-- The leg has an answer for somebody, or will have. -/
def Leg.pending : Leg → Bool
  | .running | .ready _ => true
  | _ => false

/-- Where `connect` is: the remembered h2 leg, the first select, the h2 leg, the second select. -/
inductive Phase
  | remembered
  | racing
  | falling
  | last
  | returned (network : Option Network)
deriving DecidableEq

structure Call where
  memory : Memory
  phase : Phase
  h3 : Leg
  h2 : Option Bool := none
  cancelled : Bool := false
  /-- The goroutine of `drainH3` waits. -/
  draining : Bool := false
  /-- How often it has closed the tunnel of the h3 leg. -/
  closed : ℕ := 0

inductive Event
  | h3Answer (ok : Bool)
  | h2Answer (ok : Bool)
  | take
  | budget
  | cancel
  | done
  | drain

/-- An h2 memory whose window is over is dropped. -/
def connect (m : Memory) (expired : Bool) : Call :=
  if m.network = some .h2 then
    if expired then { memory := { m with network := none }, phase := .racing, h3 := .running }
    else { memory := m, phase := .remembered, h3 := .idle }
  else { memory := m, phase := .racing, h3 := .running }

section

variable (ladder : List ℕ)

def nextH2Window (m : Memory) : Memory :=
  { m with
    windows := m.windows ++ [ladder.getD m.rung 0]
    rung := if ladder = [] then m.rung else min (m.rung + 1) (ladder.length - 1) }

def rememberNetwork (m : Memory) (network : Network) : Memory :=
  if m.network = some network then m
  else match network with
    | .h2 => { nextH2Window ladder m with network := some .h2 }
    | .h3 => { network := some .h3, rung := 0, restarted := true }

def step (s : Call) : Event → Call
  | .h3Answer ok => if s.h3 = .running then { s with h3 := .ready ok } else s
  | .h2Answer ok =>
    if s.phase = .remembered ∨ s.phase = .falling then
      if ok then
        { s with
          h2 := some true
          memory := rememberNetwork ladder s.memory .h2
          phase := .returned (some .h2)
          draining := s.h3.pending }
      else if s.phase = .falling then
        { s with h2 := some false, phase := if s.h3.pending then .last else .returned none }
      else if s.cancelled then { s with h2 := some false, phase := .returned none }
      else { s with h2 := some false, memory.network := none, phase := .racing, h3 := .running }
    else s
  | .take =>
    match s.h3 with
    | .ready ok =>
      if s.phase = .racing ∨ s.phase = .last then
        if ok then
          { s with
            h3 := .taken true
            memory := rememberNetwork ladder s.memory .h3
            phase := .returned (some .h3) }
        else if s.phase = .racing ∧ s.cancelled = false ∧ s.h2 = none then
          { s with h3 := .taken false, phase := .falling }
        else { s with h3 := .taken false, phase := .returned none }
      else s
    | _ => s
  | .budget => if s.phase = .racing ∧ s.h2 = none then { s with phase := .falling } else s
  | .cancel => { s with cancelled := true }
  | .done =>
    if s.cancelled ∧ (s.phase = .racing ∨ s.phase = .last) then
      { s with phase := .returned none, draining := true }
    else s
  | .drain =>
    match s.h3 with
    | .ready ok =>
      if s.draining then
        { s with
          h3 := .taken ok
          draining := false
          closed := if ok then s.closed + 1 else s.closed }
      else s
    | _ => s

end

/-- What `connect` has done, and what the goroutine that it has left behind does. -/
structure Sound (m : Memory) (s : Call) : Prop where
  h2 : s.h2 = some true ↔ s.phase = .returned (some .h2)
  h3 : s.phase = .returned (some .h3) → s.h3 = .taken true
  /-- A tunnel of h3 that is taken and not returned is closed once, and no other. -/
  closed : s.closed = if s.h3 = .taken true ∧ s.phase ≠ .returned (some .h3) then 1 else 0
  /-- An answer that is left behind has a goroutine that takes it. -/
  left : ∀ n, s.phase = .returned n → s.h3.pending → s.draining
  /-- Whoever waits for the answer will get it. -/
  waits : s.draining ∨ s.phase = .racing ∨ s.phase = .last → s.h3.pending
  error : s.phase = .returned none → s.cancelled = false → s.h3 = .taken false ∧ s.h2 = some false
  remembered : s.memory.network = some .h2 → m.network = some .h2 ∨ s.h2 = some true
  restarted : s.memory.restarted → m.restarted ∨ s.h3 = .taken true

/-- A bound on the events, other than a cancellation, that still change the state. -/
def Call.work (s : Call) : ℕ :=
  3 * (match s.phase with
    | .remembered => 4
    | .racing => 3
    | .falling => 2
    | .last => 1
    | .returned _ => 0) +
  match s.h3 with
  | .idle => 3
  | .running => 2
  | .ready _ => 1
  | .taken _ => 0

/-- Nothing is left to happen but a cancellation: the legs that were started have answered. -/
def Call.Stuck (ladder : List ℕ) (s : Call) : Prop := ∀ e, e ≠ .cancel → step ladder s e = s

/-- `connect` has returned, nobody waits for h3, and a tunnel of h3 is returned or closed once. -/
structure Call.Over (s : Call) : Prop where
  returned : ∃ network, s.phase = .returned network
  draining : s.draining = false
  h3 : s.h3 = .idle ∨ s.h3 = .taken false ∨
    (s.h3 = .taken true ∧ s.closed = if s.phase = .returned (some .h3) then 0 else 1)

/-- The windows run through the rungs in order, from the first one after a restart; the last rung
repeats. -/
def Rungs (ladder : List ℕ) (start : ℕ) (m : Memory) : Prop :=
  let first := if m.restarted then 0 else start
  m.windows = (List.range m.windows.length).map
      (fun i => ladder.getD (min (first + i) (ladder.length - 1)) 0) ∧
    (ladder ≠ [] → m.rung = min (first + m.windows.length) (ladder.length - 1))

/-- What `connect` knows where it is. -/
structure Inv (m : Memory) (s : Call) : Prop extends Sound m s where
  first : s.phase = .remembered → s.h3 = .idle ∧ s.h2 = none
  falling : s.phase = .falling → (s.h3.pending ∨ s.h3 = .taken false) ∧ s.h2 = none
  last : s.phase = .last → s.h2 = some false
  draining : s.draining → ∃ n, s.phase = .returned n ∧ n ≠ some .h3

theorem inv_connect (m : Memory) (expired : Bool) : Inv m (connect m expired) := by
  unfold connect
  split_ifs <;> refine ⟨⟨?_, ?_, ?_, ?_, ?_, ?_, ?_, ?_⟩, ?_, ?_, ?_, ?_⟩ <;> simp_all [Leg.pending]

variable (ladder : List ℕ)

theorem rememberNetwork_network (m : Memory) (n : Network) :
    (rememberNetwork ladder m n).network = some n := by
  cases n <;> grind [rememberNetwork]

theorem rememberNetwork_h2 (m : Memory) :
    (rememberNetwork ladder m .h2).restarted = m.restarted := by
  grind [rememberNetwork, nextH2Window]

section Steps

variable {m : Memory} {s : Call} (h : Inv m s)

include h

theorem Inv.h3Answer (ok : Bool) : Inv m (step ladder s (.h3Answer ok)) := by
  obtain ⟨⟨h2, h3, closed, left, waits, error, remembered, restarted⟩, first, falling, last,
    draining⟩ := id h
  simp only [Masque.step]
  split
  · constructor
    · constructor <;> grind -ring -linarith -lia -ac [Leg.pending]
    all_goals grind -ring -linarith -lia -ac [Leg.pending]
  · exact h

/-- h2 comes up, and a late answer of h3 is left to the goroutine. -/
theorem Inv.h2Answer_true : Inv m (step ladder s (.h2Answer true)) := by
  have hnetwork := rememberNetwork_network ladder s.memory
  have hrestart := rememberNetwork_h2 ladder s.memory
  obtain ⟨⟨h2, h3, closed, left, waits, error, remembered, restarted⟩, first, falling, last,
    draining⟩ := id h
  simp only [Masque.step]
  split
  · next hphase =>
    constructor
    · constructor <;> rcases hphase with hphase | hphase <;>
        grind -ring -linarith -lia -ac [Leg.pending]
    all_goals grind -ring -linarith -lia -ac [Leg.pending]
  · exact h

/-- h2 fails: h3 has another chance if its answer is still out, and the first one if h2 was only
remembered and the caller has not given up. -/
theorem Inv.h2Answer_false : Inv m (step ladder s (.h2Answer false)) := by
  obtain ⟨⟨h2, h3, closed, left, waits, error, remembered, restarted⟩, first, falling, last,
    draining⟩ := id h
  simp only [Masque.step]
  split
  · next hphase =>
    rcases hphase with hphase | hphase
    · obtain ⟨hidle, hnone⟩ := first hphase
      simp only [hphase, reduceCtorEq, if_false]
      split
      all_goals
        constructor
        · constructor <;> grind -ring -linarith -lia -ac [Leg.pending]
        all_goals grind -ring -linarith -lia -ac [Leg.pending]
    · obtain ⟨hleg, hnone⟩ := falling hphase
      simp only [hphase, if_true]
      constructor
      · constructor <;> grind -ring -linarith -lia -ac [Leg.pending]
      all_goals grind -ring -linarith -lia -ac [Leg.pending]
  · exact h

theorem Inv.take : Inv m (step ladder s .take) := by
  have hnetwork := rememberNetwork_network ladder s.memory
  have hanswer : s.h2 = none ∨ s.h2 = some false ∨ s.h2 = some true := by
    rcases s.h2 with _ | _ | _ <;> simp
  obtain ⟨⟨h2, h3, closed, left, waits, error, remembered, restarted⟩, first, falling, last,
    draining⟩ := id h
  simp only [Masque.step]
  split
  · split
    · next hphase =>
      split
      · constructor
        · constructor <;> grind -ring -linarith -lia -ac [Leg.pending]
        all_goals grind -ring -linarith -lia -ac [Leg.pending]
      · split
        all_goals
          constructor
          · constructor <;> grind -ring -linarith -lia -ac [Leg.pending]
          all_goals grind -ring -linarith -lia -ac [Leg.pending]
    · exact h
  · exact h

theorem Inv.budget : Inv m (step ladder s .budget) := by
  obtain ⟨⟨h2, h3, closed, left, waits, error, remembered, restarted⟩, first, falling, last,
    draining⟩ := id h
  simp only [Masque.step]
  split
  · constructor
    · constructor <;> grind -ring -linarith -lia -ac [Leg.pending]
    all_goals grind -ring -linarith -lia -ac [Leg.pending]
  · exact h

theorem Inv.cancel : Inv m (step ladder s .cancel) := by
  obtain ⟨⟨h2, h3, closed, left, waits, -, remembered, restarted⟩, first, falling, last,
    draining⟩ := h
  exact ⟨⟨h2, h3, closed, left, waits, fun _ hc => absurd hc (by simp [Masque.step]), remembered,
    restarted⟩, first, falling, last, draining⟩

theorem Inv.done : Inv m (step ladder s .done) := by
  obtain ⟨⟨h2, h3, closed, left, waits, error, remembered, restarted⟩, first, falling, last,
    draining⟩ := id h
  simp only [Masque.step]
  split
  · constructor
    · constructor <;> grind -ring -linarith -lia -ac [Leg.pending]
    all_goals grind -ring -linarith -lia -ac [Leg.pending]
  · exact h

theorem Inv.drain : Inv m (step ladder s .drain) := by
  obtain ⟨⟨h2, h3, closed, left, waits, error, remembered, restarted⟩, first, falling, last,
    draining⟩ := id h
  simp only [Masque.step]
  split
  · split
    · constructor
      · constructor <;> grind -ring -linarith -lia -ac [Leg.pending]
      all_goals grind -ring -linarith -lia -ac [Leg.pending]
    · exact h
  · exact h

theorem Inv.step (e : Event) : Inv m (step ladder s e) := by
  cases e with
  | h3Answer ok => exact h.h3Answer ladder ok
  | h2Answer ok =>
    cases ok with
    | true => exact h.h2Answer_true ladder
    | false => exact h.h2Answer_false ladder
  | take => exact h.take ladder
  | budget => exact h.budget ladder
  | cancel => exact h.cancel ladder
  | done => exact h.done ladder
  | drain => exact h.drain ladder

end Steps

/-! ### Progress -/

theorem step_eq_or_work_lt (s : Call) {e : Event} (he : e ≠ .cancel) :
    step ladder s e = s ∨ (step ladder s e).work < s.work := by
  cases e with
  | cancel => exact absurd rfl he
  | h3Answer ok =>
    simp only [step]
    split
    · next hrunning => exact .inr (by simp [Call.work, hrunning])
    · exact .inl rfl
  | h2Answer ok =>
    simp only [step]
    split
    · next hphase =>
      right
      rcases hphase with hphase | hphase
      all_goals
        simp only [Call.work, hphase]
        grind
    · exact .inl rfl
  | take =>
    simp only [step]
    split
    · next hready =>
      split
      · next hphase =>
        right
        rcases hphase with hphase | hphase
        all_goals
          simp only [Call.work, hphase, hready]
          grind
      · exact .inl rfl
    · exact .inl rfl
  | budget =>
    simp only [step]
    split
    · next hphase => exact .inr (by simp [Call.work, hphase.1])
    · exact .inl rfl
  | done =>
    simp only [step]
    split
    · next hphase =>
      right
      rcases hphase.2 with hphase | hphase
      all_goals simp [Call.work, hphase]
    · exact .inl rfl
  | drain =>
    simp only [step]
    split
    · next hready =>
      split
      · exact .inr (by simp [Call.work, hready])
      · exact .inl rfl
    · exact .inl rfl

theorem h3_take {s : Call} {ok : Bool} (hready : s.h3 = .ready ok)
    (hphase : s.phase = .racing ∨ s.phase = .last) :
    (step ladder s .take).h3 = .taken ok := by
  simp only [step, hready, if_pos hphase]
  cases ok with
  | true => rfl
  | false =>
    simp only [Bool.false_eq_true, if_false]
    split <;> rfl

variable {ladder} in
theorem Inv.over {m : Memory} {s : Call} (h : Inv m s) (hstuck : s.Stuck ladder) : s.Over := by
  have hrunning : s.h3 ≠ .running := by
    intro hr
    have := congrArg Call.h3 (hstuck (.h3Answer true) (by simp))
    simp [Masque.step, hr] at this
  -- Somebody who waits for the answer would take it.
  have hready : ∀ ok, s.h3 = .ready ok → s.draining = false ∧ s.phase ≠ .racing ∧
      s.phase ≠ .last := by
    intro ok hr
    refine ⟨?_, fun hp => ?_, fun hp => ?_⟩
    · by_contra hd
      have := congrArg Call.h3 (hstuck .drain (by simp))
      simp [Masque.step, hr, Bool.eq_true_of_not_eq_false hd] at this
    all_goals
      have htaken := (h3_take ladder hr (by simp [hp])).symm.trans
        (congrArg Call.h3 (hstuck .take (by simp)))
      rw [hr] at htaken
      cases htaken
  have hwaits : ¬ (s.draining = true ∨ s.phase = .racing ∨ s.phase = .last) := by
    intro hw
    have hp := h.waits hw
    cases hl : s.h3 with
    | idle | taken => simp [hl, Leg.pending] at hp
    | running => exact hrunning hl
    | ready ok => grind
  have hphase : ∃ network, s.phase = .returned network := by
    cases hp : s.phase with
    | returned network => exact ⟨network, rfl⟩
    | racing | last => grind
    | remembered | falling =>
      have := congrArg Call.phase (hstuck (.h2Answer true) (by simp))
      simp [Masque.step, hp] at this
  refine ⟨hphase, by grind, ?_⟩
  obtain ⟨network, hp⟩ := hphase
  cases hl : s.h3 with
  | idle => exact .inl rfl
  | running => exact absurd hl hrunning
  | ready ok =>
    have := h.left network hp (by simp [hl, Leg.pending])
    grind
  | taken ok =>
    cases ok with
    | false => exact .inr (.inl rfl)
    | true =>
      refine .inr (.inr ⟨rfl, ?_⟩)
      rw [h.closed, hl]
      by_cases hr : s.phase = .returned (some .h3) <;> simp [hr]

variable {ladder} {start : ℕ}

theorem Rungs.rememberNetwork {m : Memory} (h : Rungs ladder start m) (n : Network) :
    Rungs ladder start (rememberNetwork ladder m n) := by
  unfold Masque.rememberNetwork
  split
  · exact h
  · cases n with
    | h3 => exact ⟨rfl, fun _ => by simp⟩
    | h2 =>
      obtain ⟨hw, hr⟩ := h
      refine ⟨?_, fun hl => ?_⟩
      · simp only [nextH2Window, List.length_append, List.length_singleton, List.range_succ,
          List.map_append, List.map_singleton]
        refine congrArg₂ _ hw ?_
        by_cases hl : ladder = []
        · simp [hl]
        · rw [hr hl]
          rfl
      · simp only [nextH2Window, if_neg hl, hr hl, List.length_append, List.length_singleton]
        omega

theorem Rungs.step {s : Call} (h : Rungs ladder start s.memory) (e : Event) :
    Rungs ladder start (step ladder s e).memory := by
  cases e <;> simp only [Masque.step] <;> repeat' split
  all_goals first | exact h | exact h.rememberNetwork _

/-- **`connect` returns one tunnel at most and leaks none,** gives up only after both legs, and
remembers h2 for the windows of the ladder. Every event but a cancellation leaves less to do or
changes nothing; when the legs have answered and nothing is left to happen, `connect` has returned,
nobody waits for h3 any more, and a tunnel of h3 that was not returned has been closed once. -/
theorem connect_sound (ladder : List ℕ) :
    (∀ m expired (events : List Event),
      let s := events.foldl (step ladder) (connect m expired)
      Sound m s ∧ (s.Stuck ladder → s.Over) ∧
        ∀ e, e ≠ .cancel → step ladder s e = s ∨ (step ladder s e).work < s.work) ∧
    ∀ network start (calls : List (Bool × List Event)), Rungs ladder start (calls.foldl
      (fun m call => (call.2.foldl (step ladder) (connect m call.1)).memory)
      { network := network, rung := min start (ladder.length - 1) }) := by
  constructor
  · intro m expired events s
    have hs : Inv m s :=
      List.foldlRecOn events _ (inv_connect m expired) fun s h e _ => h.step ladder e
    exact ⟨hs.1, hs.over, fun e he => step_eq_or_work_lt ladder s he⟩
  · intro network start calls
    refine List.foldlRecOn calls _ ⟨rfl, fun _ => rfl⟩ fun m h call _ => ?_
    refine List.foldlRecOn (motive := fun s : Call => Rungs ladder start s.memory) call.2 _ ?_
      fun s h e _ => h.step e
    unfold connect
    split_ifs <;> exact h

/-- The time of h3 is up, h2 comes up and is returned for the first window, and the tunnel of h3
comes late and is closed. -/
theorem connect_sound_late :
    let s := [.budget, .h2Answer true, .h3Answer true, .drain].foldl (step [300, 600])
      (connect { network := none, rung := 0 } false)
    s.phase = .returned (some .h2) ∧ s.closed = 1 ∧ s.memory.windows = [300] ∧ s.Over := by
  intro s
  refine ⟨rfl, rfl, rfl, ((connect_sound [300, 600]).1 { network := none, rung := 0 } false
    [.budget, .h2Answer true, .h3Answer true, .drain]).2.1 fun e he => ?_⟩
  cases e with
  | cancel => exact absurd rfl he
  | _ => rfl

end SingBox.Masque
