import SingBox.Foundation.Run

/-!
# The idle watcher of a client

A dial takes the session from `getSession`, which marks its activity, waits for the answer to its
CONNECT and only then raises the stream count. The idle watcher loads the count, then the time of
the last activity, and then tears the session down. So it may close a session under a dial that
waits for as long as the idle timeout, or that took the session after the loads (`safe_run`).

Atomic operations and sections under the lock are steps. The clock is read when its value is
stored.
-/

namespace SingBox.TrustTunnel

open Function List Foundation

/-- Where an idle watcher is between two ticks. -/
inductive Watcher
  | ticking
  /-- The stream count was zero. -/
  | loaded
  /-- The session was idle for the timeout, and `teardown` is next. -/
  | closing
  | ended
deriving DecidableEq

/-- A client with the sessions that it has opened, which are numbered. -/
structure Client where
  now : ℕ := 0
  session : Option ℕ := none
  opened : ℕ := 0
  activity : ℕ → ℕ := fun _ => 0
  streams : ℕ → ℕ := fun _ => 0
  closed : ℕ → Bool := fun _ => false
  watcher : ℕ → Watcher := fun _ => .ticking
  /-- The dials that wait on a session, with the time at which they received it. -/
  waiting : List (ℕ × ℕ) := []
  /-- The sessions of the streams that are returned and not closed. -/
  conns : List ℕ := []

inductive ClientEvent
  | tick
  | getSession (alive connects : Bool)
  /-- The dial fails, or gives up the session for another one. -/
  | leave (w : ℕ × ℕ)
  /-- The answer is there: the stream is counted and returned. -/
  | answer (w : ℕ × ℕ)
  | close (k : ℕ)
  | mark (k : ℕ)
  /-- After an error, by `Reset` or by `Close`. -/
  | teardown (k : ℕ)
  | load (k : ℕ)
  | check (k : ℕ)
  | idle (k : ℕ)

namespace Client

/-- The session is handed to a dial. -/
def hand (s : Client) (k : ℕ) : Client :=
  { s with activity := update s.activity k s.now, waiting := (k, s.now) :: s.waiting }

def connect (s : Client) (connects : Bool) : Client :=
  if connects then { s with session := some s.opened, opened := s.opened + 1 }.hand s.opened else s

def teardown (s : Client) (k : ℕ) : Client :=
  { s with
    session := if s.session = some k then none else s.session
    closed := update s.closed k true }

def getSession (s : Client) (alive connects : Bool) : Client :=
  match s.session with
  | some k => if alive then s.hand k else (s.teardown k).connect connects
  | none => s.connect connects

def watch (s : Client) (k : ℕ) (w : Watcher) : Client := { s with watcher := update s.watcher k w }

variable (idleTimeout it : ℕ)

def step (s : Client) : ClientEvent → Client
  | .tick => { s with now := s.now + 1 }
  | .getSession alive connects => s.getSession alive connects
  | .leave w => { s with waiting := s.waiting.erase w }
  | .answer w =>
    if w ∈ s.waiting then
      { s with
        waiting := s.waiting.erase w
        streams := update s.streams w.1 (s.streams w.1 + 1)
        conns := w.1 :: s.conns }
    else s
  | .close k =>
    if k ∈ s.conns then
      { s with streams := update s.streams k (s.streams k - 1), conns := s.conns.erase k }
    else s
  | .mark k => { s with activity := update s.activity k s.now }
  | .teardown k => s.teardown k
  | .load k =>
    if 0 < idleTimeout ∧ k < s.opened ∧ s.watcher k = .ticking ∧ s.streams k = 0 then
      s.watch k .loaded
    else s
  | .check k =>
    if s.watcher k = .loaded then
      s.watch k (if idleTimeout ≤ s.now - s.activity k then .closing else .ticking)
    else s
  | .idle k => if s.watcher k = .closing then (s.teardown k).watch k .ended else s

/-- The watchers close sessions without traffic only, and the counts are right. -/
def Safe (s : Client) : Prop :=
  (∀ k, s.watcher k = .closing → k ∉ s.conns ∧ ∀ w ∈ s.waiting, w.1 ≠ k) ∧
    ∀ k, s.streams k = s.conns.count k

/-- No dial waits for the idle timeout, takes a session that its watcher is about to close, or is
answered between the two loads of the watcher. -/
def MayStep (s : Client) : ClientEvent → Prop
  | .tick => 0 < idleTimeout → ∀ w ∈ s.waiting, s.now + 1 < w.2 + idleTimeout
  | .getSession alive _ => alive → ∀ k, s.session = some k → s.watcher k ≠ .closing
  | .answer w => s.watcher w.1 ≠ .loaded
  | _ => True

structure Inv (s : Client) : Prop where
  safe : s.Safe
  loaded : ∀ k, s.watcher k = .loaded → k ∉ s.conns
  waiting : ∀ w ∈ s.waiting, w.2 ≤ s.activity w.1 ∧ (0 < idleTimeout → s.now < w.2 + idleTimeout)
  activity : ∀ k, s.activity k ≤ s.now
  watcher : ∀ k, s.watcher k ≠ .ticking → k < s.opened ∧ 0 < idleTimeout

variable {idleTimeout it} {s : Client} {k : ℕ}

open Nat

theorem Inv.mark (h : Inv it s) (k : ℕ) :
    Inv it { s with activity := update s.activity k s.now } := by
  refine ⟨h.safe, h.loaded, fun w hw => ⟨?_, (h.waiting w hw).2⟩, fun j => ?_, h.watcher⟩
  · have hle := le_trans (h.waiting w hw).1 (h.activity w.1)
    simp only [update_apply]
    split
    · exact hle
    · exact (h.waiting w hw).1
  · simp only [update_apply]
    split
    · exact le_refl _
    · exact h.activity j

theorem Inv.hand (h : Inv it s) (hk : s.watcher k ≠ .closing) :
    Inv it (s.hand k) := by
  obtain ⟨⟨hc, hn⟩, hl, hw, ha, ht⟩ := h.mark k
  refine ⟨⟨fun j hj => ⟨(hc j hj).1, ?_⟩, hn⟩, hl, ?_, ha, ht⟩
  · rintro w (_ | ⟨_, hm⟩)
    · rintro rfl
      exact hk hj
    · exact (hc j hj).2 w hm
  · rintro w (_ | ⟨_, hm⟩)
    · exact ⟨by simp [Client.hand], Nat.lt_add_of_pos_right⟩
    · exact hw w hm

theorem Inv.connect (h : Inv it s) (connects : Bool) :
    Inv it (s.connect connects) := by
  unfold Client.connect
  split
  · refine Inv.hand ⟨h.safe, h.loaded, h.waiting, h.activity, fun k hk => ?_⟩ ?_
    · exact ⟨lt_succ_of_lt (h.watcher k hk).1, (h.watcher k hk).2⟩
    · intro hk
      exact absurd (h.watcher s.opened (by simp_all)).1 (lt_irrefl _)
  · exact h

theorem Inv.watch (h : Inv it s) {x : Watcher} (hk : k < s.opened) (hT : 0 < it)
    (hl : x = .loaded → k ∉ s.conns)
    (hc : x = .closing → k ∉ s.conns ∧ ∀ w ∈ s.waiting, w.1 ≠ k) : Inv it (s.watch k x) := by
  refine ⟨⟨fun j => ?_, h.safe.2⟩, fun j => ?_, h.waiting, h.activity, fun j => ?_⟩
  all_goals simp only [Client.watch, update_apply]
  · split
    · next hj => exact hj ▸ hc
    · exact h.safe.1 j
  · split
    · next hj => exact hj ▸ hl
    · exact h.loaded j
  · split
    · next hj => exact fun _ => ⟨hj ▸ hk, hT⟩
    · exact h.watcher j

theorem Inv.teardown (h : Inv it s) (k : ℕ) : Inv it (s.teardown k) :=
  ⟨h.safe, h.loaded, h.waiting, h.activity, h.watcher⟩

/-- Dials stop to wait. -/
theorem Inv.leave (h : Inv it s) (w : ℕ × ℕ) :
    Inv it { s with waiting := s.waiting.erase w } :=
  ⟨⟨fun k hk => ⟨(h.safe.1 k hk).1, fun x hx => (h.safe.1 k hk).2 x (mem_of_mem_erase hx)⟩,
    h.safe.2⟩, h.loaded, fun x hx => h.waiting x (mem_of_mem_erase hx), h.activity, h.watcher⟩

theorem Inv.answer (h : Inv it s) {w : ℕ × ℕ} (hw : w ∈ s.waiting)
    (hl : s.watcher w.1 ≠ .loaded) : Inv it { s with
      streams := update s.streams w.1 (s.streams w.1 + 1), conns := w.1 :: s.conns } := by
  refine ⟨⟨fun k hk => ⟨?_, (h.safe.1 k hk).2⟩, fun k => ?_⟩, fun k hk => ?_, h.waiting, h.activity,
    h.watcher⟩
  · exact not_mem_cons_of_ne_of_not_mem ((h.safe.1 k hk).2 w hw).symm (h.safe.1 k hk).1
  · have := h.safe.2 k
    grind
  · refine not_mem_cons_of_ne_of_not_mem ?_ (h.loaded k hk)
    rintro rfl
    exact hl hk

theorem Inv.close (h : Inv it s) (k : ℕ) : Inv it { s with
    streams := update s.streams k (s.streams k - 1), conns := s.conns.erase k } := by
  refine ⟨⟨fun j hj => ⟨?_, (h.safe.1 j hj).2⟩, fun j => ?_⟩, fun j hj => ?_, h.waiting, h.activity,
    h.watcher⟩
  · exact mt mem_of_mem_erase (h.safe.1 j hj).1
  · have := h.safe.2 j
    grind
  · exact mt mem_of_mem_erase (h.loaded j hj)

theorem Inv.step (h : Inv it s) {e : ClientEvent} (hm : s.MayStep it e) :
    Inv it (s.step it e) := by
  cases e with
  | tick =>
    exact ⟨h.safe, h.loaded, fun w hw => ⟨(h.waiting w hw).1, fun hT => hm hT w hw⟩,
      fun k => le_succ_of_le (h.activity k), h.watcher⟩
  | getSession alive connects =>
    simp only [Client.step, Client.getSession]
    split
    · next k hk =>
      split
      · next ha => exact h.hand (hm ha k hk)
      · exact (h.teardown k).connect connects
    · exact h.connect connects
  | leave w => exact h.leave w
  | answer w =>
    simp only [Client.step]
    split
    · next hw => exact (h.answer hw hm).leave w
    · exact h
  | close k =>
    simp only [Client.step]
    split
    · exact h.close k
    · exact h
  | mark k => exact h.mark k
  | teardown k => exact h.teardown k
  | load k =>
    simp only [Client.step]
    split
    · next hk =>
      obtain ⟨hT, hk, -, hs⟩ := hk
      exact h.watch hk hT (fun _ => count_eq_zero.mp ((h.safe.2 k).symm.trans hs)) (by simp)
    · exact h
  | check k =>
    simp only [Client.step]
    split
    · next hl =>
      obtain ⟨hk, hT⟩ := h.watcher k (by simp [hl])
      refine h.watch hk hT (by split <;> simp) fun hc => ⟨h.loaded k hl, ?_⟩
      -- A dial that waits has marked the session less than the timeout ago.
      rintro w hw rfl
      have hwa := h.waiting w hw
      have ha := h.activity w.1
      grind
    · exact h
  | idle k =>
    simp only [Client.step]
    split
    · next hc =>
      obtain ⟨hk, hT⟩ := h.watcher k (by simp [hc])
      exact (h.teardown k).watch hk hT (by simp) (by simp)
    · exact h

/-- In every state of a run whose steps may be taken the watchers close sessions without traffic
only, and the stream counts are right. -/
theorem safe_run (idleTimeout : ℕ) (events : List ClientEvent)
    (h : Along (step idleTimeout) (MayStep idleTimeout) {} events) :
    Safe (events.foldl (step idleTimeout) {}) := by
  have hs : Inv idleTimeout {} :=
    ⟨⟨nofun, fun _ => rfl⟩, nofun, nofun, fun _ => le_refl 0, nofun⟩
  exact (h.foldl hs fun _ _ h => h.step).safe

theorem safe_example :
    Safe ([.getSession true true, .mark 0, .answer (0, 0), .tick, .close 0, .tick,
    .load 0, .check 0, .idle 0].foldl (step 2) {}) :=
  safe_run 2 _ (by simp [Along, MayStep, step, getSession, connect, hand])

/-- A dial that waits for the idle timeout loses its session. -/
theorem not_safe : ¬Safe ([.getSession true true, .tick, .tick, .load 0, .check 0].foldl
    (step 2) {}) :=
  fun h => (h.1 0 rfl).2 (0, 0) (by decide) rfl

end Client

end SingBox.TrustTunnel
