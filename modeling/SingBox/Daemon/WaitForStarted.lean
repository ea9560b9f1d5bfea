import SingBox.Daemon.Lifecycle

/-!
# Waiting for the service to start

`waitForStarted` reads the status, and if the service is starting it subscribes to the statuses that
are emitted and waits for one that ends the start. Reading and subscribing are two steps. An
observer takes the emitted statuses one after the other, and hands each to those who are subscribed
then.

The statuses that were emitted are a list. The observer has a position in it, and so has every
subscriber.
-/

namespace SingBox.Daemon

open Foundation List Service

/-- The next step of `waitForStarted`. -/
inductive WaitPhase
  | read
  | subscribe
  /-- Subscribed; the position of the next status to receive. -/
  | receive (position : ℕ)
deriving DecidableEq, Repr

/-- A call of `waitForStarted`. -/
structure Waiter where
  phase : WaitPhase
  /-- The number of statuses that were emitted before the call. -/
  begun : ℕ
  /-- The status was `started` at some moment during the call. -/
  sawStarted : Bool
deriving DecidableEq, Repr

/-- A call of `waitForStarted` that has returned. -/
structure Returned where
  ok : Bool
  sawStarted : Bool
deriving DecidableEq, Repr

/-- The service, the position of the observer, and the calls that wait. -/
structure Waiters where
  service : Service
  delivered : ℕ
  waiters : List Waiter
  returned : List Returned
deriving DecidableEq, Repr

def Waiters.initial : Waiters := ⟨Service.initial, 0, [], []⟩

/-- What can happen next. -/
inductive WaitEvent
  | lifecycle (e : Event)
  | wait
  /-- The call at a place goes on: it reads the status, subscribes or receives a status. -/
  | advance (i : ℕ)
  /-- The observer delivers the next status to its subscribers. -/
  | deliver
  /-- The context of the call at a place is done. -/
  | cancel (i : ℕ)
deriving DecidableEq, Repr

/-- What a status that is read or received means for the call: it returns nil, it returns an error,
or it goes on. -/
def Status.outcome : Status → Option Bool
  | .started => some true
  | .starting => none
  | .idle | .stopping | .fatal => some false

/-- The call at the place `i` returns. -/
def Waiters.leave (s : Waiters) (i : ℕ) (w : Waiter) (ok : Bool) : Waiters :=
  { s with
    waiters := resume s.waiters i []
    returned := s.returned ++ [⟨ok, w.sawStarted⟩] }

/-- The call at the place `i` goes on in another phase. -/
def Waiters.goOn (s : Waiters) (i : ℕ) (w : Waiter) (phase : WaitPhase) : Waiters :=
  { s with waiters := resume s.waiters i [{ w with phase := phase }] }

/-- One step of the call `w` at the place `i`. -/
def Waiters.advance (s : Waiters) (i : ℕ) (w : Waiter) : Waiters :=
  match w.phase with
  | .read =>
    match s.service.status.outcome with
    | some ok => s.leave i w ok
    | none => s.goOn i w .subscribe
  | .subscribe => s.goOn i w (.receive s.delivered)
  | .receive position =>
    if position < s.delivered then
      match (s.service.emitted.getD position .idle).outcome with
      | some ok => s.leave i w ok
      | none => s.goOn i w (.receive (position + 1))
    else s

/-- One event. -/
def waitStep (s : Waiters) : WaitEvent → Waiters
  | .lifecycle e =>
    { s with
      service := step s.service e
      waiters := s.waiters.map fun w =>
        { w with sawStarted := w.sawStarted || (step s.service e).status = .started } }
  | .wait =>
    { s with
      waiters := s.waiters ++
        [⟨.read, s.service.emitted.length, s.service.status = .started⟩] }
  | .advance i =>
    match s.waiters[i]? with
    | none => s
    | some w => s.advance i w
  | .deliver =>
    if s.delivered < s.service.emitted.length then { s with delivered := s.delivered + 1 } else s
  | .cancel i =>
    match s.waiters[i]? with
    | none => s
    | some w => s.leave i w false

/-! ### The property and the condition -/

/-- The call waits for a status, and none is on its way to it. -/
def Waiters.Blocked (s : Waiters) (w : Waiter) : Prop := w.phase = .receive s.service.emitted.length

/-- With no lifecycle call in progress, and every status delivered, no call is blocked; a call that
returned nil has seen a service that was started during the call. -/
structure WakesUp (s : Waiters) : Prop where
  awake : s.service.holder = none → s.service.waiting = [] →
    s.delivered = s.service.emitted.length → ∀ w ∈ s.waiters, ¬ s.Blocked w
  truth : ∀ r ∈ s.returned, r.ok = true → r.sawStarted = true

/-- When a call subscribes, the service is still starting, or a status that ends the start is on its
way to the observer; and no `started` from before the call is. -/
def SubscribesInTime (s : Waiters) : WaitEvent → Prop
  | .advance i =>
    match s.waiters[i]? with
    | some ⟨.subscribe, begun, _⟩ =>
      (s.service.status = .starting ∨
        ∃ status ∈ s.service.emitted.drop s.delivered, status ≠ .starting) ∧
      ∀ status ∈ (s.service.emitted.take begun).drop s.delivered, status ≠ .started
    | _ => True
  | _ => True

/-! ### The invariant -/

theorem step_emitted (s : Service) (e : Event) :
    ((step s e).emitted = s.emitted ∧ (step s e).status = s.status) ∨
      (step s e).emitted = s.emitted ++ [(step s e).status] := by
  cases e with
  | call kind => exact .inl ⟨rfl, rfl⟩
  | interruptStart i =>
    have hs : s.interruptStart.emitted = s.emitted ∧ s.interruptStart.status = s.status := by
      unfold interruptStart
      split_ifs <;> exact ⟨rfl, rfl⟩
    rw [step]
    split
    · exact .inl ⟨rfl, rfl⟩
    · split_ifs
      · exact .inl ⟨rfl, rfl⟩
      · exact .inl hs
  | acquire i =>
    rw [step]
    split
    · split_ifs <;> exact .inl ⟨rfl, rfl⟩
    · exact .inl ⟨rfl, rfl⟩
  | advance ok =>
    rw [step]
    split
    · exact .inl ⟨rfl, rfl⟩
    · rename_i phase hh
      cases phase with
      | startTake =>
        unfold advance
        cases s.instance_ <;> exact .inr rfl
      | build =>
        unfold advance
        cases ok <;> exact .inl ⟨rfl, rfl⟩
      | finish i started =>
        unfold advance
        cases hi : s.startInterrupted with
        | true => exact .inl (by simp)
        | false => cases started <;> exact .inr (by simp [hi, updateStatus])
      | closeTake =>
        simp only [advance]
        split_ifs
        · exact .inl ⟨rfl, rfl⟩
        · exact .inr rfl
      | startBegin => exact .inr rfl
      | buildFailed => exact .inr rfl
      | closeIdle => exact .inr rfl
      | _ => exact .inl ⟨rfl, rfl⟩

/-- What a call knows: whenever it can still receive `started`, or reads it, the service was started
during the call; and a subscriber has a status before it that ends its wait, or the service is
starting. -/
structure WaiterOk (emitted : List Status) (status : Status) (delivered : ℕ) (w : Waiter) :
    Prop where
  current : status = .started → w.sawStarted = true
  begun : w.begun ≤ emitted.length
  since : .started ∈ emitted.drop w.begun → w.sawStarted = true
  receive : ∀ position, w.phase = .receive position →
    position ≤ delivered ∧ (.started ∈ emitted.drop position → w.sawStarted = true) ∧
    (status = .starting ∨ ∃ st ∈ emitted.drop position, st ≠ .starting)

/-- The invariant. -/
structure InTime (s : Waiters) : Prop where
  service : Sound s.service
  delivered : s.delivered ≤ s.service.emitted.length
  waiters : ∀ w ∈ s.waiters, WaiterOk s.service.emitted s.service.status s.delivered w
  truth : ∀ r ∈ s.returned, r.ok = true → r.sawStarted = true

theorem InTime.initial : InTime Waiters.initial := ⟨Sound.initial, Nat.le_refl 0, nofun, nofun⟩

variable {s : Waiters}

theorem InTime.wakesUp (h : InTime s) : WakesUp s := by
  refine ⟨fun hh hwa _ w hw hb => ?_, h.truth⟩
  obtain ⟨-, -, hsting | ⟨st, hst, -⟩⟩ := (h.waiters w hw).receive _ hb
  · rcases h.service.truthful.settled hh hwa with ⟨hs, -⟩ | ⟨hi | hf, -⟩
    · rw [hsting] at hs
      cases hs
    · rw [hsting] at hi
      cases hi
    · rw [hsting] at hf
      cases hf
  · rw [drop_length] at hst
    cases hst

variable {status : Status} {w : Waiter}

theorem WaiterOk.emit {emitted : List Status} {delivered : ℕ}
    (h : WaiterOk emitted status delivered w) (hd : delivered ≤ emitted.length)
    (st : Status) : WaiterOk (emitted ++ [st]) st delivered
      { w with sawStarted := w.sawStarted || st = .started } := by
  have hm : ∀ position ≤ emitted.length, .started ∈ (emitted ++ [st]).drop position →
      .started ∈ emitted.drop position ∨ st = .started := by
    intro position hpos hm
    rw [drop_append_of_le_length hpos, mem_append, mem_singleton] at hm
    exact hm.imp_right Eq.symm
  refine ⟨fun hn => by simp [hn], ?_, fun hs => ?_, fun position hph => ?_⟩
  · rw [length_append]
    exact Nat.le_add_right_of_le h.begun
  · rcases hm w.begun h.begun hs with ho | hn
    · simp [h.since ho]
    · simp [hn]
  · obtain ⟨hle, hst, -⟩ := h.receive position hph
    have hpos := Nat.le_trans hle hd
    refine ⟨hle, fun hs => ?_, ?_⟩
    · rcases hm position hpos hs with ho | hn
      · simp [hst ho]
      · simp [hn]
    · by_cases hn : st = .starting
      · exact .inl hn
      · refine .inr ⟨st, ?_, hn⟩
        rw [drop_append_of_le_length hpos]
        exact mem_append_right _ (mem_singleton_self _)

theorem InTime.lifecycle (h : InTime s) (e : Event) : InTime (waitStep s (.lifecycle e)) := by
  refine ⟨h.service.step e, ?_, fun w hw => ?_, h.truth⟩
  · refine Nat.le_trans h.delivered ?_
    rcases step_emitted s.service e with ⟨hsa, -⟩ | hn
    · exact Nat.le_of_eq (congrArg length hsa).symm
    · simp [waitStep, hn]
  · obtain ⟨old, ho, rfl⟩ := mem_map.mp hw
    have hok := h.waiters old ho
    rcases step_emitted s.service e with ⟨hsa, hstat⟩ | hn
    · simp only [waitStep, hsa, hstat]
      refine ⟨fun hc => ?_, hok.begun, fun hs => ?_, fun position hph => ?_⟩
      · simp [hc]
      · simp [hok.since hs]
      · obtain ⟨hle, hst, he⟩ := hok.receive position hph
        exact ⟨hle, fun hs => by simp [hst hs], he⟩
    · simp only [waitStep, hn]
      exact hok.emit h.delivered _

theorem InTime.leave (h : InTime s) (i : ℕ) (w : Waiter) {ok : Bool}
    (hs : ok = true → w.sawStarted = true) : InTime (s.leave i w ok) := by
  refine ⟨h.service, h.delivered, fun w' hw' => ?_, fun r hr hok => ?_⟩
  · exact h.waiters w' ((mem_resume hw').resolve_right nofun)
  · rcases mem_append.mp hr with ho | hn
    · exact h.truth r ho hok
    · rw [mem_singleton.mp hn] at hok ⊢
      exact hs hok

theorem InTime.goOn (h : InTime s) (i : ℕ) (hw : w ∈ s.waiters) {phase : WaitPhase}
    (hr : ∀ position, phase = .receive position → position ≤ s.delivered ∧
      (.started ∈ s.service.emitted.drop position → w.sawStarted = true) ∧
      (s.service.status = .starting ∨ ∃ st ∈ s.service.emitted.drop position, st ≠ .starting)) :
    InTime (s.goOn i w phase) := by
  refine ⟨h.service, h.delivered, fun w' hw' => ?_, h.truth⟩
  rcases mem_resume hw' with ho | hn
  · exact h.waiters w' ho
  · rw [mem_singleton.mp hn]
    have hok := h.waiters w hw
    exact ⟨hok.current, hok.begun, hok.since, hr⟩

theorem outcome_eq_some_true (h : status.outcome = some true) : status = .started := by
  cases status <;> first | rfl | cases h

theorem outcome_eq_none (h : status.outcome = none) : status = .starting := by
  cases status <;> first | rfl | cases h

theorem mem_drop_or {α : Type*} {l : List α} {a : α} {begun delivered : ℕ}
    (h : a ∈ l.drop delivered) : a ∈ (l.take begun).drop delivered ∨ a ∈ l.drop begun := by
  rw [← take_append_drop begun l, drop_append, mem_append] at h
  exact h.imp_right mem_of_mem_drop

theorem InTime.advance (h : InTime s) {i : ℕ} (hw : s.waiters[i]? = some w)
    (hc : SubscribesInTime s (.advance i)) : InTime (s.advance i w) := by
  have hm : w ∈ s.waiters := mem_of_getElem? hw
  have hok := h.waiters w hm
  obtain ⟨phase, begun, sawStarted⟩ := w
  simp only [SubscribesInTime, hw] at hc
  cases phase with
  | read =>
    simp only [Waiters.advance]
    cases ho : s.service.status.outcome with
    | none => exact h.goOn i hm nofun
    | some ok =>
      refine h.leave i _ fun ht => ?_
      subst ht
      exact hok.current (outcome_eq_some_true ho)
  | subscribe =>
    obtain ⟨he, hea⟩ := hc
    refine h.goOn i hm fun position hpos => ?_
    cases hpos
    refine ⟨Nat.le_refl _, fun hs => ?_, he⟩
    rcases mem_drop_or hs with hp | hsi
    · exact absurd rfl (hea _ hp)
    · exact hok.since hsi
  | receive position =>
    obtain ⟨-, hs, he⟩ := hok.receive position rfl
    simp only [Waiters.advance]
    split_ifs with hlt
    · have hl : position < s.service.emitted.length := Nat.lt_of_lt_of_le hlt h.delivered
      have hg : s.service.emitted.getD position .idle = s.service.emitted[position] := by
        simp [hl]
      have hd := drop_eq_getElem_cons hl
      rw [hg]
      rw [hd] at hs he
      cases ho : s.service.emitted[position].outcome with
      | none =>
        -- The service was starting: what ends the wait comes later.
        have hsting := outcome_eq_none ho
        refine h.goOn i hm fun next hn => ?_
        cases hn
        refine ⟨hlt, fun hlat => hs (mem_cons_of_mem _ hlat), ?_⟩
        refine he.imp_right ?_
        rintro ⟨st, hst, hne⟩
        rcases mem_cons.mp hst with rfl | hst
        · exact absurd hsting hne
        · exact ⟨st, hst, hne⟩
      | some ok =>
        refine h.leave i _ fun ht => hs ?_
        subst ht
        rw [outcome_eq_some_true ho]
        exact mem_cons_self
    · exact h

theorem InTime.step (h : InTime s) {e : WaitEvent} (hc : SubscribesInTime s e) :
    InTime (waitStep s e) := by
  cases e with
  | lifecycle e => exact h.lifecycle e
  | wait =>
    refine ⟨h.service, h.delivered, fun w hw => ?_, h.truth⟩
    rcases mem_append.mp hw with ho | hn
    · exact h.waiters w ho
    · rw [mem_singleton.mp hn]
      refine ⟨fun hcur => decide_eq_true hcur, Nat.le_refl _, fun hs => ?_, nofun⟩
      simp [waitStep] at hs
  | advance i =>
    rw [waitStep]
    split
    · exact h
    · rename_i w hw
      exact h.advance hw hc
  | deliver =>
    rw [waitStep]
    split_ifs with hlt
    · refine ⟨h.service, hlt, fun w hw => ?_, h.truth⟩
      have hok := h.waiters w hw
      refine ⟨hok.current, hok.begun, hok.since, fun position hph => ?_⟩
      obtain ⟨hle, hr⟩ := hok.receive position hph
      exact ⟨Nat.le_succ_of_le hle, hr⟩
    · exact h
  | cancel i =>
    rw [waitStep]
    split
    · exact h
    · exact h.leave i _ nofun

/-! ### Runs -/

/-- In every run in which calls subscribe in time, all calls wake up, and none is told that the
service is started when it was not. -/
theorem run_wakesUp (events : ℕ → WaitEvent)
    (hcond : ∀ n, SubscribesInTime (run waitStep Waiters.initial events n) (events n)) (n : ℕ) :
    WakesUp (run waitStep Waiters.initial events n) := by
  suffices hi : InTime (run waitStep Waiters.initial events n) from hi.wakesUp
  induction n with
  | zero => exact InTime.initial
  | succ n ih => exact ih.step (hcond n)

instance (s : Waiters) (e : WaitEvent) : Decidable (SubscribesInTime s e) := by
  unfold SubscribesInTime
  repeat' split
  all_goals infer_instance

/-- The steps of a start that nothing interrupts, up to its last section. -/
def startUpToFinish : List WaitEvent :=
  [.lifecycle (.call .startOrReloadService), .lifecycle (.interruptStart 0),
    .lifecycle (.acquire 0), .lifecycle (.advance true), .lifecycle (.advance true),
    .lifecycle (.advance true), .lifecycle (.advance true)]

/-- A call subscribes while the service is starting, and is told that it has started. -/
def waitAndStart : List WaitEvent :=
  startUpToFinish ++ [.deliver, .wait, .advance 0, .advance 0, .lifecycle (.advance true), .deliver,
    .advance 0]

theorem run_wakesUp_example :
    WakesUp (run waitStep Waiters.initial (fun n => waitAndStart.getD n .deliver) 14) ∧
    (run waitStep Waiters.initial (fun n => waitAndStart.getD n .deliver) 14).returned =
      [⟨true, true⟩] := by
  refine ⟨run_wakesUp _ ?_ 14, by decide +kernel⟩
  exact forall_getD _ _ (by decide +kernel) fun _ => trivial

/-- The service is started between the moment a call reads its status and the moment it
subscribes. -/
def startedBetween : List WaitEvent :=
  startUpToFinish ++ [.deliver, .wait, .advance 0, .lifecycle (.advance true), .deliver, .advance 0]

/-- A service that was started is reloaded before its status is delivered, and a call that begins
then receives it. -/
def startedEarlier : List WaitEvent :=
  startUpToFinish ++ [.deliver, .lifecycle (.advance true),
    .lifecycle (.call .startOrReloadService), .lifecycle (.interruptStart 0),
    .lifecycle (.acquire 0), .lifecycle (.advance true), .lifecycle (.advance true),
    .lifecycle (.advance true), .wait, .advance 0, .advance 0, .deliver, .advance 0]

/-- Nothing is in progress, every status is delivered, the service is started, and the call is
blocked; and a call is told that the service has started while it is starting again. -/
theorem not_wakesUp :
    (¬ WakesUp (run waitStep Waiters.initial (fun n => startedBetween.getD n .deliver) 13) ∧
      (run waitStep Waiters.initial (fun n => startedBetween.getD n .deliver) 13).service.status =
        .started) ∧
    (¬ WakesUp (run waitStep Waiters.initial (fun n => startedEarlier.getD n .deliver) 20) ∧
      (run waitStep Waiters.initial (fun n => startedEarlier.getD n .deliver) 20).returned =
        [⟨true, false⟩]) := by
  refine ⟨⟨fun hw => ?_, by decide +kernel⟩, fun hw => ?_, by decide +kernel⟩
  · exact hw.awake (by decide +kernel) (by decide +kernel) (by decide +kernel)
      ⟨.receive 2, 1, true⟩ (by decide +kernel) (by unfold Waiters.Blocked; decide +kernel)
  · exact absurd (hw.truth ⟨true, false⟩ (by decide +kernel) rfl) (by decide)

end SingBox.Daemon
