import SingBox.XHTTP.PacketUp

/-!
# The condition variable of XHTTP packet-up

`Write` waits for room in the batch buffer and the upload loop for bytes, both on one condition
variable. Its `Wait` registers the goroutine and gives the lock back; a goroutine that has found,
with the lock, that it must wait is not registered yet. `Close`, `abort` and `fail` change what is
waited for with the lock and broadcast after they have given it back. The context is cancelled
without the lock, and its broadcast runs without it too, once and in a goroutine of its own.
-/

namespace SingBox.XHTTP

open Foundation PacketConn

variable {ι α ε : Type} [DecidableEq ι]

/-- A goroutine that waits on the condition variable. -/
inductive Party (ι : Type) where
  | writer (i : ι)
  | loop
deriving DecidableEq

namespace UploadEvent

/-- The step is a call from outside; the goroutines of the stream take the others. -/
def isCall : UploadEvent ι α ε → Bool
  | .write _ _ | .downloadFail _ | .cancel | .close => true
  | _ => false

/-- The step needs the lock. -/
def locks : UploadEvent ι α ε → Bool
  | .writeRound _ | .take | .loopCancel _ | .abort _ | .downloadFail _ | .close => true
  | _ => false

/-- The goroutine of a step that may wait. -/
def party? : UploadEvent ι α ε → Option (Party ι)
  | .writeRound i => some (.writer i)
  | .take => some .loop
  | _ => none

end UploadEvent

namespace PacketConn

/-- The stream is closed, has failed, or its context is dead. -/
def Stopped (s : PacketConn ι α ε) : Prop :=
  s.closed = true ∨ s.uploadErr.isSome = true ∨ s.ctxDone = true

instance (s : PacketConn ι α ε) : Decidable s.Stopped :=
  inferInstanceAs (Decidable (_ ∨ _ ∨ _))

/-- The goroutine of a step is where the step begins. -/
def isReady (maxInflight : ℕ) (s : PacketConn ι α ε) : UploadEvent ι α ε → Bool
  | .write i _ => match s.writers i with
    | .idle => true
    | _ => false
  | .writeRound i => match s.writers i with
    | .idle => false
    | _ => true
  | .take => s.loop = .ready
  | .issue => s.loop = .taken && s.inflight < maxInflight
  | .loopCancel _ => s.ctxDone && match s.loop with
    | .taken | .posted _ => true
    | _ => false
  | .proceed => match s.loop with
    | .posted k => s.mayProceed maxInflight k
    | _ => false
  | .wrote k => match s.post? k with
    | some p => !p.wrote && !p.ended
    | none => false
  | .respond k _ => match (s.post? k).map Post.state with
    | some .running => true
    | _ => false
  | .abort k => match (s.post? k).map Post.state with
    | some (.failed _) => true
    | _ => false
  | .finish k => match (s.post? k).map Post.state with
    | some .ending => true
    | _ => false
  | .downloadFail _ | .cancel | .close => true

/-- With the lock, a goroutine finds that it must wait. -/
def mustWait (maxPost : ℕ) (s : PacketConn ι α ε) : UploadEvent ι α ε → Bool
  | .writeRound i => match s.writers i with
    | .writing b written _ => written < b.length && !decide s.Stopped && maxPost ≤ s.pending.length
    | .idle => false
  | .take => !decide s.Stopped && s.pending.isEmpty
  | _ => false

/-- `Write` has appended, and broadcasts with the lock. -/
def appends (s : PacketConn ι α ε) : UploadEvent ι α ε → Bool
  | .writeRound i => match s.writers i with
    | .writing b written _ => written < b.length && !decide s.Stopped
    | .idle => false
  | _ => false

/-- The step is followed by a broadcast without the lock. -/
def owes (s : PacketConn ι α ε) : UploadEvent ι α ε → Bool
  | .take => !decide s.Stopped
  | .loopCancel _ | .abort _ | .downloadFail _ | .close => true
  | _ => false

end PacketConn

/-- The stream with its lock and its condition variable. -/
structure CondConn (ι α ε : Type) where
  conn : PacketConn ι α ε := {}
  /-- The goroutine that has the lock and must wait; it is not registered yet. -/
  waiting : Option (Party ι) := none
  parked : Party ι → Bool := fun _ => false
  /-- The broadcasts whose goroutines have given the lock back. -/
  owed : ℕ := 0
  /-- The context is dead and its broadcast has not run. -/
  afterFunc : Bool := false

/-- The steps. -/
inductive CondEvent (ι α ε : Type) where
  | upload (e : UploadEvent ι α ε)
  /-- `Wait` registers the goroutine and gives the lock back. -/
  | register
  /-- `Broadcast` of a goroutine that has given the lock back. -/
  | broadcast
  /-- The broadcast of the dead context. -/
  | afterFunc
deriving DecidableEq

namespace CondConn

/-- A step can be taken. -/
def enabled (maxInflight : ℕ) (s : CondConn ι α ε) : CondEvent ι α ε → Bool
  | .upload e => s.conn.isReady maxInflight e && (!e.locks || s.waiting.isNone) &&
      !(e.party?.any s.parked)
  | .register => s.waiting.isSome
  | .broadcast => 0 < s.owed
  | .afterFunc => s.afterFunc

/-- What follows a step of the stream. -/
def after (s : CondConn ι α ε) (conn : PacketConn ι α ε) (e : UploadEvent ι α ε) :
    CondConn ι α ε :=
  { s with
    conn
    parked := if s.conn.appends e then fun _ => false else s.parked
    owed := if s.conn.owes e then s.owed + 1 else s.owed
    afterFunc := s.afterFunc || (!s.conn.ctxDone && conn.ctxDone) }

/-- A step. -/
def step (maxPost maxInflight : ℕ) (s : CondConn ι α ε) (e : CondEvent ι α ε) : CondConn ι α ε :=
  if s.enabled maxInflight e then
    match e with
    | .upload e =>
      if s.conn.mustWait maxPost e then { s with waiting := e.party? }
      else s.after (s.conn.step maxPost maxInflight e) e
    | .register =>
      { s with
        waiting := none
        parked := fun p => s.parked p || s.waiting == some p }
    | .broadcast => { s with owed := s.owed - 1, parked := fun _ => false }
    | .afterFunc => { s with afterFunc := false, parked := fun _ => false }
  else s

/-- No goroutine of the stream can go on. -/
def Stuck (maxInflight : ℕ) (s : CondConn ι α ε) : Prop :=
  ∀ e, s.enabled maxInflight e = true → ∃ e', e = .upload e' ∧ e'.isCall = true

/-- In a stopped stream that cannot go on nobody is parked. -/
def NobodyLost (maxInflight : ℕ) (s : CondConn ι α ε) : Prop :=
  s.Stuck maxInflight → s.conn.Stopped → ∀ p, s.parked p = false

/-! ### The invariant -/

/-- Who is about to wait, or is parked, has seen a stream that was not stopped; if it is stopped
now, a broadcast is to come. -/
structure Inv (s : CondConn ι α ε) : Prop where
  waiting : s.waiting.isSome = true →
    s.conn.closed = false ∧ s.conn.uploadErr = none ∧ (s.conn.ctxDone = true → s.afterFunc = true)
  parked : (∃ p, s.parked p = true) → s.conn.Stopped → 0 < s.owed ∨ s.afterFunc = true

variable {e : UploadEvent ι α ε} {s : PacketConn ι α ε}

/-- A step that owes no broadcast leaves alone what stops the stream, but for the context. -/
theorem step_stops (maxPost maxInflight : ℕ) (he : s.owes e = false) :
    (s.step maxPost maxInflight e).closed = s.closed ∧
      (s.step maxPost maxInflight e).uploadErr = s.uploadErr := by
  cases e with
  | writeRound i =>
    simp only [PacketConn.step]
    split
    · exact writeRound_cases
        (P := fun s' => s'.closed = s.closed ∧ s'.uploadErr = s.uploadErr)
        (fun _ _ => ⟨rfl, rfl⟩) ⟨rfl, rfl⟩ fun _ _ _ _ => ⟨rfl, rfl⟩
    · exact ⟨rfl, rfl⟩
  | take =>
    simp only [PacketConn.step]
    split
    · unfold take
      split_ifs <;> exact ⟨rfl, rfl⟩
    · exact ⟨rfl, rfl⟩
  | issue | proceed =>
    simp only [PacketConn.step]
    split
    · split_ifs <;> exact ⟨rfl, rfl⟩
    · exact ⟨rfl, rfl⟩
  | write | respond | finish =>
    simp only [PacketConn.step]
    split <;> exact ⟨rfl, rfl⟩
  | wrote k | cancel => exact ⟨rfl, rfl⟩
  | loopCancel _ | abort _ | downloadFail _ | close => cases he

omit [DecidableEq ι] in
theorem owes_of_not_locks (h : e.locks = false) : s.owes e = false := by
  cases e <;> first | rfl | cases h

omit [DecidableEq ι] in
theorem not_stopped_of_mustWait {maxPost : ℕ} (h : s.mustWait maxPost e) : ¬ s.Stopped := by
  cases e with
  | writeRound i =>
    simp only [mustWait] at h
    split at h
    · simp only [Bool.and_eq_true, Bool.not_eq_true', decide_eq_false_iff_not] at h
      exact h.1.2
    · cases h
  | take =>
    simp only [mustWait, Bool.and_eq_true, Bool.not_eq_true', decide_eq_false_iff_not] at h
    exact h.1
  | _ => cases h

variable {s : CondConn ι α ε}

theorem Inv.after {maxPost maxInflight : ℕ} (h : Inv s) (hl : e.locks = true → s.waiting = none) :
    Inv (s.after (s.conn.step maxPost maxInflight e) e) := by
  refine ⟨fun hw => ?_, fun ⟨p, hp⟩ hs => ?_⟩
  · -- Somebody else has the lock, so the step does without it.
    have hf : e.locks = false := by
      by_contra hlo
      simp [CondConn.after, hl (by simpa using hlo)] at hw
    obtain ⟨hcl, he⟩ := step_stops maxPost maxInflight (owes_of_not_locks (s := s.conn) hf)
    obtain ⟨hcl', he', hc⟩ := h.waiting hw
    refine ⟨hcl.trans hcl', he.trans he', fun hd => ?_⟩
    cases hpre : s.conn.ctxDone with
    | true => simp [CondConn.after, hc hpre]
    | false => simpa [CondConn.after, hpre] using Or.inr hd
  · cases ho : s.conn.owes e with
    | true => exact .inl (by simp [CondConn.after, ho])
    | false =>
      obtain ⟨hcl, he⟩ := step_stops maxPost maxInflight ho
      have hpa : s.parked p = true := by
        simp only [CondConn.after] at hp
        split_ifs at hp
        exact hp
      by_cases hpre : s.conn.Stopped
      · rcases h.parked ⟨p, hpa⟩ hpre with how | hpe
        · exact .inl (by simpa [CondConn.after, ho] using how)
        · exact .inr (by simp [CondConn.after, hpe])
      · -- Only the context has been cancelled.
        simp only [PacketConn.Stopped, not_or, Bool.not_eq_true] at hpre
        simp only [CondConn.after, PacketConn.Stopped, hcl, he, hpre.1, hpre.2.1,
          Bool.false_eq_true, false_or] at hs
        exact .inr (by simp [CondConn.after, hpre.2.2, hs])

/-- The condition on a step: the broadcast of the context runs when the lock is free. -/
def FindsLockFree (s : CondConn ι α ε) (e : CondEvent ι α ε) : Prop :=
  e = .afterFunc → s.waiting = none

theorem Inv.step (maxPost maxInflight : ℕ) (h : Inv s) {e : CondEvent ι α ε}
    (hf : s.FindsLockFree e) : Inv (s.step maxPost maxInflight e) := by
  unfold CondConn.step
  split_ifs with hen
  swap
  · exact h
  cases e with
  | upload e =>
    dsimp only
    split_ifs with hw
    · have hr := not_stopped_of_mustWait hw
      simp only [PacketConn.Stopped, not_or, Bool.not_eq_true] at hr
      refine ⟨fun _ => ⟨hr.1, by simpa using hr.2.1, fun hc => ?_⟩, h.parked⟩
      simp [hr.2.2] at hc
    · refine h.after fun hl => ?_
      simp only [enabled, hl, Bool.not_true, Bool.false_or, Bool.and_eq_true,
        Option.isNone_iff_eq_none] at hen
      exact hen.1.2
  | register =>
    refine ⟨fun hs => (by cases hs), fun ⟨p, hp⟩ hst => ?_⟩
    obtain ⟨hcl, he, hc⟩ := h.waiting hen
    refine .inr (hc ?_)
    simpa [PacketConn.Stopped, hcl, he] using hst
  | broadcast => exact ⟨h.waiting, fun ⟨p, hp⟩ => by cases hp⟩
  | afterFunc =>
    refine ⟨fun hs => ?_, fun ⟨p, hp⟩ => by cases hp⟩
    simp [hf rfl] at hs

omit [DecidableEq ι] in
theorem Inv.nobodyLost {maxInflight : ℕ} (h : Inv s) : s.NobodyLost maxInflight := by
  intro hs hst p
  by_contra hp
  rw [Bool.not_eq_false] at hp
  rcases h.parked ⟨p, hp⟩ hst with ho | hpe
  · obtain ⟨_, ⟨⟩, _⟩ := hs .broadcast (by simpa [enabled] using ho)
  · obtain ⟨_, ⟨⟩, _⟩ := hs .afterFunc hpe

/-- In every run in which the broadcast of the context finds the lock free, no wake-up is lost. -/
theorem run_nobodyLost (maxPost maxInflight : ℕ) (events : ℕ → CondEvent ι α ε) (n : ℕ)
    (hfree : ∀ t < n, FindsLockFree (run (step maxPost maxInflight) {} events t) (events t)) :
    (run (step maxPost maxInflight) {} events n).NobodyLost maxInflight := by
  have hinit : Inv ({} : CondConn ι α ε) := ⟨fun hs => (by cases hs), fun ⟨p, hp⟩ => by cases hp⟩
  have hi := run_preserved (P := fun _ s => Inv s) (Nat.zero_le n) hinit
    fun t _ ht h => h.step maxPost maxInflight (hfree t ht)
  exact hi.nobodyLost

section Example

/-- The state after a trace, with batches of two bytes and two slots. -/
def condRun (trace : List (CondEvent Unit ℕ String)) : CondConn Unit ℕ String :=
  run (step 2 2) {} (fun n => trace.getD n .register) trace.length

/-- The upload loop waits for bytes, and the context is cancelled. -/
def cancelledTrace : List (CondEvent Unit ℕ String) :=
  [.upload .take, .register, .upload .cancel, .afterFunc, .upload .take]

/-- The context is cancelled, and its broadcast runs, after the upload loop has looked at it and
before the loop is registered. -/
def lostTrace : List (CondEvent Unit ℕ String) :=
  [.upload .take, .upload .cancel, .afterFunc, .register]

theorem stuck_of_quiet {maxInflight : ℕ} {s : CondConn Unit ℕ String} (hw : s.waiting = none)
    (ho : s.owed = 0) (hpe : s.afterFunc = false) (hpo : s.conn.posts = [])
    (hwr : s.conn.writers () = .idle)
    (hl : s.conn.loop = .exited ∨ s.conn.loop = .ready ∧ s.parked .loop = true) :
    s.Stuck maxInflight := by
  have hp (k : ℕ) : s.conn.post? k = none := by simp [post?, hpo]
  intro e he
  cases e with
  | upload e =>
    refine ⟨e, rfl, ?_⟩
    cases e <;> rcases hl with hl | ⟨hl, hpa⟩ <;>
      simp_all [enabled, isReady, UploadEvent.isCall, UploadEvent.party?]
  | register => simp [enabled, hw] at he
  | broadcast => simp [enabled, ho] at he
  | afterFunc => simp [enabled, hpe] at he

theorem run_nobodyLost_example :
    let s := condRun cancelledTrace
    s.Stuck 2 ∧ s.conn.Stopped ∧ ∀ p, s.parked p = false := by
  have hs : (condRun cancelledTrace).Stuck 2 := stuck_of_quiet rfl rfl rfl rfl rfl (.inl rfl)
  have hst : (condRun cancelledTrace).conn.Stopped := .inr (.inr rfl)
  refine ⟨hs, hst, run_nobodyLost 2 2 (fun n => cancelledTrace.getD n .register)
    cancelledTrace.length ?_ hs hst⟩
  intro t ht ha
  rcases t with _ | _ | _ | _ | _ | t
  · cases ha
  · cases ha
  · cases ha
  · rfl
  · cases ha
  · exact absurd ht (by simp [cancelledTrace])

/-- The upload loop stays parked, with a cancelled context and nobody left to wake it. -/
theorem not_nobodyLost : ¬ (condRun lostTrace).NobodyLost 2 := by
  have hs : (condRun lostTrace).Stuck 2 := stuck_of_quiet rfl rfl rfl rfl rfl (.inr ⟨rfl, rfl⟩)
  intro hl
  exact absurd (hl hs (.inr (.inr rfl)) .loop) (by decide)

end Example

end CondConn

end SingBox.XHTTP
