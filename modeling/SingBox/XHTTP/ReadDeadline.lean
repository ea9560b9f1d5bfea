import SingBox.Foundation.Run

/-!
# Read deadlines of a stream

`streamConn` and `splitConn` share their read side. A `Read` waits until the response reader is
bound or the deadline is dead, and then reads from the reader. The expiry of a deadline is final: it
marks the deadline dead and afterwards, outside the lock, closes the reader if there is one. A
reader that is bound later stays open, and a `Read` that finds both channels of its select ready may
choose it (`timely_iff`).

Sections under the lock and channel operations are steps.
-/

namespace SingBox.XHTTP

open Function List Foundation

/-- What `setupReader` has bound. -/
inductive BoundReader
  | unbound
  | failed
  | live
  | closed
deriving DecidableEq

/-- `Close` of the reader, where there is one. -/
def BoundReader.close : BoundReader → BoundReader
  | .live => .closed
  | r => r

/-- Where a call of `Read` is, and whether it came back with bytes. -/
inductive ReadCall
  | idle
  | selecting
  | reading
  | returned (ok : Bool)
deriving DecidableEq

/-- The two sections of `Close`, which run once: it stops the deadline, then it closes the reader.
The `cancel()` behind them is left out: it ends a request that is still pending, and whether and
when the reader is set up is an event of its own. -/
inductive Closing
  | no
  | stopped
  | done

/-- The read side of a connection. The callers of `Read` are numbered. -/
structure ReadSide where
  now : ℕ := 0
  /-- The deadline last set. The code keeps only its timer. -/
  deadline : Option ℕ := none
  timer : Option ℕ := none
  /-- Timers that have gone off and wait for the lock. -/
  expiring : ℕ := 0
  expired : Bool := false
  /-- `onExpire` is next. -/
  firing : Bool := false
  reader : BoundReader := .unbound
  closing : Closing := .no
  reads : ℕ → ReadCall := fun _ => .idle

inductive ReadEvent
  | tick
  | setReadDeadline (t : Option ℕ)
  | fire
  | expire
  | runOnExpire
  | setupReader (ok : Bool)
  | close
  | read (i : ℕ)
  /-- The caller goes on. If both channels are ready it takes the dead deadline according to
  `dead`; the answer is what the peer lets an open reader return, if it does. -/
  | advance (i : ℕ) (dead : Bool) (answer : Option Bool)

namespace ReadSide

def expireLocked (s : ReadSide) : ReadSide :=
  if s.expired then s else { s with expired := true, firing := true }

def set (s : ReadSide) (t : Option ℕ) : ReadSide :=
  let s := { s with timer := none, deadline := t }
  match t with
  | none => s
  | some t =>
    if s.expired then s else if t ≤ s.now then s.expireLocked else { s with timer := some t }

/-- `Read`, from where it is. -/
def advance (s : ReadSide) (dead : Bool) (answer : Option Bool) : ReadCall → ReadCall
  | .selecting =>
    if s.expired ∧ (dead ∨ s.reader = .unbound) then .returned false
    else match s.reader with
      | .unbound => .selecting
      | .failed => .returned false
      | _ => .reading
  | .reading =>
    -- A call that is here has found a reader, which is never unbound again.
    match s.reader, answer with
    | .live, none => .reading
    | .live, some ok => .returned ok
    | _, _ => .returned false
  | c => c

def step (s : ReadSide) : ReadEvent → ReadSide
  | .tick => { s with now := s.now + 1 }
  | .setReadDeadline t => s.set t
  | .fire =>
    match s.timer with
    | some t => if t ≤ s.now then { s with timer := none, expiring := s.expiring + 1 } else s
    | none => s
  | .expire =>
    if s.expiring = 0 then s else { s with expiring := s.expiring - 1 }.expireLocked
  | .runOnExpire => if s.firing then { s with firing := false, reader := s.reader.close } else s
  | .setupReader ok =>
    if s.reader = .unbound then { s with reader := if ok then .live else .failed } else s
  | .close =>
    match s.closing with
    | .no => { s with timer := none, closing := .stopped }
    | .stopped => { s with reader := s.reader.close, closing := .done }
    | .done => s
  | .read i =>
    if s.reads i = .selecting ∨ s.reads i = .reading then s
    else { s with reads := update s.reads i .selecting }
  | .advance i dead answer =>
    { s with reads := update s.reads i (s.advance dead answer (s.reads i)) }

/-- The connection after a run from its creation. -/
def after (events : List ReadEvent) : ReadSide := events.foldl step {}

/-- The expiry of a deadline has run, its callback included. -/
def Over (s : ReadSide) : Prop := s.expired ∧ ¬s.firing

/-- The deadline last set has expired. -/
def Overdue (s : ReadSide) : Prop := (∃ t ∈ s.deadline, t ≤ s.now) ∧ s.Over

/-- A step of the caller. -/
def own (i : ℕ) : ReadEvent → Bool
  | .advance j _ _ => j = i
  | _ => false

/-- A call of `Read` that is under way when the deadline last set has expired, or that begins
later, returns with an error after `n` steps of its own, unless another deadline is set. -/
def TimelyWithin (n : ℕ) (events : List ReadEvent) : Prop :=
  ∀ pre post i, events = pre ++ post → (after pre).Overdue →
    (after pre).reads i = .selecting ∨ (after pre).reads i = .reading →
    (∀ t, .setReadDeadline t ∉ post) → .read i ∉ post → n ≤ post.countP (own i) →
    (after events).reads i = .returned false

/-- The step binds no reader after the callback of the expiry has looked for one. -/
def MayBind (s : ReadSide) (e : ReadEvent) : Prop :=
  e = .setupReader true → s.reader = .unbound → ¬s.Over

/-- After the expiry no reader is open. -/
def Shut (s : ReadSide) : Prop := s.Over → s.reader ≠ .live

variable {s : ReadSide} {e : ReadEvent} {events : List ReadEvent}

theorem close_ne_live (r : BoundReader) : r.close ≠ .live := by
  cases r <;> nofun

theorem expireLocked_reader : s.expireLocked.reader = s.reader := by
  unfold expireLocked
  split <;> rfl

theorem over_expireLocked : s.expireLocked.Over ↔ s.Over := by
  unfold expireLocked
  split
  · rfl
  · next h => simp [Over, h]

theorem set_spec (t : Option ℕ) : (s.set t).reader = s.reader ∧ ((s.set t).Over ↔ s.Over) := by
  simp only [set]
  repeat' split
  all_goals first | exact ⟨rfl, .rfl⟩ | exact ⟨expireLocked_reader, over_expireLocked⟩

open ReadSide

/-- An expiry is final. -/
theorem Over.step (h : s.Over) : (s.step e).Over := by
  cases e with
  | setReadDeadline t => exact (set_spec t).2.mpr h
  | expire =>
    simp only [step]
    split
    · exact h
    · exact over_expireLocked.mpr h
  | runOnExpire => simpa only [step, if_neg h.2] using h
  | tick | advance => exact h
  | fire | setupReader | close | read =>
    simp only [step]
    repeat' split
    all_goals exact h

theorem Shut.step (h : s.Shut) (hm : s.MayBind e) : (s.step e).Shut := by
  cases e with
  | setReadDeadline t => exact fun ho => (set_spec t).1.trans_ne (h ((set_spec t).2.mp ho))
  | expire =>
    simp only [step]
    split
    · exact h
    · intro ho
      have hs := over_expireLocked.mp ho
      exact expireLocked_reader.trans_ne (h hs)
  | runOnExpire =>
    simp only [step]
    split
    · exact fun _ => close_ne_live _
    · exact h
  | setupReader ok =>
    simp only [step]
    split
    · next hr =>
      cases ok with
      | true => exact fun ho => absurd ho (hm rfl hr)
      | false => exact fun _ => nofun
    · exact h
  | close =>
    simp only [step]
    split
    · exact h
    · exact fun _ => close_ne_live _
    · exact h
  | tick | advance => exact h
  | fire | read =>
    simp only [step]
    repeat' split
    all_goals exact h

/-- A call that fails after at most `n` further steps of its own. -/
def Within (n : ℕ) : ReadCall → Prop
  | .idle => False
  | .selecting => 2 ≤ n
  | .reading => 1 ≤ n
  | .returned ok => ok = false

section Within

variable {n : ℕ} {i : ℕ}

/-- The dead deadline ends the select, and the reader that it may lead to is closed. -/
theorem within_advance {c : ReadCall} {dead : Bool} {answer : Option Bool} (h : s.Over)
    (hs : s.Shut) (hc : Within n c) : Within (n - 1) (s.advance dead answer c) := by
  have hl := hs h
  cases c with
  | selecting =>
    have hn : 2 ≤ n := hc
    cases hr : s.reader <;> cases dead <;> simp_all [advance, Within, h.1]; omega
  | reading => cases hr : s.reader <;> simp_all [advance, Within]
  | _ => exact hc

theorem reads_step (hr : e ≠ .read i) (ho : own i e = false) : (s.step e).reads i = s.reads i := by
  cases e with
  | setReadDeadline t =>
    simp only [step, set, expireLocked]
    repeat' split
    all_goals rfl
  | read j =>
    simp only [step]
    split
    · rfl
    · exact update_of_ne (fun hj : i = j => hr (hj ▸ rfl)) _ _
  | advance j dead answer =>
    exact update_of_ne (fun hj => of_decide_eq_false ho hj.symm) _ _
  | tick => rfl
  | fire | expire | runOnExpire | setupReader | close =>
    simp only [step, expireLocked]
    repeat' split
    all_goals rfl

theorem within_step (h : s.Over) (hs : s.Shut) (hr : e ≠ .read i) (hn : Within n (s.reads i)) :
    Within (n - if own i e then 1 else 0) ((s.step e).reads i) := by
  cases ho : own i e with
  | false => exact (reads_step hr ho).symm ▸ hn
  | true =>
    cases e with
    | advance j dead answer =>
      obtain rfl : j = i := of_decide_eq_true ho
      simpa [step] using within_advance h hs hn
    | _ => cases ho

theorem within_run (hb : Along step MayBind s events) (h : s.Over) (hs : s.Shut)
    (hr : .read i ∉ events) (hn : Within n (s.reads i)) :
    Within (n - events.countP (own i)) ((events.foldl step s).reads i) := by
  induction events generalizing s n with
  | nil => exact hn
  | cons e events ih =>
    have hr := not_or.mp (mt mem_cons.mpr hr)
    have hw := ih hb.2 h.step (hs.step hb.1) hr.2 (within_step h hs (Ne.symm hr.1) hn)
    rwa [Nat.sub_sub, Nat.add_comm, ← countP_cons] at hw

end Within

theorem along_of_forall (h : ∀ ok, .setupReader ok ∉ events) : Along step MayBind s events := by
  induction events generalizing s with
  | nil => trivial
  | cons e events ih =>
    refine ⟨fun he => absurd (he ▸ mem_cons_self) (h true), ih fun ok hok => h ok ?_⟩
    exact mem_cons_of_mem _ hok

theorem timelyWithin_two (hb : Along step MayBind {} events) : TimelyWithin 2 events := by
  rintro pre post i rfl ho hc - hr hn
  obtain ⟨hpr, hp⟩ := along_append.mp hb
  have hs : (after pre).Shut := hpr.foldl (fun ho => nomatch ho.1) fun _ _ => Shut.step
  have hw : Within 2 ((after pre).reads i) := by
    rcases hc with hc | hc <;> simp [hc, Within]
  have hw := within_run hp ho.2 hs hr hw
  rw [Nat.sub_eq_zero_of_le hn, ← after, after, ← foldl_append] at hw
  revert hw
  rw [after]
  cases ((pre ++ post).foldl step {}).reads i <;> simp [Within]

/-- Nothing ends a call of `Read` on an open reader whose peer is silent. -/
theorem hangs {i : ℕ} (hr : s.reader = .live)
    (hc : s.reads i = .selecting ∨ s.reads i = .reading) (n : ℕ) :
    ((replicate n (.advance i false none)).foldl step s).reads i ≠ .returned false := by
  induction n generalizing s with
  | zero => rcases hc with hc | hc <;> simp [hc]
  | succ n ih =>
    refine ih hr (.inr ?_)
    rcases hc with hc | hc <;> simp [step, advance, hc, hr]

/-- A deadline that is over is set, and `Read` is called. -/
def late (s : ReadSide) : List ReadEvent := [.setReadDeadline (some s.now), .read 0]

theorem late_spec (h : s.Over) (hr : s.reader = .live) :
    (s.late.foldl step s).Overdue ∧ (s.late.foldl step s).reader = .live ∧
      ((s.late.foldl step s).reads 0 = .selecting ∨ (s.late.foldl step s).reads 0 = .reading) := by
  have hs : s.set (some s.now) = { s with timer := none, deadline := some s.now } := by
    simp [set, h.1]
  simp only [late, foldl_cons, foldl_nil, step, hs]
  split
  · next hc => exact ⟨⟨⟨_, rfl, Nat.le_refl _⟩, h⟩, hr, hc⟩
  · exact ⟨⟨⟨_, rfl, Nat.le_refl _⟩, h⟩, hr, .inl (by simp)⟩

/-- A call that the peer leaves waiting is not timely, if its deadline is over and the reader
open. -/
theorem not_timelyWithin {pre : List ReadEvent} (h : (after pre).Overdue)
    (hr : (after pre).reader = .live)
    (hc : (after pre).reads 0 = .selecting ∨ (after pre).reads 0 = .reading) (n : ℕ) :
    ¬TimelyWithin n (pre ++ replicate n (.advance 0 false none)) := by
  intro ht
  refine hangs hr hc n ?_
  rw [after, ← foldl_append]
  refine ht pre _ 0 rfl h hc (by simp) (by simp) ?_
  rw [countP_replicate]
  simp [own]

/-- A run binds no reader after an expiry exactly if, from each of its moments on and as long as no
reader is bound, every call of `Read` comes back with an error from an expired deadline after a
bounded number of its steps. -/
theorem timely_iff (events : List ReadEvent) :
    Along step MayBind {} events ↔ ∃ n, ∀ pre more, pre <+: events →
      (∀ ok, .setupReader ok ∉ more) → TimelyWithin n (pre ++ more) := by
  constructor
  · intro h
    refine ⟨2, ?_⟩
    rintro pre more ⟨rest, rfl⟩ hm
    have hpr := (along_append.mp h).1
    exact timelyWithin_two (along_append.mpr ⟨hpr, along_of_forall hm⟩)
  · rintro ⟨n, h⟩
    induction events using reverseRecOn with
    | nil => trivial
    | append_singleton events e ih =>
      have hpr := ih fun pre more hp => h pre more (hp.trans (prefix_append _ _))
      refine along_append.mpr ⟨hpr, ?_, trivial⟩
      rintro rfl hr ho
      -- The reader is bound after the expiry, so that a call which chooses it waits forever.
      have hs : after (events ++ [.setupReader true]) = { after events with reader := .live } := by
        rw [after, foldl_append]
        exact if_pos hr
      have hl := late_spec (s := { after events with reader := .live }) ho rfl
      rw [← hs, after, ← foldl_append, ← after] at hl
      refine not_timelyWithin hl.1 hl.2.1 hl.2.2 n ?_
      rw [append_assoc]
      exact h _ _ prefix_rfl (by simp [late])

/-- The reader is bound after the timer has gone off, and a call of `Read` that chooses it
never returns. -/
theorem late_reader_hangs : ¬∃ n, TimelyWithin n
    ([.setReadDeadline (some 1), .tick, .fire, .expire, .runOnExpire, .setupReader true, .read 0] ++
      replicate n (.advance 0 false none)) := by
  rintro ⟨n, h⟩
  refine absurd h (not_timelyWithin ?_ rfl (.inl rfl) n)
  exact ⟨⟨1, rfl, Nat.le_refl _⟩, rfl, nofun⟩

end ReadSide

end SingBox.XHTTP
