import SingBox.Foundation.Run

/-!
# The DNS query multiplexer

A multiplexer sends many queries over one connection. A query that is written has an entry in a
table under its 16-bit id, and its callback belongs to the entry: a response, the end of its
context, the death of its connection or a failed write takes the entry out of the table and
answers the query, or hands its callback to a new attempt.

The goroutines are tasks, and every locked section and every call that may block is a step. The
callback of a query is held by the table or by a task, and `Multiplexer.held` counts the holders.
A failed write takes what stands under the id of its query at that time, and the count is kept if
that is the query's own entry. It is: as long as no query waits for 65536 others, the ids go round
without skipping one, and none is given away again while its query is pending or being written.
-/

namespace SingBox.DNS.Multiplex

open Foundation List Option

/-- An entry of the table: the query whose callback it holds, the number of its registration, and
whether a read error is retried. -/
structure Pending where
  serial : ℕ
  query : ℕ
  retry : Bool
deriving DecidableEq, Repr

/-- The two functions that `register` schedules for the end of a context. -/
inductive HookKind
  | contextDone
  | connDone
deriving DecidableEq, Repr

/-- A goroutine, or a scheduled function. -/
inductive Task
  /-- `exchangeAsync` before it acquires a connection. -/
  | attempt (query : ℕ) (retryReadError firstAttempt : Bool)
  /-- `exchangeAsync` before it registers the query. -/
  | acquired (query : ℕ) (retryReadError firstAttempt created : Bool)
  /-- `exchangeAsync` in the write of the message. -/
  | writing (query : ℕ) (retryReadError firstAttempt created : Bool) (serial queryId : ℕ)
  /-- A scheduled function, which runs once it is fired. -/
  | hook (kind : HookKind) (fired : Bool) (serial queryId : ℕ)
  /-- `exchangeSingle`, on a connection of its own. -/
  | single (query : ℕ)
  /-- A goroutine that is about to call the callback. -/
  | reply (query : ℕ)
deriving DecidableEq, Repr

/-- The state of a multiplexer. Queries and registrations are numbered; `calls` counts the calls of
the callback of each query. -/
structure Multiplexer where
  queryId : ℕ := 0
  queries : List (ℕ × Pending) := []
  tasks : List Task := []
  accepted : ℕ := 0
  serial : ℕ := 0
  calls : ℕ → ℕ := fun _ => 0

/-- What can happen. An index names a task. -/
inductive Event
  | exchangeAsync (single : Bool)
  | acquireError (i : ℕ)
  | acquire (i : ℕ) (created : Bool)
  | register (i : ℕ)
  | writeDone (i : ℕ)
  | writeError (i : ℕ)
  | response (queryId : ℕ)
  | fire (i : ℕ)
  | runHook (i : ℕ) (readFailed single : Bool)
  | singleDone (i : ℕ)
  | callback (i : ℕ)
deriving DecidableEq, Repr

/-- An armed function of a registration, which `stop` removes. -/
def Task.armed (serial : ℕ) : Task → Bool
  | .hook _ false n _ => n == serial
  | _ => false

/-- The task holds the callback of a query. A write does not: the callback is in the table. -/
def Task.holds (query : ℕ) : Task → Bool
  | .attempt q _ _ | .acquired q _ _ _ | .single q | .reply q => q == query
  | _ => false

/-- The goroutine that `dispatch` starts; which one depends on what the probes have found. -/
def dispatch (query : ℕ) (retryReadError single : Bool) : Task :=
  if single then .single query else .attempt query retryReadError true

namespace Multiplexer

variable (s : Multiplexer)

/-- A task is replaced by others. -/
def replace (i : ℕ) (tasks : List Task) : Multiplexer :=
  { s with tasks := s.tasks.eraseIdx i ++ tasks }

/-- The loop of `register`: the id is incremented until one is free, or until all have been
tried. The last one tried is the one from which it starts. -/
def scan (used : List ℕ) (id : ℕ) : ℕ → Option ℕ
  | 0 => none
  | k + 1 =>
    if (id + 1) % 65536 ∉ used then some ((id + 1) % 65536)
    else scan used ((id + 1) % 65536) k

/-- The id of the next registration. -/
def nextId : Option ℕ :=
  scan (s.queries.map Prod.fst) s.queryId 65536

/-- `take`: the entry of an id leaves the table and its armed functions are stopped. -/
def take (queryId : ℕ) : Option (Pending × Multiplexer) :=
  match s.queries.find? fun e => e.1 == queryId with
  | none => none
  | some e => some (e.2,
      { s with
        queries := s.queries.eraseP fun e => e.1 == queryId
        tasks := s.tasks.filter fun t => !t.armed e.2.serial })

/-- What is done with the entry that a completion has taken, if there was one. -/
def completed (taken : Option (Pending × Multiplexer)) (next : Pending → Task) : Multiplexer :=
  match taken with
  | none => s
  | some (pending, s') => { s' with tasks := s'.tasks ++ [next pending] }

/-- One step; none if it is not enabled. `retryReadErrors` is the option of the multiplexer. -/
def step? (retryReadErrors : Bool) : Event → Option Multiplexer
  | .exchangeAsync single =>
    some { s with
      accepted := s.accepted + 1
      tasks := s.tasks ++ [dispatch s.accepted true single] }
  | .acquireError i =>
    match s.tasks[i]? with
    | some (.attempt q _ _) => some (s.replace i [.reply q])
    | _ => none
  | .acquire i created =>
    match s.tasks[i]? with
    | some (.attempt q retry first) => some (s.replace i [.acquired q retry first created])
    | _ => none
  | .register i =>
    match s.tasks[i]? with
    | some (.acquired q retry first created) =>
      match s.nextId with
      | none => some (s.replace i [.reply q])
      | some id =>
        some { s.replace i [.writing q retry first created s.serial id,
            .hook .contextDone false s.serial id, .hook .connDone false s.serial id] with
          queryId := id
          serial := s.serial + 1
          queries := (id, ⟨s.serial, q, retry && retryReadErrors && !created⟩) :: s.queries }
    | _ => none
  | .writeDone i =>
    match s.tasks[i]? with
    | some (.writing ..) => some (s.replace i [])
    | _ => none
  | .writeError i =>
    match s.tasks[i]? with
    | some (.writing q retry first created _ id) =>
      -- The callback that is called, or tried again, is the writer's, whatever entry was taken.
      some ((s.replace i []).completed ((s.replace i []).take id) fun _ =>
        if !created && first then .attempt q retry false else .reply q)
    | _ => none
  | .response id =>
    match s.take id with
    | none => none
    | some taken => some (s.completed (some taken) fun pending => .reply pending.query)
  | .fire i =>
    match s.tasks[i]? with
    | some (.hook kind false serial id) => some (s.replace i [.hook kind true serial id])
    | _ => none
  | .runHook i readFailed single =>
    match s.tasks[i]? with
    | some (.hook .contextDone true _ id) =>
      some ((s.replace i []).completed ((s.replace i []).take id) fun pending =>
        .reply pending.query)
    | some (.hook .connDone true _ id) =>
      some ((s.replace i []).completed ((s.replace i []).take id) fun pending =>
        if pending.retry && readFailed then dispatch pending.query false single
        else .reply pending.query)
    | _ => none
  | .singleDone i =>
    match s.tasks[i]? with
    | some (.single q) => some (s.replace i [.reply q])
    | _ => none
  | .callback i =>
    match s.tasks[i]? with
    | some (.reply q) =>
      some { s.replace i [] with calls := fun q' => if q' = q then s.calls q + 1 else s.calls q' }
    | _ => none

/-- A step that is not enabled does nothing. -/
def step (retryReadErrors : Bool) (s : Multiplexer) (e : Event) : Multiplexer :=
  (s.step? retryReadErrors e).getD s

/-- The places that hold the callback of a query. -/
def held (query : ℕ) : ℕ :=
  s.tasks.countP (Task.holds query) + s.queries.countP fun e => e.2.query == query

/-- Nothing can happen any more but a new call. -/
def Quiescent (retryReadErrors : Bool) : Prop :=
  ∀ e, (∀ single, e ≠ .exchangeAsync single) → s.step? retryReadErrors e = none

/-- Fewer than 65536 queries were registered after a query whose entry is in the table or whose
write is under way. -/
structure Recent : Prop where
  queries : ∀ e ∈ s.queries, s.serial ≤ e.2.serial + 65536
  writes : ∀ query retry first created serial id,
    .writing query retry first created serial id ∈ s.tasks → s.serial ≤ serial + 65536

/-- A write that fails finds no entry of another query under its id. -/
def Owned : Event → Prop
  | .writeError i => ∀ q retry first created serial id,
      s.tasks[i]? = some (.writing q retry first created serial id) →
      ∀ e ∈ s.queries, e.1 = id → e.2.query = q
  | _ => True

/-! ### Counting the holders -/

/-- The calls of its callback that a query is owed when `accepted` queries have been accepted. -/
def owed (accepted query : ℕ) : ℕ :=
  if query < accepted then 1 else 0

/-- Every callback of an accepted query has been called or has one holder, and ids are distinct. -/
structure Inv : Prop where
  count : ∀ q, s.calls q + s.held q = owed s.accepted q
  nodup : (s.queries.map Prod.fst).Nodup

/-- The ids go round: the query that is registered as number `n` has the id `n + 1` modulo 65536,
and the callback of a write is that of its registration. -/
structure Numbered : Prop where
  queryId : s.queryId = s.serial % 65536
  queries : ∀ e ∈ s.queries, e.2.serial < s.serial ∧ e.1 = (e.2.serial + 1) % 65536
  writes : ∀ query retry first created serial id,
    .writing query retry first created serial id ∈ s.tasks →
      serial < s.serial ∧ id = (serial + 1) % 65536 ∧
        ∀ e ∈ s.queries, e.2.serial = serial → e.2.query = query

variable {s} {retryReadErrors : Bool}

variable {t : Task}

open Event Nat Prod Multiplex.Task

theorem held_replace {i : ℕ} (h : s.tasks[i]? = some t) (tks : List Task) (q : ℕ) :
    (s.replace i tks).held q + (if t.holds q then 1 else 0) =
      s.held q + tks.countP (holds q) := by
  obtain ⟨hi, rfl⟩ := List.getElem?_eq_some_iff.mp h
  have hp := (getElem_cons_eraseIdx_perm hi).countP_eq (holds q)
  rw [countP_cons] at hp
  simp only [held, replace, countP_append]
  omega

theorem holds_of_armed {n : ℕ} (h : t.armed n) (q : ℕ) : t.holds q = false := by
  cases t with
  | hook => rfl
  | attempt | acquired | writing | single | reply => simp [armed] at h

variable {id : ℕ} {used : List ℕ}

variable {s' : Multiplexer}

theorem take_spec {pending : Pending} (h : s.take id = some (pending, s')) :
    (id, pending) ∈ s.queries ∧ s'.calls = s.calls ∧ s'.accepted = s.accepted ∧
      List.Sublist s'.queries s.queries ∧
      ∀ q, s'.held q + (if pending.query = q then 1 else 0) = s.held q := by
  rw [take] at h
  cases hf : s.queries.find? fun e => e.1 == id with
  | none => simp [hf] at h
  | some e =>
    rw [hf] at h
    obtain ⟨rfl, rfl⟩ := Prod.mk.inj (some.inj h)
    have hm := mem_of_find?_eq_some hf
    have hid : e.1 = id := by simpa using find?_some hf
    refine ⟨hid ▸ hm, rfl, rfl, eraseP_sublist, fun q => ?_⟩
    have ht : (s.tasks.filter fun t => !t.armed e.2.serial).countP (holds q) =
        s.tasks.countP (holds q) := by
      rw [countP_filter]
      refine countP_congr fun t _ => ?_
      cases ha : t.armed e.2.serial with
      | false => simp
      | true => simp [holds_of_armed ha]
    have hqs : (s.queries.eraseP fun e => e.1 == id).countP (fun e => e.2.query == q) +
        (if e.2.query = q then 1 else 0) = s.queries.countP fun e => e.2.query == q := by
      obtain ⟨l₁, l₂, hs, hp⟩ : ∃ l₁ l₂, s.queries = l₁ ++ e :: l₂ ∧
          ∀ x ∈ l₁, ¬ (x.1 == id) = true := by
        obtain ⟨-, l₁, l₂, hs, hp⟩ := find?_eq_some_iff_append.mp hf
        exact ⟨l₁, l₂, hs, fun x hx => by simpa using hp x hx⟩
      rw [hs, eraseP_append_right _ hp, eraseP_cons_of_pos (by simpa using hid)]
      simp only [countP_append, countP_cons, beq_iff_eq]
      omega
    simp only [held]
    rw [ht]
    omega

/-- A completion answers the query whose entry it has taken, or starts it again. -/
theorem Inv.completed {next : Pending → Task} (h : s.Inv)
    (hn : ∀ pending, (id, pending) ∈ s.queries →
      ∀ q, (next pending).holds q = (pending.query == q)) : (s.completed (s.take id) next).Inv := by
  cases ht : s.take id with
  | none => exact h
  | some taken =>
    obtain ⟨pending, s'⟩ := taken
    obtain ⟨hm, hc, ha, hs, hh⟩ := take_spec ht
    refine ⟨fun q => ?_, h.nodup.sublist (hs.map _)⟩
    have hcnt := h.count q
    have hq := hh q
    have hnew : (s.completed (some (pending, s')) next).held q =
        s'.held q + if pending.query = q then 1 else 0 := by
      simp only [Multiplexer.completed, held, countP_append, countP_singleton,
        hn pending hm q, beq_iff_eq]
      omega
    rw [hnew, hq]
    change s'.calls q + s.held q = owed s'.accepted q
    rw [hc, ha, hcnt]

theorem Inv.replace {i : ℕ} {tks : List Task} (h : s.Inv) (ht : s.tasks[i]? = some t)
    (hta : ∀ q, tks.countP (holds q) = if t.holds q then 1 else 0) :
    (s.replace i tks).Inv := by
  refine ⟨fun q => ?_, h.nodup⟩
  have hh := held_replace ht tks q
  rw [hta q] at hh
  have hc := h.count q
  have hs : (s.replace i tks).held q = s.held q := by omega
  rw [hs]
  exact hc

variable {start id k : ℕ}

theorem scan_eq_some (h : scan used start k = some id) : id ∉ used := by
  induction k generalizing start with
  | zero => simp [scan] at h
  | succ k ih =>
    rw [scan] at h
    split at h
    case isTrue hf => exact some.inj h ▸ hf
    case isFalse => exact ih h

theorem nextId_eq_some (h : s.nextId = some id) : id ∉ s.queries.map fst :=
  scan_eq_some h

theorem dispatch_holds (query : ℕ) (retry single : Bool) (q : ℕ) :
    (dispatch query retry single).holds q = (query == q) := by
  cases single <;> rfl

theorem Inv.step? {e : Event} (h : s.Inv) (ho : s.Owned e)
    (hst : s.step? retryReadErrors e = some s') :
    s'.Inv := by
  cases e with
  | exchangeAsync single =>
    obtain rfl := some.inj hst
    refine ⟨fun q => ?_, h.nodup⟩
    have hc := h.count q
    simp only [held, countP_append, countP_singleton, dispatch_holds, beq_iff_eq, owed] at hc ⊢
    split_ifs at hc ⊢ <;> omega
  | acquireError i | acquire i created | singleDone i | fire i | writeDone i =>
    simp only [Multiplexer.step?] at hst
    split at hst
    case h_1 ht =>
      obtain rfl := some.inj hst
      exact h.replace ht fun q => by simp [Task.holds, countP_cons]
    case h_2 => exact absurd hst (by simp)
  | register i =>
    simp only [Multiplexer.step?] at hst
    split at hst
    case h_2 => exact absurd hst (by simp)
    case h_1 query retry first created ht =>
      split at hst
      case h_1 =>
        obtain rfl := some.inj hst
        exact h.replace ht fun q => by simp [Task.holds, countP_cons]
      case h_2 id hid =>
        obtain rfl := some.inj hst
        refine ⟨fun q => ?_, nodup_cons.mpr ⟨nextId_eq_some hid, h.nodup⟩⟩
        have hc := h.count q
        -- The callback moves from the goroutine into the table.
        have hh := held_replace ht [.writing query retry first created s.serial id,
          .hook .contextDone false s.serial id, .hook .connDone false s.serial id] q
        simp only [Task.holds, countP_cons, countP_nil, beq_iff_eq, held,
          Multiplexer.replace, Bool.false_eq_true, if_false] at hh hc ⊢
        omega
  | writeError i =>
    simp only [Multiplexer.step?] at hst
    split at hst
    case h_2 => exact absurd hst (by simp)
    case h_1 query retry first created serial id ht =>
      obtain rfl := some.inj hst
      refine (h.replace ht fun q => by simp [Task.holds]).completed fun pending hm q => ?_
      have hqu : pending.query = query := ho _ _ _ _ _ _ ht _ hm rfl
      rw [hqu]
      split <;> rfl
  | response id =>
    simp only [Multiplexer.step?] at hst
    split at hst
    case h_1 => exact absurd hst (by simp)
    case h_2 taken hta =>
      obtain rfl := some.inj hst
      rw [← hta]
      exact h.completed fun pending _ q => rfl
  | runHook i readFailed single =>
    simp only [Multiplexer.step?] at hst
    split at hst
    case h_1 ht =>
      obtain rfl := some.inj hst
      exact (h.replace ht fun q => by simp [Task.holds]).completed fun pending _ q => rfl
    case h_2 ht =>
      obtain rfl := some.inj hst
      refine (h.replace ht fun q => by simp [Task.holds]).completed fun pending _ q => ?_
      split
      · exact dispatch_holds _ _ _ q
      · rfl
    case h_3 => exact absurd hst (by simp)
  | callback i =>
    simp only [Multiplexer.step?] at hst
    split at hst
    case h_2 => exact absurd hst (by simp)
    case h_1 query ht =>
      obtain rfl := some.inj hst
      refine ⟨fun q => ?_, h.nodup⟩
      have hc := h.count q
      have hh := held_replace ht [] q
      simp only [Task.holds, countP_nil, beq_iff_eq] at hh
      change (if q = query then s.calls query + 1 else s.calls q) + (s.replace i []).held q =
        owed s.accepted q
      by_cases hq : query = q
      · subst hq
        rw [if_pos rfl] at hh ⊢
        omega
      · rw [if_neg hq] at hh
        rw [if_neg (Ne.symm hq)]
        omega

/-! ### Numbering the queries -/

/-- `exchangeAsync` is in the write of a message. -/
def Task.isWriting : Task → Bool
  | .writing .. => true
  | _ => false

/-- No query is registered between `s` and `s'`, and no write begins. -/
structure Keeps (s s' : Multiplexer) : Prop where
  queryId : s'.queryId = s.queryId
  serial : s'.serial = s.serial
  queries : ∀ e ∈ s'.queries, e ∈ s.queries
  writes : ∀ t ∈ s'.tasks, Task.isWriting t = true → t ∈ s.tasks

theorem Keeps.trans {s'' : Multiplexer} (h : Keeps s s') (h' : Keeps s' s'') : Keeps s s'' where
  queryId := h'.queryId.trans h.queryId
  serial := h'.serial.trans h.serial
  queries e he := h.queries e (h'.queries e he)
  writes t ht hw := h.writes t (h'.writes t ht hw) hw

theorem keeps_replace (i : ℕ) {tasks : List Task}
    (h : ∀ t ∈ tasks, Task.isWriting t = false) : Keeps s (s.replace i tasks) := by
  refine ⟨rfl, rfl, fun e he => he, fun t ht hw => ?_⟩
  rcases mem_append.mp ht with ht | ht
  · exact mem_of_mem_eraseIdx ht
  · rw [h t ht] at hw
    cases hw

theorem keeps_completed (id : ℕ) {next : Pending → Task}
    (h : ∀ pending, Task.isWriting (next pending) = false) :
    Keeps s (s.completed (s.take id) next) := by
  cases ht : s.take id with
  | none => exact ⟨rfl, rfl, fun e he => he, fun t ht _ => ht⟩
  | some taken =>
    rw [take] at ht
    split at ht
    case h_1 => cases ht
    case h_2 =>
      obtain rfl := some.inj ht
      refine ⟨rfl, rfl, fun e he => mem_of_mem_eraseP he, fun t ht hw => ?_⟩
      rcases mem_append.mp ht with ht | ht
      · exact mem_of_mem_filter ht
      · rw [mem_singleton.mp ht, h] at hw
        cases hw

/-- What a step does to the numbering: nothing, or it registers a query. -/
theorem step?_keeps {e : Event} (h : s.step? retryReadErrors e = some s') :
    Keeps s s' ∨ ∃ i query retry first created id, s.nextId = some id ∧
      s' = { s.replace i [.writing query retry first created s.serial id,
            .hook .contextDone false s.serial id, .hook .connDone false s.serial id] with
          queryId := id
          serial := s.serial + 1
          queries := (id, ⟨s.serial, query, retry && retryReadErrors && !created⟩) ::
            s.queries } := by
  cases e with
  | exchangeAsync single =>
    obtain rfl := some.inj h
    refine .inl ⟨rfl, rfl, fun e he => he, fun t ht hw => ?_⟩
    rcases mem_append.mp ht with ht | ht
    · exact ht
    · rw [mem_singleton.mp ht] at hw
      cases single <;> cases hw
  | acquireError i | acquire i created | singleDone i | fire i | writeDone i =>
    simp only [Multiplexer.step?] at h
    split at h
    case h_1 =>
      obtain rfl := some.inj h
      exact .inl (keeps_replace i (by simp [Task.isWriting]))
    case h_2 => cases h
  | register i =>
    simp only [Multiplexer.step?] at h
    split at h
    case h_2 => cases h
    case h_1 query retry first created _ =>
      split at h
      case h_1 =>
        obtain rfl := some.inj h
        exact .inl (keeps_replace i (by simp [Task.isWriting]))
      case h_2 id hid => exact .inr ⟨i, query, retry, first, created, id, hid, (some.inj h).symm⟩
  | writeError i =>
    simp only [Multiplexer.step?] at h
    split at h
    case h_2 => cases h
    case h_1 =>
      obtain rfl := some.inj h
      refine .inl ((keeps_replace i (by simp)).trans (keeps_completed _ fun _ => ?_))
      split <;> rfl
  | response id =>
    simp only [Multiplexer.step?] at h
    split at h
    case h_1 => cases h
    case h_2 taken htaken =>
      obtain rfl := some.inj h
      rw [← htaken]
      exact .inl (keeps_completed id fun _ => rfl)
  | runHook i readFailed single =>
    simp only [Multiplexer.step?] at h
    split at h
    case h_1 =>
      obtain rfl := some.inj h
      exact .inl ((keeps_replace i (by simp)).trans (keeps_completed _ fun _ => rfl))
    case h_2 =>
      obtain rfl := some.inj h
      refine .inl ((keeps_replace i (by simp)).trans (keeps_completed _ fun _ => ?_))
      split
      · cases single <;> rfl
      · rfl
    case h_3 => cases h
  | callback i =>
    simp only [Multiplexer.step?] at h
    split at h
    case h_2 => cases h
    case h_1 =>
      obtain rfl := some.inj h
      have hk : Keeps s (s.replace i []) := keeps_replace i (by simp)
      exact .inl ⟨hk.queryId, hk.serial, hk.queries, hk.writes⟩

theorem Numbered.of_keeps (h : s.Numbered) (hk : Keeps s s') : s'.Numbered where
  queryId := by rw [hk.queryId, hk.serial, h.queryId]
  queries e he := by
    rw [hk.serial]
    exact h.queries e (hk.queries e he)
  writes query retry first created serial id hw := by
    obtain ⟨hlt, hid, hq⟩ := h.writes _ _ _ _ _ _ (hk.writes _ hw rfl)
    rw [hk.serial]
    exact ⟨hlt, hid, fun e he => hq e (hk.queries e he)⟩

/-- The id after the last one is free: the query that had it before would wait for 65536 others. -/
theorem Numbered.nextId (h : s.Numbered)
    (hrecent : ∀ e ∈ s.queries, s.serial + 1 ≤ e.2.serial + 65536) :
    s.nextId = some ((s.serial + 1) % 65536) := by
  have hid : (s.queryId + 1) % 65536 = (s.serial + 1) % 65536 := by
    rw [h.queryId]
    omega
  have hfree : (s.serial + 1) % 65536 ∉ s.queries.map fst := by
    intro hm
    obtain ⟨e, he, heq⟩ := mem_map.mp hm
    obtain ⟨hlt, hnum⟩ := h.queries e he
    have hr := hrecent e he
    omega
  rw [Multiplexer.nextId, scan, hid, if_pos hfree]

theorem Numbered.step? {e : Event} (h : s.Numbered) (hst : s.step? retryReadErrors e = some s')
    (hrecent : s'.Recent) : s'.Numbered := by
  rcases step?_keeps hst with hk | ⟨i, query, retry, first, created, id, hid, rfl⟩
  · exact h.of_keeps hk
  · have hnext := h.nextId fun e he => hrecent.queries e (mem_cons_of_mem _ he)
    obtain rfl := some.inj (hid.symm.trans hnext)
    refine ⟨rfl, forall_mem_cons.mpr ⟨⟨lt_succ_self _, rfl⟩, fun e he => ?_⟩, ?_⟩
    · exact ⟨lt_succ_of_lt (h.queries e he).1, (h.queries e he).2⟩
    · intro query' retry' first' created' serial id hw
      rcases mem_append.mp hw with hw | hw
      · -- A write of before has a smaller number than the new entry.
        obtain ⟨hlt, hnum, hq⟩ := h.writes _ _ _ _ _ _ (mem_of_mem_eraseIdx hw)
        exact ⟨lt_succ_of_lt hlt, hnum, forall_mem_cons.mpr
          ⟨fun heq => absurd heq (Nat.ne_of_gt hlt), hq⟩⟩
      · obtain ⟨rfl, -, -, -, rfl, rfl⟩ : query' = query ∧ retry' = retry ∧ first' = first ∧
            created' = created ∧ serial = s.serial ∧ id = (s.serial + 1) % 65536 := by
          simpa using hw
        exact ⟨lt_succ_self _, rfl, forall_mem_cons.mpr
          ⟨fun _ => rfl, fun e he heq => absurd heq (Nat.ne_of_lt (h.queries e he).1)⟩⟩

/-- A write finds its own entry under its id, or none: two numbers with one id are 65536 apart. -/
theorem Numbered.owned (h : s.Numbered) (hrecent : s.Recent) (e : Event) : s.Owned e := by
  cases e with
  | writeError i =>
    intro query retry first created serial id htask entry hentry hid
    have hw := mem_of_getElem? htask
    obtain ⟨hlt, hnum, hquery⟩ := h.writes _ _ _ _ _ _ hw
    obtain ⟨helt, henum⟩ := h.queries entry hentry
    have hr := hrecent.writes _ _ _ _ _ _ hw
    have her := hrecent.queries entry hentry
    exact hquery entry hentry (by omega)
  | _ => trivial

theorem recent_of_le (h : s.serial ≤ 65536) : s.Recent :=
  ⟨fun _ _ => by omega, fun _ _ _ _ _ _ _ => by omega⟩

/-! ### Runs -/

theorem numbered_initial : Numbered {} :=
  ⟨rfl, by simp, by simp⟩

theorem Numbered.step {e : Event} (h : s.Numbered) (hrecent : (step retryReadErrors s e).Recent) :
    (step retryReadErrors s e).Numbered := by
  rw [Multiplexer.step] at hrecent ⊢
  cases hst : s.step? retryReadErrors e with
  | none => exact h
  | some s' =>
    rw [hst] at hrecent
    exact h.step? hst hrecent

theorem inv_initial : Inv {} :=
  ⟨fun q => by simp [held, owed], nodup_nil⟩

theorem Inv.step {e : Event} (h : s.Inv) (ho : s.Owned e) : (step retryReadErrors s e).Inv := by
  rw [Multiplexer.step]
  cases hstep : s.step? retryReadErrors e with
  | none => exact h
  | some s' => exact h.step? ho hstep

/-- When nothing is left to do, no goroutine runs and the table is empty. -/
theorem Quiescent.empty (h : s.Quiescent retryReadErrors) : s.tasks = [] ∧ s.queries = [] := by
  constructor
  · cases hta : s.tasks with
    | nil => rfl
    | cons t rest =>
      exfalso
      have ht : s.tasks[0]? = some t := by rw [hta]; rfl
      cases t with
      | attempt =>
        have hn := h (.acquireError 0) (by simp)
        simp [step?, ht] at hn
      | acquired =>
        have hn := h (.register 0) (by simp)
        simp only [step?, ht] at hn
        split at hn <;> simp at hn
      | writing =>
        have hn := h (.writeDone 0) (by simp)
        simp [step?, ht] at hn
      | hook kind fired =>
        cases fired with
        | false =>
          have hn := h (.fire 0) (by simp)
          simp [step?, ht] at hn
        | true =>
          have hn := h (.runHook 0 false false) (by simp)
          cases kind <;> simp [step?, ht] at hn
      | single =>
        have hn := h (.singleDone 0) (by simp)
        simp [step?, ht] at hn
      | reply =>
        have hn := h (.callback 0) (by simp)
        simp [step?, ht] at hn
  · cases hqs : s.queries with
    | nil => rfl
    | cons e rest =>
      exfalso
      have hn := h (.response e.1) (by simp)
      simp [step?, take, hqs] at hn

theorem quiescent_of_empty (ht : s.tasks = []) (hqs : s.queries = []) :
    s.Quiescent retryReadErrors := by
  intro e he
  cases e with
  | exchangeAsync single => exact absurd rfl (he single)
  | response id => simp [step?, take, hqs]
  | acquireError i | acquire i created | register i | writeDone i | writeError i | fire i
  | runHook i readFailed single | singleDone i | callback i => simp [step?, ht]

/-- Two queries; the first write fails and is tried again, and the context of the second query is
over before its response comes. -/
def twoQueries (t : ℕ) : Event :=
  [.exchangeAsync false, .acquire 0 false, .register 0, .writeError 0, .acquire 0 true,
    .exchangeAsync false, .acquire 1 true, .register 0, .register 0, .fire 4,
    .runHook 5 false false,
    .response 2, .writeDone 0, .writeDone 0, .callback 0, Event.callback 0].getD t (.singleDone 0)

end Multiplexer

end SingBox.DNS.Multiplex
