import SingBox.DNS.Multiplexer

/-!
# The connections of the query multiplexer

The multiplexer shares one connection at a time, and replaces it when it fails. Each connection has
a read loop of its own, which may still hold a message when the connection has been replaced. The
table of pending queries belongs to the multiplexer: a message completes whatever query stands under
its id, on whichever connection that was sent.

So a message answers a query of another connection if the server sends an id that it was not asked
with, or if the id has been given away again while the loop of the old connection still runs. If
neither happens, the connections are kept apart.
-/

namespace SingBox.DNS.Multiplex

open Foundation List Prod

/-- An entry of the table with the connection of its query. -/
structure ConnPending where
  serial : ℕ
  query : ℕ
  conn : ℕ
  retry : Bool
deriving DecidableEq, Repr

/-- A goroutine, or a scheduled function. -/
inductive ConnTask
  /-- `exchangeAsync` before it acquires a connection. -/
  | attempt (query : ℕ) (retryReadError firstAttempt : Bool)
  /-- `exchangeAsync` before it registers the query. -/
  | acquired (query : ℕ) (retryReadError firstAttempt created : Bool) (conn : ℕ)
  /-- `exchangeAsync` in the write of the message. -/
  | writing (query : ℕ) (retryReadError firstAttempt created : Bool) (conn queryId : ℕ)
  /-- A scheduled function of a registration, which runs once it is fired. -/
  | hook (kind : HookKind) (fired : Bool) (conn serial queryId : ℕ)
deriving DecidableEq, Repr

/-- The state. Connections are numbered; a loop has a message id in hand, or reads. `issued` lists
the registrations so far and `answered` the entries that messages have completed, each with the
connection the message was read on. -/
structure Connections where
  queryId : ℕ := 0
  queries : List (ℕ × ConnPending) := []
  tasks : List ConnTask := []
  accepted : ℕ := 0
  serial : ℕ := 0
  conns : ℕ := 0
  shared : Option ℕ := none
  sharedClaimed : Bool := false
  sharedUsers : ℕ := 0
  loops : List (ℕ × Option ℕ) := []
  issued : List (ℕ × ℕ) := []
  answered : List (ℕ × ConnPending) := []
deriving DecidableEq, Repr

/-- What can happen. An index names a task. -/
inductive ConnEvent
  | exchangeAsync
  | dial
  | acquireError (i : ℕ)
  | acquire (i : ℕ)
  | register (i : ℕ)
  | writeDone (i : ℕ)
  | writeError (i : ℕ)
  | read (conn queryId : ℕ)
  | deliver (conn queryId : ℕ)
  | readError (conn : ℕ)
  | fire (i : ℕ)
  | runHook (i : ℕ) (timedOut readFailed : Bool)
  | closeIdle
  | reset
deriving DecidableEq, Repr

/-- An armed function of a registration, which `stop` removes. -/
def ConnTask.armed (serial : ℕ) : ConnTask → Bool
  | .hook _ false _ n _ => n == serial
  | _ => false

namespace Connections

variable (s : Connections)

/-- A task is replaced by others. -/
def replace (i : ℕ) (tasks : List ConnTask) : Connections :=
  { s with tasks := s.tasks.eraseIdx i ++ tasks }

/-- `take`: the entry of an id leaves the table and its armed functions are stopped. -/
def take (queryId : ℕ) : Option ConnPending × Connections :=
  match s.queries.find? fun e => e.1 == queryId with
  | none => (none, s)
  | some e => (some e.2,
      { s with
        queries := s.queries.eraseP fun e => e.1 == queryId
        tasks := s.tasks.filter fun t => !t.armed e.2.serial })

/-- `removeConn`: the pool no longer has a shared connection. -/
def removeShared : Connections :=
  { s with shared := none, sharedClaimed := false, sharedUsers := 0 }

/-- `Invalidate`, which ignores a connection that the pool does not have any more. -/
def invalidate (conn : ℕ) : Connections :=
  if s.shared = some conn then s.removeShared else s

/-- `Release` of a connection that may be used again. -/
def release (conn : ℕ) : Connections :=
  if s.shared = some conn then { s with sharedUsers := s.sharedUsers - 1 } else s

/-- The id of the next registration. -/
def nextId : Option ℕ :=
  Multiplexer.scan (s.queries.map Prod.fst) s.queryId 65536

/-- A registration of a query on a connection. -/
def registered (query conn queryId : ℕ) (retry : Bool) : Connections :=
  { s with
    queryId := queryId
    serial := s.serial + 1
    queries := (queryId, ⟨s.serial, query, conn, retry⟩) :: s.queries
    issued := (queryId, conn) :: s.issued }

/-- `complete`, for a message that was read on a connection. -/
def complete (conn queryId : ℕ) : Connections :=
  match s.take queryId with
  | (none, _) => s
  | (some pending, s') =>
    { s' with answered := (conn, pending) :: s'.answered }.release pending.conn

/-- One step; one that is not enabled does nothing. -/
def step (retryReadErrors : Bool) (s : Connections) : ConnEvent → Connections
  | .exchangeAsync =>
    { s with accepted := s.accepted + 1, tasks := s.tasks ++ [.attempt s.accepted true true] }
  | .dial =>
    if s.shared = none then
      { s with
        shared := some s.conns, sharedClaimed := false, sharedUsers := 0, conns := s.conns + 1 }
    else s
  | .acquireError i =>
    match s.tasks[i]? with
    | some (.attempt ..) => s.replace i []
    | _ => s
  | .acquire i =>
    match s.tasks[i]?, s.shared with
    | some (.attempt query retry first), some conn =>
      -- The first user of a connection starts its read loop.
      { s.replace i [.acquired query retry first (!s.sharedClaimed) conn] with
        sharedClaimed := true
        sharedUsers := s.sharedUsers + 1
        loops := if s.sharedClaimed then s.loops else (conn, none) :: s.loops }
    | _, _ => s
  | .register i =>
    match s.tasks[i]? with
    | some (.acquired query retry first created conn) =>
      match s.nextId with
      | none => (s.replace i []).release conn
      | some id =>
        (s.replace i [.writing query retry first created conn id,
          .hook .contextDone false conn s.serial id,
          .hook .connDone false conn s.serial id]).registered query conn id
            (retry && retryReadErrors && !created)
    | _ => s
  | .writeDone i =>
    match s.tasks[i]? with
    | some (.writing ..) => s.replace i []
    | _ => s
  | .writeError i =>
    match s.tasks[i]? with
    | some (.writing query retry first created conn id) =>
      let (pending, s') := (s.replace i []).take id
      let s' := s'.invalidate conn
      if pending.isSome && !created && first then
        { s' with tasks := s'.tasks ++ [.attempt query retry false] }
      else s'
    | _ => s
  | .read conn id =>
    if (conn, none) ∈ s.loops then
      { s with loops := (conn, some id) :: s.loops.erase (conn, none) }
    else s
  | .deliver conn id =>
    if (conn, some id) ∈ s.loops then
      { s with loops := (conn, none) :: s.loops.erase (conn, some id) }.complete conn id
    else s
  | .readError conn =>
    if (conn, none) ∈ s.loops then
      { s with loops := s.loops.erase (conn, none) }.invalidate conn
    else s
  | .fire i =>
    match s.tasks[i]? with
    | some (.hook .contextDone false conn serial id) =>
      s.replace i [.hook .contextDone true conn serial id]
    | some (.hook .connDone false conn serial id) =>
      -- The context of a connection ends when the pool removes it.
      if s.shared = some conn then s else s.replace i [.hook .connDone true conn serial id]
    | _ => s
  | .runHook i timedOut readFailed =>
    match s.tasks[i]? with
    | some (.hook .contextDone true _ _ id) =>
      match (s.replace i []).take id with
      | (none, s') => s'
      | (some pending, s') =>
        if timedOut then s'.invalidate pending.conn else s'.release pending.conn
    | some (.hook .connDone true _ _ id) =>
      match (s.replace i []).take id with
      | (none, s') => s'
      | (some pending, s') =>
        if pending.retry && readFailed then
          { s' with tasks := s'.tasks ++ [.attempt pending.query false true] }
        else s'
    | _ => s
  | .closeIdle => if s.sharedUsers = 0 then s.removeShared else s
  | .reset => s.removeShared

/-- The read loop of a connection has started and has not ended. -/
def Running (conn : ℕ) : Prop :=
  ∃ message, (conn, message) ∈ s.loops

/-- Messages have only answered queries of their own connection. -/
def KeptApart : Prop :=
  ∀ e ∈ s.answered, e.2.conn = e.1

/-- The connection that a goroutine is about to register a query on. -/
def acquiredConn (i : ℕ) : Option ℕ :=
  match s.tasks[i]? with
  | some (.acquired _ _ _ _ conn) => some conn
  | _ => none

/-- A message on a connection has an id that was registered on it, and the id of a registration was
not registered on another connection whose read loop still runs. -/
def Careful : ConnEvent → Prop
  | .read conn id => (id, conn) ∈ s.issued
  | .register i => ∀ conn ∈ s.acquiredConn i, ∀ id ∈ s.nextId,
      ∀ loop ∈ s.loops, loop.1 ≠ conn → (id, loop.1) ∉ s.issued
  | _ => True

instance : (e : ConnEvent) → Decidable (s.Careful e)
  | .read conn id => inferInstanceAs (Decidable ((id, conn) ∈ s.issued))
  | .register i => inferInstanceAs (Decidable (∀ conn ∈ s.acquiredConn i, ∀ id ∈ s.nextId,
      ∀ loop ∈ s.loops, loop.1 ≠ conn → (id, loop.1) ∉ s.issued))
  | .exchangeAsync | .dial | .acquireError _ | .acquire _ | .writeDone _ | .writeError _
  | .deliver _ _ | .readError _ | .fire _ | .runHook _ _ _ | .closeIdle | .reset => isTrue trivial

/-! ### What steps leave -/

/-- No query has been sent on the connection, and no goroutine is about to. -/
def Unused (conn : ℕ) : Prop :=
  s.conns ≤ conn ∨ s.shared = some conn ∧ s.sharedClaimed = false

/-- A goroutine is about to register a query on the connection. -/
def Acquired (conn : ℕ) : Prop :=
  ∃ query retry first created, ConnTask.acquired query retry first created conn ∈ s.tasks

/-- An entry of the table has no id that a running loop of another connection was asked with. -/
structure Inv : Prop where
  apart : ∀ e ∈ s.queries, ∀ conn, s.Running conn → conn ≠ e.2.conn → (e.1, conn) ∉ s.issued
  asked : ∀ conn id, (conn, some id) ∈ s.loops → (id, conn) ∈ s.issued
  unused : ∀ conn, s.Unused conn → (∀ id, (id, conn) ∉ s.issued) ∧ ¬ s.Acquired conn
  bound : ∀ conn, s.shared = some conn → conn < s.conns
  answered : s.KeptApart

/-- A step that registers nothing, acquires nothing and delivers nothing. -/
structure Leaves (s s' : Connections) : Prop where
  queries : s'.queries ⊆ s.queries
  loops : s'.loops ⊆ s.loops
  issued : s'.issued = s.issued
  acquired : ∀ conn, s'.Acquired conn → s.Acquired conn
  unused : ∀ conn, s'.Unused conn → s.Unused conn
  bound : (∀ conn, s.shared = some conn → conn < s.conns) →
    ∀ conn, s'.shared = some conn → conn < s'.conns
  answered : s'.answered = s.answered

variable {s} {s' s'' : Connections}

theorem Leaves.refl (s : Connections) : s.Leaves s :=
  ⟨List.Subset.refl _, List.Subset.refl _, rfl, fun _ h => h, fun _ h => h, fun h => h, rfl⟩

theorem Leaves.trans (h : s.Leaves s') (h' : s'.Leaves s'') : s.Leaves s'' where
  queries := List.Subset.trans h'.queries h.queries
  loops := List.Subset.trans h'.loops h.loops
  issued := h'.issued.trans h.issued
  acquired conn hc := h.acquired conn (h'.acquired conn hc)
  unused conn hc := h.unused conn (h'.unused conn hc)
  bound hc := h'.bound (h.bound hc)
  answered := h'.answered.trans h.answered

theorem Leaves.inv (h : s.Leaves s') (hi : s.Inv) : s'.Inv where
  apart e he conn hr hne := by
    obtain ⟨message, hm⟩ := hr
    rw [h.issued]
    exact hi.apart e (h.queries he) conn ⟨message, h.loops hm⟩ hne
  asked conn id hl := by
    rw [h.issued]
    exact hi.asked conn id (h.loops hl)
  unused conn hc := by
    obtain ⟨his, ha⟩ := hi.unused conn (h.unused conn hc)
    rw [h.issued]
    exact ⟨his, fun hn => ha (h.acquired conn hn)⟩
  bound := h.bound hi.bound
  answered := by
    rw [KeptApart, h.answered]
    exact hi.answered

variable {tasks : List ConnTask}

/-- Tasks are removed, and tasks that have not acquired a connection are added. -/
theorem leaves_tasks (h : ∀ t ∈ tasks, t ∈ s.tasks ∨ ∀ query retry first created conn,
      t ≠ .acquired query retry first created conn) : s.Leaves { s with tasks := tasks } := by
  refine ⟨List.Subset.refl _, List.Subset.refl _, rfl, ?_, fun _ h => h, fun h => h, rfl⟩
  rintro conn ⟨query, retry, first, created, hm⟩
  rcases h _ hm with ho | hn
  · exact ⟨query, retry, first, created, ho⟩
  · exact absurd rfl (hn query retry first created conn)

theorem leaves_replace {i : ℕ} (h : ∀ t ∈ tasks, ∀ query retry first created conn,
      t ≠ ConnTask.acquired query retry first created conn) : s.Leaves (s.replace i tasks) := by
  refine leaves_tasks fun t ht => ?_
  rcases mem_append.mp ht with ho | hn
  · exact .inl (mem_of_mem_eraseIdx ho)
  · exact .inr (h t hn)

theorem leaves_remove (i : ℕ) : s.Leaves (s.replace i []) :=
  leaves_replace fun _ ht => absurd ht not_mem_nil

theorem leaves_attempt (query : ℕ) (retry first : Bool) :
    s.Leaves { s with tasks := s.tasks ++ [.attempt query retry first] } := by
  refine leaves_tasks fun t ht => ?_
  rcases mem_append.mp ht with ho | hn
  · exact .inl ho
  · obtain rfl := mem_singleton.mp hn
    exact .inr fun _ _ _ _ _ => ConnTask.noConfusion

theorem leaves_take (id : ℕ) : s.Leaves (s.take id).2 := by
  rw [take]
  split
  · exact .refl s
  next e _ =>
    have hta : s.Leaves { s with tasks := s.tasks.filter fun t => !t.armed e.2.serial } :=
      leaves_tasks fun t ht => .inl (mem_of_mem_filter ht)
    exact { hta with queries := eraseP_subset }

theorem leaves_removeShared : s.Leaves s.removeShared := by
  refine ⟨List.Subset.refl _, List.Subset.refl _, rfl, fun _ h => h, ?_, ?_, rfl⟩
  · rintro conn (hc | ⟨hs, -⟩)
    · exact .inl hc
    · cases hs
  · rintro - conn hs
    cases hs

theorem leaves_invalidate (conn : ℕ) : s.Leaves (s.invalidate conn) := by
  rw [invalidate]
  split
  · exact leaves_removeShared
  · exact .refl s

theorem leaves_release (conn : ℕ) : s.Leaves (s.release conn) := by
  rw [release]
  split
  · exact { Leaves.refl s with }
  · exact .refl s

theorem leaves_dial : s.Leaves { s with
      shared := some s.conns, sharedClaimed := false, sharedUsers := 0, conns := s.conns + 1 } := by
  refine ⟨List.Subset.refl _, List.Subset.refl _, rfl, fun _ h => h, ?_, ?_, rfl⟩
  · rintro conn (hc | ⟨hc, -⟩)
    · exact .inl (Nat.le_of_succ_le hc)
    · exact .inl (Nat.le_of_eq (Option.some.inj hc))
  · rintro - conn hc
    obtain rfl := Option.some.inj hc
    exact Nat.lt_succ_self _

/-! ### Steps that do more -/

theorem Inv.acquire (h : s.Inv) {i query conn : ℕ} {retry first : Bool}
    (hs : s.shared = some conn) :
    Inv { s.replace i [.acquired query retry first (!s.sharedClaimed) conn] with
      sharedClaimed := true
      sharedUsers := s.sharedUsers + 1
      loops := if s.sharedClaimed then s.loops else (conn, none) :: s.loops } := by
  have hl : ∀ {c : ℕ} {message : Option ℕ},
      (c, message) ∈ (if s.sharedClaimed then s.loops else (conn, none) :: s.loops) →
      (c, message) ∈ s.loops ∨ message = none ∧ s.Unused c := by
    intro c message hm
    cases hcl : s.sharedClaimed with
    | true => exact .inl (by simpa [hcl] using hm)
    | false =>
      rw [hcl] at hm
      rcases mem_cons.mp hm with heq | ho
      · obtain ⟨rfl, rfl⟩ := Prod.mk.inj heq
        exact .inr ⟨rfl, .inr ⟨hs, hcl⟩⟩
      · exact .inl ho
  refine ⟨fun e he c hr hne => ?_, fun c id hm => ?_, ?_, h.bound, h.answered⟩
  · obtain ⟨message, hmsg⟩ := hr
    rcases hl hmsg with ho | ⟨-, hu⟩
    · exact h.apart e he c ⟨message, ho⟩ hne
    · exact (h.unused c hu).1 e.1
  · rcases hl hm with ho | ⟨hn, -⟩
    · exact h.asked c id ho
    · cases hn
  · rintro c (hc | ⟨-, hcl⟩)
    · obtain ⟨hi, ha⟩ := h.unused c (.inl hc)
      refine ⟨hi, ?_⟩
      rintro ⟨query', retry', first', created, hm⟩
      rcases mem_append.mp hm with ho | hnew
      · exact ha ⟨query', retry', first', created, mem_of_mem_eraseIdx ho⟩
      · obtain ⟨-, -, -, -, rfl⟩ := ConnTask.acquired.inj (mem_singleton.mp hnew)
        exact absurd hc (Nat.not_le.mpr (h.bound c hs))
    · cases hcl

/-- The id of a new entry has not been asked on another connection that still delivers, and what
stands in the table has another id. -/
theorem Inv.registered (h : s.Inv) {query conn id : ℕ} {retry : Bool} (hid : s.nextId = some id)
    (hu : ¬ s.Unused conn)
    (hca : ∀ other, other ≠ conn → s.Running other → (id, other) ∉ s.issued) :
    (s.registered query conn id retry).Inv := by
  have hf : id ∉ s.queries.map fst := Multiplexer.scan_eq_some hid
  refine ⟨fun e he c hr hne hm => ?_, fun c k hm => ?_, fun c hc => ?_, h.bound, h.answered⟩
  · rcases mem_cons.mp he with rfl | he
    · rcases mem_cons.mp hm with heq | hm
      · exact hne (Prod.mk.inj heq).2
      · exact hca c hne hr hm
    · rcases mem_cons.mp hm with heq | hm
      · exact hf ((Prod.mk.inj heq).1 ▸ mem_map_of_mem he)
      · exact h.apart e he c hr hne hm
  · exact mem_cons_of_mem _ (h.asked c k hm)
  · obtain ⟨hi, ha⟩ := h.unused c hc
    refine ⟨fun k hm => ?_, ha⟩
    rcases mem_cons.mp hm with heq | hm
    · exact hu ((Prod.mk.inj heq).2 ▸ hc)
    · exact hi k hm

theorem Inv.loops (h : s.Inv) {loops : List (ℕ × Option ℕ)}
    (hr : ∀ conn message, (conn, message) ∈ loops → s.Running conn)
    (ha : ∀ conn id, (conn, some id) ∈ loops → (id, conn) ∈ s.issued) :
    Inv { s with loops := loops } where
  __ := h
  apart e he conn hc hne := by
    obtain ⟨message, hm⟩ := hc
    exact h.apart e he conn (hr conn message hm) hne
  asked := ha

/-- A read loop goes on from one message to another. -/
theorem Inv.readLoop (h : s.Inv) {conn : ℕ} {message m : Option ℕ}
    (hl : (conn, message) ∈ s.loops) (ha : ∀ id ∈ m, (id, conn) ∈ s.issued) :
    Inv { s with loops := (conn, m) :: s.loops.erase (conn, message) } := by
  refine h.loops (fun c n hm => ?_) fun c k hm => ?_ <;>
    rcases mem_cons.mp hm with heq | hm
  · exact ⟨message, (Prod.mk.inj heq).1 ▸ hl⟩
  · exact ⟨n, mem_of_mem_erase hm⟩
  · obtain ⟨rfl, rfl⟩ := Prod.mk.inj heq
    exact ha k rfl
  · exact h.asked c k (mem_of_mem_erase hm)

theorem take_some {id : ℕ} {pending : ConnPending} (h : (s.take id).1 = some pending) :
    (id, pending) ∈ s.queries := by
  rw [take] at h
  split at h
  · cases h
  next e he =>
    obtain rfl := Option.some.inj h
    have hid : e.1 = id := by simpa using find?_some he
    exact hid ▸ mem_of_find?_eq_some he

/-- A message that was asked for completes a query of its own connection. -/
theorem Inv.complete (h : s.Inv) {conn id : ℕ} (hr : s.Running conn)
    (ha : (id, conn) ∈ s.issued) : (s.complete conn id).Inv := by
  rw [Connections.complete]
  have ht := (leaves_take id).inv h
  split
  · exact h
  next pending s' heq =>
    have hp : (id, pending) ∈ s.queries := take_some (by rw [heq])
    rw [heq] at ht
    refine (leaves_release _).inv { ht with answered := forall_mem_cons.mpr ⟨?_, ?_⟩ }
    · by_contra hne
      exact h.apart _ hp conn hr (Ne.symm hne) ha
    · exact ht.answered

/-! ### Runs -/

theorem Inv.step {retryReadErrors : Bool} {e : ConnEvent} (h : s.Inv) (hc : s.Careful e) :
    (s.step retryReadErrors e).Inv := by
  cases e with
  | exchangeAsync => exact Leaves.inv { leaves_attempt (s := s) s.accepted true true with } h
  | dial =>
    rw [Connections.step]
    split
    · exact leaves_dial.inv h
    · exact h
  | acquireError i =>
    rw [Connections.step]
    split
    · exact (leaves_remove i).inv h
    · exact h
  | acquire i =>
    rw [Connections.step]
    split
    next hs => exact h.acquire hs
    next => exact h
  | register i =>
    rw [Connections.step]
    split
    next query retry first created conn hts =>
      split
      · exact ((leaves_remove i).trans (leaves_release conn)).inv h
      next id hid =>
        have hl : s.Leaves (s.replace i [.writing query retry first created conn id,
            .hook .contextDone false conn s.serial id,
            .hook .connDone false conn s.serial id]) := by
          refine leaves_replace fun t ht => ?_
          simp only [mem_cons, not_mem_nil, or_false] at ht
          rcases ht with rfl | rfl | rfl <;> exact fun _ _ _ _ _ => ConnTask.noConfusion
        refine (hl.inv h).registered hid (fun hu => ?_)
          fun other hne hr => ?_
        · exact (h.unused conn hu).2
            ⟨query, retry, first, created, mem_of_getElem? hts⟩
        · have hco : conn ∈ s.acquiredConn i := by
            rw [acquiredConn, hts]
            rfl
          obtain ⟨message, hmsg⟩ := hr
          exact hc conn hco id hid (other, message) hmsg hne
    next => exact h
  | writeDone i =>
    rw [Connections.step]
    split
    · exact (leaves_remove i).inv h
    · exact h
  | writeError i =>
    rw [Connections.step]
    split
    next query retry first created conn id hts =>
      have hl : s.Leaves (((s.replace i []).take id).2.invalidate conn) :=
        ((leaves_remove i).trans (leaves_take id)).trans
          (leaves_invalidate conn)
      dsimp only
      split
      · exact (hl.trans (leaves_attempt query retry false)).inv h
      · exact hl.inv h
    next => exact h
  | read conn id =>
    rw [Connections.step]
    split
    next hlo =>
      refine h.readLoop hlo ?_
      rintro _ ⟨⟩
      exact hc
    next => exact h
  | deliver conn id =>
    rw [Connections.step]
    split
    next hlo =>
      have hn := h.readLoop (m := none) hlo nofun
      exact hn.complete ⟨none, mem_cons_self⟩ (h.asked conn id hlo)
    next => exact h
  | readError conn =>
    rw [Connections.step]
    split
    · refine (leaves_invalidate conn).inv (h.loops (fun c message hm => ?_) fun c k hm => ?_)
      · exact ⟨message, mem_of_mem_erase hm⟩
      · exact h.asked c k (mem_of_mem_erase hm)
    · exact h
  | fire i =>
    have hh : ∀ kind conn serial id,
        (s.replace i [.hook kind true conn serial id]).Inv := by
      intro kind conn serial id
      refine (leaves_replace fun t ht => ?_).inv h
      obtain rfl := mem_singleton.mp ht
      exact fun _ _ _ _ _ => ConnTask.noConfusion
    rw [Connections.step]
    split
    · exact hh _ _ _ _
    · split
      · exact h
      · exact hh _ _ _ _
    · exact h
  | runHook i timedOut readFailed =>
    have hta : ∀ {id pending s'}, (s.replace i []).take id = (pending, s') → s.Leaves s' := by
      intro id pending s' heq
      have hl := (leaves_remove (s := s) i).trans (leaves_take id)
      rwa [heq] at hl
    rw [Connections.step]
    split
    next id _ =>
      split
      next s' heq => exact (hta heq).inv h
      next pending s' heq =>
        split
        · exact ((hta heq).trans (leaves_invalidate _)).inv h
        · exact ((hta heq).trans (leaves_release _)).inv h
    next id _ =>
      split
      next s' heq => exact (hta heq).inv h
      next pending s' heq =>
        split
        · exact ((hta heq).trans (leaves_attempt _ _ _)).inv h
        · exact (hta heq).inv h
    next => exact h
  | closeIdle =>
    rw [Connections.step]
    split
    · exact leaves_removeShared.inv h
    · exact h
  | reset => exact leaves_removeShared.inv h

theorem inv_empty : ({} : Connections).Inv := by
  refine ⟨?_, ?_, ?_, ?_, ?_⟩
  · exact fun e he => absurd he not_mem_nil
  · exact fun conn id h => absurd h not_mem_nil
  · refine fun conn _ => ⟨fun id h => absurd h not_mem_nil, ?_⟩
    rintro ⟨_, _, _, _, h⟩
    exact absurd h not_mem_nil
  · rintro conn ⟨⟩
  · exact fun e he => absurd he not_mem_nil

/-- In a run of careful steps a message only answers queries of its own connection. -/
theorem run_keptApart (retryReadErrors : Bool) (events : ℕ → ConnEvent) (n : ℕ)
    (hcareful : ∀ t < n, (run (step retryReadErrors) {} events t).Careful (events t)) :
    (run (step retryReadErrors) {} events n).KeptApart :=
  (run_preserved (P := fun _ (s : Connections) => s.Inv) (Nat.zero_le n) inv_empty
    fun t _ ht h => h.step (hcareful t ht)).answered

/-- A query on the first connection is answered there, and one on the second after a reset. -/
theorem run_keptApart_example :
    let events : List ConnEvent := [.exchangeAsync, .dial, .acquire 0, .register 0, .writeDone 0,
      .read 0 1, .deliver 0 1, .reset, .readError 0, .exchangeAsync, .dial, .acquire 0,
      .register 0, .writeDone 0, .read 1 2, .deliver 1 2]
    (run (step true) {} (events.getD · .reset) 16).KeptApart ∧
      (run (step true) {} (events.getD · .reset) 16).answered.length = 2 := by
  intro events
  exact ⟨run_keptApart true _ 16 (by decide +kernel), by decide +kernel⟩

/-- The server sends the id 2 on the first connection, where only the id 1 was asked. The loop has
the message in hand while the connection is replaced, and then answers the query of the second
connection with it. -/
theorem not_keptApart :
    let events : List ConnEvent := [.exchangeAsync, .dial, .acquire 0, .register 0, .writeDone 0,
      .read 0 2, .reset, .exchangeAsync, .dial, .acquire 2, .register 2, .deliver 0 2]
    ¬ (run (step true) {} (events.getD · .reset) 12).KeptApart := by
  intro events h
  have ha : (run (step true) {} (events.getD · .reset) 12).answered =
      [(0, ⟨1, 1, 1, false⟩)] := by
    decide +kernel
  have hap := h (0, ⟨1, 1, 1, false⟩) (by rw [ha]; exact mem_cons_self)
  cases hap

end Connections

end SingBox.DNS.Multiplex
