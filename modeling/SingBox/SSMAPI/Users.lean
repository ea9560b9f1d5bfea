import SingBox.Foundation.Run

/-!
# User changes of the management API

`UserManager` keeps the table of users and hands it to the server after every change, under its
mutex. The handlers of an update and of a deletion look the user up in one critical section and
change the table in another, and a change that the server rejects stays in the table. In runs where
neither matters, the requests have the answers and the effect that they have one after the other
(`atomic_run`).

Critical sections are steps.
-/

namespace SingBox.SSMAPI

open Function List Foundation

/-- `usersMap`. -/
abbrev Table (N P : Type) := N → Option P

inductive Request (N P : Type)
  | listUser
  | getUser (n : N)
  | addUser (n : N) (p : P)
  /-- `updateUser` with a password, `deleteUser` without. -/
  | edit (n : N) (p : Option P)

inductive Answer (N P : Type)
  | users (t : Table N P)
  | user (p : P)
  | created
  | noContent
  | badRequest
  | notFound

/-- How far the handler of a request is, and whether the server has rejected its change. -/
inductive Progress (N P : Type)
  | new
  | found (n : N) (p : Option P)
  | done (q : Request N P) (rejected : Bool) (a : Answer N P)

structure Users (ι N P : Type) where
  table : Table N P
  /-- The users that the server has accepted last. -/
  accepted : Table N P
  requests : ι → Progress N P := fun _ => .new

inductive UserEvent (ι N P : Type)
  /-- The first section of a handler. -/
  | request (i : ι) (q : Request N P) (rejected : Bool)
  /-- The second section. -/
  | change (i : ι) (rejected : Bool)

variable {ι N P : Type} [DecidableEq N]

def Request.updateUser (n : N) (p : P) : Request N P := .edit n (some p)

def Request.deleteUser (n : N) : Request N P := .edit n none

/-- A request by itself: the table that it leaves, and its answer. -/
def Request.alone (t : Table N P) (rejected : Bool) : Request N P → Table N P × Answer N P
  | .listUser => (t, .users t)
  | .getUser n => (t, (t n).elim .notFound .user)
  | .addUser n p =>
    if (t n).isSome ∨ rejected then (t, .badRequest) else (update t n (some p), .created)
  | .edit n p =>
    if t n = none then (t, .notFound)
    else if rejected then (t, .badRequest)
    else (update t n p, .noContent)

/-- The requests, one after the other. -/
def Replays (t : Table N P) : List (ι × Request N P × Bool × Answer N P) → Table N P → Prop
  | [], t' => t' = t
  | (_, q, rejected, a) :: order, t' =>
    (q.alone t rejected).2 = a ∧ Replays (q.alone t rejected).1 order t'

theorem replays_concat {t t' : Table N P} {order : List (ι × Request N P × Bool × Answer N P)}
    (h : Replays t order t') (i : ι) (q : Request N P) (rejected : Bool) : Replays t
      (order ++ [(i, q, rejected, (q.alone t' rejected).2)]) (q.alone t' rejected).1 := by
  induction order generalizing t with
  | nil =>
    obtain rfl : t' = t := h
    exact ⟨rfl, rfl⟩
  | cons x order ih => exact ⟨h.1, ih h.2⟩

namespace Users

variable [DecidableEq ι]

def finish (s : Users ι N P) (i : ι) (q : Request N P) (rejected : Bool) (a : Answer N P) :
    Users ι N P :=
  { s with requests := update s.requests i (.done q rejected a) }

/-- The table is changed and then handed to the server. -/
def postUpdate (s : Users ι N P) (t : Table N P) (rejected : Bool) : Users ι N P :=
  { s with table := t, accepted := if rejected then s.accepted else t }

/-- The first section of the handler of a request. -/
def handle (s : Users ι N P) (i : ι) (q : Request N P) (rejected : Bool) : Users ι N P :=
  match q with
  | .listUser => s.finish i q rejected (.users s.table)
  | .getUser n => s.finish i q rejected ((s.table n).elim .notFound .user)
  | .addUser n p =>
    if (s.table n).isSome then s.finish i q rejected .badRequest
    else (s.postUpdate (update s.table n (some p)) rejected).finish i q rejected
      (if rejected then .badRequest else .created)
  | .edit n p =>
    if s.table n = none then s.finish i q rejected .notFound
    else { s with requests := update s.requests i (.found n p) }

def step (s : Users ι N P) : UserEvent ι N P → Users ι N P
  | .request i q rejected =>
    match s.requests i with
    | .new => s.handle i q rejected
    | _ => s
  | .change i rejected =>
    match s.requests i with
    | .found n p =>
      (s.postUpdate (update s.table n p) rejected).finish i (.edit n p) rejected
        (if rejected then .badRequest else .noContent)
    | _ => s

/-- The answers and the table are those of the finished requests in some order, and the server has
accepted the table. -/
def Atomic (t : Table N P) (s : Users ι N P) : Prop :=
  s.accepted = s.table ∧ ∃ order : List (ι × Request N P × Bool × Answer N P),
    (order.map Prod.fst).Nodup ∧
    (∀ i q rejected a, (i, q, rejected, a) ∈ order ↔ s.requests i = .done q rejected a) ∧
    Replays t order s.table

/-- A change that is rejected changes nothing, and the user that a handler has found is still there
when it changes the table. -/
def MayStep (s : Users ι N P) : UserEvent ι N P → Prop
  | .request i (.addUser n _) true => s.requests i = .new → (s.table n).isSome
  | .request .. => True
  | .change i rejected =>
    ∀ n p, s.requests i = .found n p → s.table n ≠ none ∧ (rejected → s.table n = p)

variable {t : Table N P} {s : Users ι N P} {i : ι} {q : Request N P}
  {rejected : Bool}

/-- A request that ends with the effect it has by itself takes the last place of the order. -/
theorem Atomic.finish (h : s.Atomic t) (hn : ∀ q rejected a, s.requests i ≠ .done q rejected a)
    {s' : Users ι N P} {a : Answer N P}
    (hr : s'.requests = update s.requests i (.done q rejected a)) (ha : s'.accepted = s'.table)
    (hq : q.alone s.table rejected = (s'.table, a)) : s'.Atomic t := by
  obtain ⟨-, order, hnd, hmem, hrep⟩ := h
  refine ⟨ha, order ++ [(i, q, rejected, a)], ?_, ?_, ?_⟩
  · rw [map_append]
    refine hnd.append (nodup_singleton _) (disjoint_singleton.mpr fun hi => ?_)
    obtain ⟨⟨j, q', r, a⟩, hx, rfl⟩ := mem_map.mp hi
    exact hn q' r a ((hmem ..).mp hx)
  · intro j q' r b
    rw [mem_append, mem_singleton, hmem, hr]
    by_cases hj : j = i
    · subst hj
      simp [hn, eq_comm]
    · simp [hj]
  · have hc := replays_concat hrep i q rejected
    rwa [hq] at hc

/-- The requests that are under way are not affected by a lookup. -/
theorem Atomic.found (h : s.Atomic t) (hn : s.requests i = .new) {n : N} {p : Option P} :
    Atomic t { s with requests := update s.requests i (.found n p) } := by
  obtain ⟨ha, order, hnd, hmem, hrep⟩ := h
  refine ⟨ha, order, hnd, fun j q r a => ?_, hrep⟩
  rw [hmem]
  by_cases hj : j = i
  · subst hj
    simp [hn]
  · simp [hj]

theorem Atomic.handle (h : s.Atomic t) (hi : s.requests i = .new)
    (hm : s.MayStep (.request i q rejected)) : (s.handle i q rejected).Atomic t := by
  have hn : ∀ q rejected a, s.requests i ≠ .done q rejected a := by simp [hi]
  cases q with
  | listUser => exact h.finish hn rfl h.1 rfl
  | getUser n => exact h.finish hn rfl h.1 rfl
  | addUser n p =>
    simp only [Users.handle]
    split
    · next hs => exact h.finish hn rfl h.1 (if_pos (.inl hs))
    · next hs =>
      cases rejected with
      | true => exact absurd (hm hi) hs
      | false => exact h.finish hn rfl rfl (if_neg (by simpa using hs))
  | edit n p =>
    simp only [Users.handle]
    split
    · next hs => exact h.finish hn rfl h.1 (if_pos hs)
    · exact h.found hi

theorem Atomic.step (h : s.Atomic t) {e : UserEvent ι N P} (hm : s.MayStep e) :
    (s.step e).Atomic t := by
  cases e with
  | request i q rejected =>
    simp only [Users.step]
    split
    · next hi => exact h.handle hi hm
    · exact h
  | change i rejected =>
    simp only [Users.step]
    split
    · next n p hi =>
      obtain ⟨hs, hp⟩ := hm n p hi
      have hn : ∀ q rejected a, s.requests i ≠ .done q rejected a := by simp [hi]
      cases rejected with
      | true =>
        have hu : update s.table n p = s.table := hp rfl ▸ update_eq_self n s.table
        rw [hu]
        exact h.finish hn rfl h.1 (if_neg hs)
      | false => exact h.finish hn rfl rfl (if_neg hs)
    · exact h

/-- The requests are atomic in every state of a run whose steps may be taken. -/
theorem atomic_run (t : Table N P) (events : List (UserEvent ι N P))
    (h : Along step MayStep { table := t, accepted := t } events) :
    Atomic t (events.foldl step { table := t, accepted := t }) :=
  h.foldl ⟨rfl, [], nodup_nil, by simp, rfl⟩ fun _ _ h => h.step

theorem atomic_of_update : Atomic (fun _ => some 7)
    ([.request 0 (.updateUser 1 8) false, .request 1 (.getUser 1) false, .change 0 false].foldl step
      { table := fun _ => some 7, accepted := fun _ => some 7 } : Users ℕ ℕ ℕ) := by
  refine atomic_run _ _ ⟨trivial, trivial, fun n p hi => ?_, trivial⟩
  have hf : Progress.found 1 (some 8) = .found n p := hi
  obtain ⟨rfl, rfl⟩ := Progress.found.inj hf
  exact ⟨nofun, nofun⟩

/-- A user that the server has rejected stays in the table. -/
theorem not_atomic : ¬Atomic (fun _ => none) ([.request 0 (.addUser 1 7) true].foldl step
      { table := fun _ => none, accepted := fun _ => none } : Users ℕ ℕ ℕ) :=
  fun h => nomatch congrFun h.1 1

end Users

end SingBox.SSMAPI
