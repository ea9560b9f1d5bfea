import SingBox.Foundation.Calls
import SingBox.Foundation.Count
import SingBox.Foundation.Run

/-!
# The realm server

A session registers a realm name for a user. It is kept in two tables, by name and by token, and
counted for its user; an expiry timer removes it unless heartbeats arm it again. The callback of a
timer that has fired runs later, and looks at the clock: at an instant that is not after the expiry
it does nothing, and nobody arms the timer again.

Every section under the lock of the server is one step. Sessions are numbered, and stay in the model
after they are removed, since handlers and callbacks may still hold them. Instants are numbers.
-/

namespace SingBox.Realm

open Foundation Function List Bool Realm

variable {RealmID SessionID Name Nonce : Type*}

/-- `realmUser`. A limit of zero is none. -/
structure User (Name : Type*) where
  name : Name
  maxRealms : ℕ
deriving DecidableEq, Repr

/-- The channels of a session. The response channels are numbered as they are made. -/
structure Channels (Nonce : Type*) where
  doneClosed : Bool
  eventsClosed : Bool
  created : ℕ
  pending : List (Nonce × ℕ)
  closedResponses : List ℕ
deriving DecidableEq, Repr

/-- `realmSession`. -/
structure Session (RealmID SessionID Name Nonce : Type*) where
  id : SessionID
  realmID : RealmID
  username : Name
  expires : ℕ
  /-- The instant for which the timer is armed. -/
  timer : Option ℕ
  closed : Bool
  channels : Channels Nonce
deriving DecidableEq, Repr

/-- `server`, the clock, and the callbacks that have not run yet. -/
structure Server (RealmID SessionID Name Nonce : Type*) where
  now : ℕ
  objects : List (Session RealmID SessionID Name Nonce)
  realms : RealmID → Option ℕ
  sessions : SessionID → Option ℕ
  userCounts : Name → ℕ
  callbacks : List ℕ
  /-- A channel was closed twice, or sent on after it was closed. -/
  panicked : Bool

def newServer : Server RealmID SessionID Name Nonce :=
  ⟨0, [], fun _ => none, fun _ => none, fun _ => 0, [], false⟩

def sessionTTL : ℕ := 60

def maxPendingAttempts : ℕ := 16

/-- What can happen next. `delay`: the time between the two clock readings of a section. -/
inductive Event (RealmID SessionID Name Nonce : Type*)
  | register (user : User Name) (realmID : RealmID) (id : SessionID) (delay : ℕ)
  | deregister (h : ℕ)
  | heartbeat (h : ℕ) (delay : ℕ)
  | fire (h : ℕ)
  | callback (i : ℕ)
  | sendEvent (h : ℕ)
  | registerPending (h : ℕ) (nonce : Nonce)
  | deliverPending (h : ℕ) (nonce : Nonce)
  | cancelPending (h : ℕ) (nonce : Nonce)
  | closeAll
  | tick (d : ℕ)
deriving DecidableEq, Repr

/-! ### Channels -/

/-- The channels of a new session. -/
def Channels.new : Channels Nonce := ⟨false, false, 0, [], []⟩

/-- All channels are closed; also, whether one of them was closed already. -/
def Channels.close (c : Channels Nonce) : Channels Nonce × Bool :=
  (⟨true, true, c.created, [], c.closedResponses ++ c.pending.map Prod.snd⟩,
    c.doneClosed || c.eventsClosed || c.pending.any (fun p => p.2 ∈ c.closedResponses) ||
      !decide (c.pending.map Prod.snd).Nodup)

/-- The channels of an open session are open, and those that are pending differ. -/
structure Channels.Ok (c : Channels Nonce) : Prop where
  doneClosed : c.doneClosed = false
  eventsClosed : c.eventsClosed = false
  nodup : (c.pending.map Prod.snd).Nodup
  created : ∀ p ∈ c.pending, p.2 < c.created
  unclosed : c.closedResponses = []

theorem Channels.Ok.new : (Channels.new : Channels Nonce).Ok :=
  ⟨rfl, rfl, nodup_nil, nofun, rfl⟩

theorem Channels.Ok.close_snd {c : Channels Nonce} (h : c.Ok) : c.close.2 = false := by
  simp [Channels.close, h.doneClosed, h.eventsClosed, h.unclosed, h.nodup]

section

variable [DecidableEq RealmID] [DecidableEq SessionID] [DecidableEq Name] [DecidableEq Nonce]

/-- A response channel is made for a nonce. -/
def Channels.register (c : Channels Nonce) (nonce : Nonce) : Channels Nonce :=
  if c.pending.length ≥ maxPendingAttempts ∨ nonce ∈ c.pending.map Prod.fst then c
  else { c with created := c.created + 1, pending := c.pending ++ [(nonce, c.created)] }

/-- The response channel of a nonce is taken out. -/
def Channels.remove (c : Channels Nonce) (nonce : Nonce) : Channels Nonce :=
  { c with pending := c.pending.filter fun p => p.1 ≠ nonce }

/-- The response channel of a nonce was closed. -/
def Channels.wasClosed (c : Channels Nonce) (nonce : Nonce) : Bool :=
  c.pending.any fun p => p.1 = nonce ∧ p.2 ∈ c.closedResponses

variable {c : Channels Nonce}

theorem Channels.Ok.register (h : c.Ok) (nonce : Nonce) : (c.register nonce).Ok := by
  unfold Channels.register
  split_ifs
  · exact h
  · refine ⟨h.doneClosed, h.eventsClosed, ?_, fun p hp => ?_, h.unclosed⟩
    · rw [map_append, nodup_append]
      refine ⟨h.nodup, nodup_singleton _, fun a ha b hb => ?_⟩
      obtain ⟨p, hp, rfl⟩ := mem_map.mp ha
      rw [mem_singleton.mp hb]
      exact Nat.ne_of_lt (h.created p hp)
    · rcases mem_append.mp hp with hp | hp
      · exact Nat.lt_succ_of_lt (h.created p hp)
      · rw [mem_singleton.mp hp]
        exact Nat.lt_succ_self _

theorem Channels.Ok.remove (h : c.Ok) (nonce : Nonce) : (c.remove nonce).Ok := by
  refine ⟨h.doneClosed, h.eventsClosed, ?_, fun p hp => ?_, h.unclosed⟩
  · exact h.nodup.sublist (filter_sublist.map Prod.snd)
  · exact h.created p (mem_filter.mp hp).1

theorem Channels.Ok.wasClosed (h : c.Ok) (nonce : Nonce) : c.wasClosed nonce = false := by
  simp [Channels.wasClosed, h.unclosed]

/-! ### The server -/

def removeSessionLocked (s : Server RealmID SessionID Name Nonce) (h : ℕ)
    (sess : Session RealmID SessionID Name Nonce) : Server RealmID SessionID Name Nonce :=
  if sess.closed then s
  else
    { s with
      objects := s.objects.set h
        { sess with closed := true, timer := none, channels := sess.channels.close.1 }
      realms :=
        if s.realms sess.realmID = some h then Function.update s.realms sess.realmID none
        else s.realms
      userCounts :=
        if (s.sessions sess.id).isSome then
          Function.update s.userCounts sess.username (s.userCounts sess.username - 1)
        else s.userCounts
      sessions := Function.update s.sessions sess.id none
      panicked := s.panicked || sess.channels.close.2 }

/-- The locked section of `handleRegister`. -/
def register (s : Server RealmID SessionID Name Nonce) (user : User Name) (realmID : RealmID)
    (id : SessionID) (delay : ℕ) : Server RealmID SessionID Name Nonce :=
  if (s.realms realmID).isSome then s
  else if user.maxRealms > 0 ∧ s.userCounts user.name ≥ user.maxRealms then s
  else
    { s with
      now := s.now + delay
      objects := s.objects ++
        [⟨id, realmID, user.name, s.now + sessionTTL, some (s.now + delay + sessionTTL), false,
          Channels.new⟩]
      realms := Function.update s.realms realmID (some s.objects.length)
      sessions := Function.update s.sessions id (some s.objects.length)
      userCounts := Function.update s.userCounts user.name (s.userCounts user.name + 1) }

/-- `closeAll` goes through the table of sessions. -/
def closeAll (s : Server RealmID SessionID Name Nonce) : Server RealmID SessionID Name Nonce :=
  (List.range s.objects.length).foldl (fun s h =>
    match s.objects[h]? with
    | some sess => if s.sessions sess.id = some h then removeSessionLocked s h sess else s
    | none => s) s

/-- The channels of a session are replaced. -/
def setChannels (s : Server RealmID SessionID Name Nonce) (h : ℕ)
    (sess : Session RealmID SessionID Name Nonce) (channels : Channels Nonce) :
    Server RealmID SessionID Name Nonce :=
  { s with objects := s.objects.set h { sess with channels := channels } }

/-- What a handler or a callback does with a session it holds. -/
def act (s : Server RealmID SessionID Name Nonce) (h : ℕ)
    (sess : Session RealmID SessionID Name Nonce) :
    Event RealmID SessionID Name Nonce → Server RealmID SessionID Name Nonce
  | .deregister _ => removeSessionLocked s h sess
  | .heartbeat _ delay =>
    { s with
      now := s.now + delay
      objects := s.objects.set h
        { sess with
          expires := s.now + sessionTTL
          timer := some (s.now + delay + sessionTTL) } }
  | .fire _ =>
    match sess.timer with
    | some t =>
      if t ≤ s.now then
        { s with
          objects := s.objects.set h { sess with timer := none }
          callbacks := s.callbacks ++ [h] }
      else s
    | none => s
  | .callback _ =>
    if sess.closed ∨ ¬ s.now > sess.expires then s else removeSessionLocked s h sess
  | .sendEvent _ =>
    if sess.closed then s
    else { s with panicked := s.panicked || sess.channels.eventsClosed }
  | .registerPending _ nonce =>
    if sess.closed then s else setChannels s h sess (sess.channels.register nonce)
  | .deliverPending _ nonce =>
    if sess.closed then s
    else
      { setChannels s h sess (sess.channels.remove nonce) with
        panicked := s.panicked || sess.channels.wasClosed nonce }
  | .cancelPending _ nonce => setChannels s h sess (sess.channels.remove nonce)
  | _ => s

/-- `act` on the session with the handle `h`. -/
def actOn (s : Server RealmID SessionID Name Nonce) (h : ℕ)
    (e : Event RealmID SessionID Name Nonce) : Server RealmID SessionID Name Nonce :=
  match s.objects[h]? with
  | some sess => act s h sess e
  | none => s

/-- One event. -/
def step (s : Server RealmID SessionID Name Nonce) (e : Event RealmID SessionID Name Nonce) :
    Server RealmID SessionID Name Nonce :=
  match e with
  | .register user realmID id delay => register s user realmID id delay
  | .callback i =>
    match s.callbacks[i]? with
    | some h => actOn { s with callbacks := resume s.callbacks i [] } h e
    | none => s
  | .closeAll => closeAll s
  | .tick d => { s with now := s.now + d }
  | .deregister h | .heartbeat h _ | .fire h | .sendEvent h | .registerPending h _
  | .deliverPending h _ | .cancelPending h _ => actOn s h e

end

/-! ### The property and the condition -/

/-- The tables have the open sessions and no others, every user has as many as are counted, and no
more than the limit allows; no channel was misused. -/
structure Entries [DecidableEq Name] (users : List (User Name))
    (s : Server RealmID SessionID Name Nonce) : Prop where
  realms : ∀ realmID h, s.realms realmID = some h ↔
    ∃ sess, s.objects[h]? = some sess ∧ sess.closed = false ∧ sess.realmID = realmID
  sessions : ∀ id h, s.sessions id = some h ↔
    ∃ sess, s.objects[h]? = some sess ∧ sess.closed = false ∧ sess.id = id
  counts : ∀ name, s.userCounts name =
    s.objects.countP fun sess => !sess.closed && sess.username = name
  limits : ∀ user ∈ users, 0 < user.maxRealms → s.userCounts user.name ≤ user.maxRealms
  panicked : s.panicked = false

/-- The entries are right, and the timer of an open session is armed, or a callback of it is
pending. -/
structure Bookkeeping [DecidableEq Name] (users : List (User Name))
    (s : Server RealmID SessionID Name Nonce) : Prop extends Entries users s where
  timers : ∀ h sess, s.objects[h]? = some sess → sess.closed = false →
    sess.timer ≠ none ∨ h ∈ s.callbacks

/-- A user that registers is configured, and the random token of a session is new. -/
def Admissible (users : List (User Name)) (s : Server RealmID SessionID Name Nonce) :
    Event RealmID SessionID Name Nonce → Prop
  | .register user _ id _ => user ∈ users ∧ ∀ sess ∈ s.objects, sess.id ≠ id
  | _ => True

/-- A callback of an open session does not run at the instant of its expiry, unless the timer is
armed again or another callback of it is pending. -/
def DecidesLate (s : Server RealmID SessionID Name Nonce) :
    Event RealmID SessionID Name Nonce → Prop
  | .callback i =>
    match s.callbacks[i]? with
    | some h => ∀ sess ∈ s.objects[h]?, sess.closed = false → s.now = sess.expires →
      sess.timer ≠ none ∨ h ∈ resume s.callbacks i []
    | none => True
  | _ => True

/-! ### The invariant -/

/-- A timer that is armed will not fire before the expiry; if it is not, a callback is pending and
the expiry has come. -/
def TimerOk (now : ℕ) (callbacks : List ℕ) (h : ℕ) (sess : Session RealmID SessionID Name Nonce) :
    Prop :=
  match sess.timer with
  | some t => sess.expires ≤ t
  | none => h ∈ callbacks ∧ sess.expires ≤ now

open Nat Realm

theorem TimerOk.mono {now now' : ℕ} {cbs cb' : List ℕ} {h : ℕ}
    {sess : Session RealmID SessionID Name Nonce} (hok : TimerOk now cbs h sess)
    (hn : now ≤ now') (hc : h ∈ cbs → h ∈ cb') : TimerOk now' cb' h sess := by
  unfold TimerOk at hok ⊢
  cases htm : sess.timer with
  | some t =>
    rw [htm] at hok
    exact hok
  | none =>
    rw [htm] at hok
    exact ⟨hc hok.1, le_trans hok.2 hn⟩

/-- All open sessions, apart from one, have their timers in order. -/
def TimersOkBut (exempt : ℕ → Prop) (s : Server RealmID SessionID Name Nonce) : Prop :=
  ∀ h sess, s.objects[h]? = some sess → sess.closed = false → ¬ exempt h →
    TimerOk s.now s.callbacks h sess

variable {s s' : Server RealmID SessionID Name Nonce}
  {sess sess' : Session RealmID SessionID Name Nonce} {h : ℕ}

/-- A table has the open sessions, by their keys. -/
def Indexes {K : Type*} (tab : K → Option ℕ) (key : Session RealmID SessionID Name Nonce → K)
    (objects : List (Session RealmID SessionID Name Nonce)) : Prop :=
  ∀ k j, tab k = some j ↔ ∃ sess, objects[j]? = some sess ∧ sess.closed = false ∧ key sess = k

variable {K : Type*} {tab : K → Option ℕ} {key : Session RealmID SessionID Name Nonce → K}

/-- A session is replaced by one with the same key that is open if it was. -/
theorem Indexes.set (ht : Indexes tab key s.objects) (hse : s.objects[h]? = some sess)
    (hcl : sess'.closed = sess.closed) (hk : key sess' = key sess) :
    Indexes tab key (s.objects.set h sess') := by
  intro k j
  rw [ht k j]
  by_cases hj : j = h
  · subst hj
    rw [getElem?_set_self_of hse, hse]
    simp [hcl, hk]
  · rw [getElem?_set_ne (Ne.symm hj)]

theorem Indexes.remove [DecidableEq K] (ht : Indexes tab key s.objects)
    (hse : s.objects[h]? = some sess) (hop : sess.closed = false) (hcl : sess'.closed) :
    Indexes (Function.update tab (key sess) none) key (s.objects.set h sess') := by
  intro k j
  have hsl : tab (key sess) = some h := (ht _ _).mpr ⟨sess, hse, hop, rfl⟩
  have hg : ∀ found, (s.objects.set h sess')[h]? = some found → found.closed ≠ false := by
    intro found hf hfa
    rw [getElem?_set_self_of hse] at hf
    cases hf
    rw [hcl] at hfa
    cases hfa
  by_cases hk : k = key sess
  · subst hk
    rw [update_self]
    constructor
    · exact nofun
    · rintro ⟨found, hf, hfo, hfk⟩
      by_cases hj : j = h
      · subst hj
        exact absurd hfo (hg found hf)
      · rw [getElem?_set_ne (Ne.symm hj)] at hf
        have ho := (ht _ _).mpr ⟨found, hf, hfo, hfk⟩
        rw [hsl] at ho
        exact absurd (Option.some.inj ho).symm hj
  · rw [update_of_ne hk, ht k j]
    by_cases hj : j = h
    · subst hj
      constructor
      · rintro ⟨found, hf, -, hfk⟩
        rw [hse] at hf
        cases hf
        exact absurd hfk.symm hk
      · rintro ⟨found, hf, hfo, -⟩
        exact absurd hfo (hg found hf)
    · rw [getElem?_set_ne (Ne.symm hj)]

theorem Indexes.add [DecidableEq K] (ht : Indexes tab key s.objects)
    (new : Session RealmID SessionID Name Nonce) (hn : tab (key new) = none)
    (hop : new.closed = false) :
    Indexes (Function.update tab (key new) (some s.objects.length)) key (s.objects ++ [new]) := by
  intro k j
  constructor
  · intro hj
    by_cases hk : k = key new
    · subst hk
      rw [update_self] at hj
      cases hj
      exact ⟨new, getElem?_concat_length, hop, rfl⟩
    · rw [update_of_ne hk] at hj
      obtain ⟨found, hf, hr⟩ := (ht k j).mp hj
      obtain ⟨hlt, -⟩ := List.getElem?_eq_some_iff.mp hf
      exact ⟨found, (getElem?_append_left hlt).trans hf, hr⟩
  · rintro ⟨found, hf, hfo, rfl⟩
    rcases getElem?_concat_cases hf with hf | ⟨rfl, rfl⟩
    · have ho := (ht _ _).mpr ⟨found, hf, hfo, rfl⟩
      rw [update_of_ne ?_]
      · exact ho
      · intro hk
        rw [hk, hn] at ho
        cases ho
    · exact update_self _ _ _

variable [DecidableEq Name]

/-- The entries are right, and so are the channels of the open sessions. -/
structure Tables (users : List (User Name)) (s : Server RealmID SessionID Name Nonce) : Prop
    extends Entries users s where
  channels : ∀ sess ∈ s.objects, sess.closed = false → sess.channels.Ok

variable {users : List (User Name)}

theorem Tables.new : Tables users (newServer : Server RealmID SessionID Name Nonce) := by
  refine ⟨⟨fun realmID h => ?_, fun id h => ?_, fun _ => rfl, fun _ _ _ => Nat.zero_le _, rfl⟩,
    nofun⟩
  · constructor
    · exact nofun
    · rintro ⟨sess, hse, -⟩
      cases hse
  · constructor
    · exact nofun
    · rintro ⟨sess, hse, -⟩
      cases hse

theorem Tables.bookkeeping (ht : Tables users s) (htms : TimersOkBut (fun _ => False) s) :
    Bookkeeping users s := by
  refine ⟨ht.toEntries, fun h sess hse ho => ?_⟩
  have hok := htms h sess hse ho id
  unfold TimerOk at hok
  cases htm : sess.timer with
  | some t => exact Or.inl (Option.some_ne_none t)
  | none =>
    rw [htm] at hok
    exact Or.inr hok.1

theorem Tables.update (ht : Tables users s) (hse : s.objects[h]? = some sess)
    (ho : s'.objects = s.objects.set h sess') (hre : s'.realms = s.realms)
    (hss : s'.sessions = s.sessions) (hcn : s'.userCounts = s.userCounts)
    (hp : s'.panicked = false) (hcl : sess'.closed = sess.closed)
    (hid : sess'.id = sess.id) (hr : sess'.realmID = sess.realmID)
    (hu : sess'.username = sess.username)
    (hc : sess.closed = false → sess'.channels.Ok) : Tables users s' where
  realms := by
    rw [hre, ho]
    exact Indexes.set ht.realms hse hcl hr
  sessions := by
    rw [hss, ho]
    exact Indexes.set ht.sessions hse hcl hid
  counts name := by
    have hst := countP_set_add (q := fun sess => !sess.closed && sess.username = name) hse sess'
    simp only [hcl, hu] at hst
    rw [hcn, ho, ht.counts name]
    omega
  limits := by
    rw [hcn]
    exact ht.limits
  panicked := hp
  channels found hf hop := by
    rw [ho] at hf
    rcases mem_or_eq_of_mem_set hf with hf | rfl
    · exact ht.channels found hf hop
    · exact hc (hcl ▸ hop)

section

variable [DecidableEq RealmID] [DecidableEq SessionID]

theorem Tables.remove (ht : Tables users s) (hse : s.objects[h]? = some sess) :
    Tables users (removeSessionLocked s h sess) := by
  unfold removeSessionLocked
  by_cases hcl : sess.closed = true
  · rw [if_pos hcl]
    exact ht
  have ho : sess.closed = false := eq_false_iff.mpr hcl
  have hr : s.realms sess.realmID = some h := (ht.realms _ _).mpr ⟨sess, hse, ho, rfl⟩
  have hss : s.sessions sess.id = some h := (ht.sessions _ _).mpr ⟨sess, hse, ho, rfl⟩
  have hok := ht.channels sess (mem_of_getElem? hse) ho
  have hso : (s.sessions sess.id).isSome = true := by rw [hss]; rfl
  rw [if_neg hcl, if_pos hr, if_pos hso, hok.close_snd, Bool.or_false]
  have hl : ∀ name, Function.update s.userCounts sess.username
      (s.userCounts sess.username - 1) name ≤ s.userCounts name := by
    intro name
    by_cases hn : name = sess.username
    · subst hn
      rw [update_self]
      exact Nat.sub_le _ _
    · rw [update_of_ne hn]
  refine ⟨⟨Indexes.remove ht.realms hse ho rfl, Indexes.remove ht.sessions hse ho rfl,
    fun name => ?_, fun user hu hli => ?_, ht.panicked⟩, fun found hf hfo => ?_⟩
  · have hst := countP_set_add (q := fun sess => !sess.closed && sess.username = name) hse
      { sess with closed := true, timer := none, channels := sess.channels.close.1 }
    have hc := ht.counts name
    dsimp only
    by_cases hn : name = sess.username
    · subst hn
      rw [update_self]
      simp only [ho, Bool.not_false, Bool.true_and, decide_true, if_true, Bool.not_true,
        Bool.false_and, Bool.false_eq_true, if_false] at hst
      omega
    · rw [update_of_ne hn]
      simp only [ho, Bool.not_false, Bool.true_and, decide_eq_true_eq, Ne.symm hn, if_false,
        Bool.not_true, Bool.false_and, Bool.false_eq_true] at hst
      omega
  · exact Nat.le_trans (hl user.name) (ht.limits user hu hli)
  · rcases mem_or_eq_of_mem_set hf with hf | rfl
    · exact ht.channels found hf hfo
    · cases hfo

theorem TimersOkBut.remove {exempt : ℕ → Prop} (ht : TimersOkBut exempt s)
    (hse : s.objects[h]? = some sess) (he : ∀ j, exempt j → j = h) :
    TimersOkBut (fun _ => False) (removeSessionLocked s h sess) := by
  unfold removeSessionLocked
  by_cases hcl : sess.closed = true
  · rw [if_pos hcl]
    intro j found hf ho _
    refine ht j found hf ho fun hj => ?_
    rw [he j hj, hse] at hf
    cases hf
    rw [hcl] at ho
    cases ho
  · rw [if_neg hcl]
    intro j found hf ho _
    rcases getElem?_set_cases hf with ⟨-, rfl⟩ | ⟨hne, hf⟩
    · cases ho
    · exact ht j found hf ho fun hj => hne (he j hj)

/-- `closeAll` removes one session after the other. -/
theorem closeAll_induction {P : Server RealmID SessionID Name Nonce → Prop}
    (hr : ∀ s h sess, P s → s.objects[h]? = some sess → P (removeSessionLocked s h sess))
    (hs : P s) : P (closeAll s) := by
  unfold closeAll
  generalize range s.objects.length = ha
  induction ha generalizing s with
  | nil => exact hs
  | cons h ha ih =>
    rw [foldl_cons]
    apply ih
    split
    · rename_i sess hse
      split_ifs
      · exact hr s h sess hs hse
      · exact hs
    · exact hs

theorem Tables.register (ht : Tables users s) {user : User Name} {realmID : RealmID}
    {id : SessionID} (delay : ℕ) (hus : user ∈ users) (hne : ∀ sess ∈ s.objects, sess.id ≠ id)
    (hun : ∀ u ∈ users, ∀ v ∈ users, u.name = v.name → u.maxRealms = v.maxRealms) :
    Tables users (register s user realmID id delay) := by
  unfold Realm.register
  split_ifs with htk hli
  · exact ht
  · exact ht
  have hr : s.realms realmID = none := Option.not_isSome_iff_eq_none.mp htk
  have hse : s.sessions id = none := by
    rw [Option.eq_none_iff_forall_ne_some]
    intro h hso
    obtain ⟨sess, hss, -, hid⟩ := (ht.sessions id h).mp hso
    exact hne sess (mem_of_getElem? hss) hid
  let sess : Session RealmID SessionID Name Nonce :=
    ⟨id, realmID, user.name, s.now + sessionTTL, some (s.now + delay + sessionTTL), false,
      Channels.new⟩
  refine ⟨⟨Indexes.add ht.realms sess hr rfl, Indexes.add ht.sessions sess hse rfl,
    fun name => ?_, fun u hu hpos => ?_, ht.panicked⟩, fun found hf ho => ?_⟩
  · have hc := ht.counts name
    dsimp only
    rw [countP_append, countP_singleton]
    by_cases hn : name = user.name
    · subst hn
      simp [hc]
    · simp [update_of_ne hn, hc, Ne.symm hn]
  · by_cases hn : u.name = user.name
    · have hsa := hun u hu user hus hn
      have hl : s.userCounts user.name < user.maxRealms := by omega
      dsimp only
      rw [hn, update_self, hsa]
      exact hl
    · dsimp only
      rw [update_of_ne hn]
      exact ht.limits u hu hpos
  · rcases mem_append.mp hf with hf | hf
    · exact ht.channels found hf ho
    · rw [mem_singleton.mp hf]
      exact Channels.Ok.new

theorem TimersOkBut.register (ht : TimersOkBut (fun _ => False) s) (user : User Name)
    (realmID : RealmID) (id : SessionID) (delay : ℕ) :
    TimersOkBut (fun _ => False) (register s user realmID id delay) := by
  unfold Realm.register
  split_ifs
  · exact ht
  · exact ht
  intro j found hf ho hn
  rcases getElem?_concat_cases hf with hf | ⟨-, rfl⟩
  · exact (ht j found hf ho hn).mono (Nat.le_add_right _ _) fun hj => hj
  · dsimp only [TimerOk]
    omega

omit [DecidableEq RealmID] [DecidableEq SessionID] [DecidableEq Name] in
/-- A session changes, the clock goes on, and callbacks of other sessions stay. -/
theorem TimersOkBut.update (ht : TimersOkBut (fun _ => False) s)
    (hob : s'.objects = s.objects.set h sess') (hn : s.now ≤ s'.now)
    (hc : ∀ j ∈ s.callbacks, j ∈ s'.callbacks)
    (htm : sess'.closed = false → TimerOk s'.now s'.callbacks h sess') :
    TimersOkBut (fun _ => False) s' := by
  intro j found hf ho hnot
  rw [hob] at hf
  rcases getElem?_set_cases hf with ⟨rfl, rfl⟩ | ⟨-, hf⟩
  · exact htm ho
  · exact (ht j found hf ho hnot).mono hn (hc j)

/-- Everything that the property needs. -/
structure Sound (users : List (User Name)) (s : Server RealmID SessionID Name Nonce) : Prop where
  tables : Tables users s
  timers : TimersOkBut (fun _ => False) s

omit [DecidableEq RealmID] [DecidableEq SessionID] in
/-- The channels of a session change, those of an open one as they should. -/
theorem Sound.setChannels (hs : Sound users s) (hse : s.objects[h]? = some sess)
    {channels : Channels Nonce} (hok : sess.closed = false → channels.Ok) :
    Sound users (setChannels s h sess channels) := by
  refine ⟨hs.tables.update hse rfl rfl rfl rfl hs.tables.panicked rfl rfl rfl rfl hok,
    hs.timers.update rfl (le_refl _) (fun _ hj => hj) fun ho => ?_⟩
  exact hs.timers h sess hse ho id

variable [DecidableEq Nonce] {e : Event RealmID SessionID Name Nonce}

section

variable (hs : Sound users s)

include hs

theorem Sound.act (hse : s.objects[h]? = some sess) (he : ∀ i, e ≠ .callback i) :
    Sound users (act s h sess e) := by
  have hok : sess.closed = false → sess.channels.Ok := hs.tables.channels sess (mem_of_getElem? hse)
  cases e with
  | deregister _ =>
    exact ⟨hs.tables.remove hse, hs.timers.remove hse fun _ hj => hj.elim⟩
  | heartbeat _ delay =>
    refine ⟨hs.tables.update hse rfl rfl rfl rfl hs.tables.panicked rfl rfl rfl rfl hok,
      hs.timers.update rfl (Nat.le_add_right _ _) (fun _ hj => hj) fun _ => ?_⟩
    dsimp only [TimerOk]
    omega
  | fire _ =>
    rw [act]
    split
    · rename_i t htm
      split_ifs with hd
      · refine ⟨hs.tables.update hse rfl rfl rfl rfl hs.tables.panicked rfl rfl rfl rfl hok,
          hs.timers.update rfl (le_refl _) (fun _ hj => mem_append_left _ hj)
            fun ho => ⟨mem_append_right _ (mem_singleton_self _), ?_⟩⟩
        have ha := hs.timers h sess hse ho id
        rw [TimerOk, htm] at ha
        exact le_trans ha hd
      · exact hs
    · exact hs
  | callback i => exact absurd rfl (he i)
  | sendEvent _ =>
    rw [act]
    split_ifs with hcl
    · exact hs
    · have hp : (s.panicked || sess.channels.eventsClosed) = false := by
        rw [hs.tables.panicked, (hok (eq_false_iff.mpr hcl)).eventsClosed]
        rfl
      exact ⟨⟨⟨hs.tables.realms, hs.tables.sessions, hs.tables.counts, hs.tables.limits, hp⟩,
        hs.tables.channels⟩, hs.timers⟩
  | registerPending _ nonce =>
    rw [act]
    split_ifs
    · exact hs
    · exact hs.setChannels hse fun ho => (hok ho).register nonce
  | deliverPending _ nonce =>
    rw [act]
    split_ifs with hcl
    · exact hs
    · have hst := hs.setChannels hse fun ho => (hok ho).remove nonce
      have hp : (s.panicked || sess.channels.wasClosed nonce) = false := by
        rw [hs.tables.panicked, (hok (eq_false_iff.mpr hcl)).wasClosed nonce]
        rfl
      exact ⟨⟨⟨hst.tables.realms, hst.tables.sessions, hst.tables.counts, hst.tables.limits,
        hp⟩, hst.tables.channels⟩, hst.timers⟩
  | cancelPending _ nonce => exact hs.setChannels hse fun ho => (hok ho).remove nonce
  | register user realmID id delay => exact hs
  | closeAll => exact hs
  | tick d => exact hs

theorem Sound.actOn (h : ℕ) (he : ∀ i, e ≠ .callback i) : Sound users (actOn s h e) := by
  rw [Realm.actOn]
  split
  · rename_i sess hse
    exact hs.act hse he
  · exact hs

theorem Sound.callback {i : ℕ} (hcb : s.callbacks[i]? = some h) (hl : DecidesLate s (.callback i)) :
    Sound users (Realm.actOn { s with callbacks := resume s.callbacks i [] } h (.callback i)) := by
  simp only [DecidesLate, hcb] at hl
  -- Without the callback, all timers but the one of its session are still in order.
  have hoth : TimersOkBut (· = h) { s with callbacks := resume s.callbacks i [] } := by
    intro j found hf ho hne
    exact (hs.timers j found hf ho id).mono (Nat.le_refl _) fun hj =>
      mem_resume_of_ne hcb hj hne
  have ht : Tables users { s with callbacks := resume s.callbacks i [] } :=
    ⟨⟨hs.tables.realms, hs.tables.sessions, hs.tables.counts, hs.tables.limits,
      hs.tables.panicked⟩, hs.tables.channels⟩
  rw [Realm.actOn]
  split
  · rename_i sess hse
    rw [Realm.act]
    split_ifs with hd
    · refine ⟨ht, fun j found hf ho _ => ?_⟩
      by_cases hj : j = h
      · subst hj
        rw [show s.objects[j]? = some sess from hse] at hf hl
        cases hf
        have hn : ¬ s.now > sess.expires :=
          hd.resolve_left (by rw [ho]; exact false_ne_true)
        have hok := hs.timers j sess hse ho id
        unfold TimerOk at hok ⊢
        cases htm : sess.timer with
        | some t =>
          rw [htm] at hok
          exact hok
        | none =>
          rw [htm] at hok
          have hnow : s.now = sess.expires := by omega
          exact ⟨(hl sess rfl ho hnow).resolve_left (absurd htm), hok.2⟩
      · exact hoth j found hf ho hj
    · exact ⟨ht.remove hse, hoth.remove hse fun _ hj => hj⟩
  · rename_i hno
    refine ⟨ht, fun j found hf ho _ => hoth j found hf ho fun hj => ?_⟩
    subst hj
    rw [hno] at hf
    cases hf

theorem Sound.step
    (hun : ∀ u ∈ users, ∀ v ∈ users, u.name = v.name → u.maxRealms = v.maxRealms)
    (ha : Admissible users s e) (hl : DecidesLate s e) : Sound users (step s e) := by
  cases e with
  | register user realmID id delay =>
    obtain ⟨hu, hnew⟩ := ha
    exact ⟨hs.tables.register delay hu hnew hun, hs.timers.register user realmID id delay⟩
  | callback i =>
    rw [step]
    split
    · rename_i h hcb
      exact hs.callback hcb hl
    · exact hs
  | closeAll =>
    refine closeAll_induction (fun s h sess hs hse => ?_) hs
    exact ⟨hs.tables.remove hse, hs.timers.remove hse fun _ hj => hj.elim⟩
  | tick d =>
    refine ⟨⟨⟨hs.tables.realms, hs.tables.sessions, hs.tables.counts, hs.tables.limits,
      hs.tables.panicked⟩, hs.tables.channels⟩, fun j found hf ho hn => ?_⟩
    exact (hs.timers j found hf ho hn).mono (Nat.le_add_right _ _) fun hj => hj
  | deregister h => exact hs.actOn h nofun
  | heartbeat h delay => exact hs.actOn h nofun
  | fire h => exact hs.actOn h nofun
  | sendEvent h => exact hs.actOn h nofun
  | registerPending h nonce => exact hs.actOn h nofun
  | deliverPending h nonce => exact hs.actOn h nofun
  | cancelPending h nonce => exact hs.actOn h nofun

end

/-! ### Runs -/

/-- In every run in which no last callback runs at the very instant of the expiry, with users whose
limits agree if their names do, the books are in order. -/
theorem run_bookkeeping (users : List (User Name))
    (huniform : ∀ u ∈ users, ∀ v ∈ users, u.name = v.name → u.maxRealms = v.maxRealms)
    (events : ℕ → Event RealmID SessionID Name Nonce)
    (hadmissible : ∀ n, Admissible users (run step newServer events n) (events n))
    (hlate : ∀ n, DecidesLate (run step newServer events n) (events n)) (n : ℕ) :
    Bookkeeping users (run step newServer events n) := by
  suffices hsn : Sound users (run step newServer events n) from
    hsn.tables.bookkeeping hsn.timers
  induction n with
  | zero => exact ⟨Tables.new, nofun⟩
  | succ n ih => exact ih.step huniform (hadmissible n) (hlate n)

instance (users : List (User Name)) (s : Server RealmID SessionID Name Nonce)
    (e : Event RealmID SessionID Name Nonce) : Decidable (Admissible users s e) := by
  unfold Admissible
  split <;> infer_instance

instance (s : Server RealmID SessionID Name Nonce) (e : Event RealmID SessionID Name Nonce) :
    Decidable (DecidesLate s e) := by
  unfold DecidesLate
  split
  · rename_i i
    split
    · rename_i h hcallback
      cases s.objects[h]? with
      | none => exact isTrue nofun
      | some sess =>
        refine decidable_of_iff (sess.closed = false → s.now = sess.expires →
          sess.timer ≠ none ∨ h ∈ resume s.callbacks i []) ?_
        simp
    · exact isTrue trivial
  · exact isTrue trivial

/-- One user, who may have one realm. -/
def oneUser : List (User ℕ) := [⟨0, 1⟩]

/-- A session is kept alive by a heartbeat, expires, and is removed; its name and its place are
taken again. -/
def registerAndExpire : List (Event ℕ ℕ ℕ ℕ) :=
  [.register ⟨0, 1⟩ 5 100 0, .registerPending 0 7, .tick 60, .fire 0, .heartbeat 0 0, .callback 0,
    .tick 61, .fire 0, .callback 0, .register ⟨0, 1⟩ 5 101 0]

theorem run_bookkeeping_example :
    Bookkeeping oneUser (run step newServer (fun n => registerAndExpire.getD n (.tick 0)) 10) ∧
    (run step newServer (fun n => registerAndExpire.getD n (.tick 0)) 10).realms 5 = some 1 := by
  refine ⟨run_bookkeeping oneUser (by decide) _ ?_ ?_ 10, by decide +kernel⟩
  · exact forall_getD _ _ (by decide +kernel) fun _ => trivial
  · exact forall_getD _ _ (by decide +kernel) fun _ => trivial

/-- The timer fires and its callback runs at the instant of the expiry. -/
def expireAtOnce : List (Event ℕ ℕ ℕ ℕ) :=
  [.register ⟨0, 1⟩ 5 100 0, .tick 60, .fire 0, .callback 0]

/-- Two users of one name, with different limits. -/
def twoUsers : List (User ℕ) := [⟨0, 1⟩, ⟨0, 2⟩]

/-- The second one registers two realms. -/
def registerTwice : List (Event ℕ ℕ ℕ ℕ) :=
  [.register ⟨0, 2⟩ 5 100 0, .register ⟨0, 2⟩ 6 101 0]

/-- The session is in the tables, its timer is not armed and no callback is pending; and the count
of a name exceeds the limit of a user. -/
theorem not_bookkeeping :
    ¬ Bookkeeping oneUser (run step newServer (fun n => expireAtOnce.getD n (.tick 0)) 4) ∧
    ¬ Bookkeeping twoUsers (run step newServer (fun n => registerTwice.getD n (.tick 0)) 2) := by
  refine ⟨fun hb => ?_, fun hb => ?_⟩
  · rcases hb.timers 0 ⟨100, 5, 0, 60, none, false, Channels.new⟩ (by decide +kernel) rfl with
      htm | hp
    · exact htm rfl
    · exact absurd hp (by decide +kernel)
  · exact absurd (hb.limits ⟨0, 1⟩ (by decide) (by decide)) (by decide +kernel)

end

end SingBox.Realm
