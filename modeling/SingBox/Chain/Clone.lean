import SingBox.Foundation.Run

/-!
# Links of a chain and their eviction

A chain keeps one link for each position and node in use. `cloneFor` looks a link up under the
lock, or creates it with one call in flight for each key; the caller then dials through it, and
the connection is counted by the link until it is closed. `evictIdle` removes the links that have
no connection and were not picked for `idle_timeout`, and closes them after it has released the
lock.

The steps are the locked sections, each atomic load, store and addition, the returns of the
functions that are called in between, and the passing of time. The locked section of `evictIdle`
holds atomic loads, so it is several steps; `cloneFor` waits for the lock meanwhile. A step that
is not enabled leaves the state as it is. A pick stores the time of the step.
-/

namespace SingBox.Chain

open Foundation

structure CloneKey where
  position : ℕ
  leafTag : String
deriving DecidableEq

/-- `clone`. The fields `lastReturned`, the last time `cloneFor` returned the link, and
`evictedAt`, when `evictIdle` closed it, record what happened. -/
structure Link where
  key : CloneKey
  lastPicked : ℕ
  active : ℤ := 0
  lastReturned : ℕ := 0
  evictedAt : Option ℕ := none
deriving DecidableEq

/-- Where a caller is. A caller that has picked the link `l` since it obtained it carries the
time `p` of its last pick. -/
inductive Caller where
  /-- Not in `cloneFor`, and without a connection. -/
  | idle
  /-- In `cloneFor`, waiting for the call in flight for the key. -/
  | waiting (key : CloneKey)
  | creating (key : CloneKey)
  /-- After `createClone`, before the second locked section. -/
  | created (key : CloneKey) (result : Option (ℕ × ℕ))
  /-- In `cloneFor` with the link, before `touch`. -/
  | found (l : ℕ)
  /-- In `cloneFor`, after `touch`. -/
  | picked (l p : ℕ)
  | returned (l p : ℕ)
  /-- In `DialContext` of the link, after `touch`: the dial of the inner node is running. -/
  | dialing (l p : ℕ)
  /-- The inner dial has succeeded; the connection is not counted yet. -/
  | dialed (l p : ℕ)
  | opened (l : ℕ)
deriving DecidableEq

/-- The link of a caller that has obtained one and has not finished with it. -/
def Caller.link? : Caller → Option ℕ
  | .found l | .picked l _ | .returned l _ | .dialing l _ | .dialed l _ | .opened l => some l
  | _ => none

/-- The link that a caller has created and not yet registered. -/
def Caller.created? : Caller → Option ℕ
  | .created _ (some (l, _)) => some l
  | _ => none

/-- The last pick of a link by a caller whose connection is not counted yet. -/
def Caller.pick? : Caller → Option (ℕ × ℕ)
  | .created _ (some (l, p)) | .picked l p | .returned l p | .dialing l p | .dialed l p =>
    some (l, p)
  | _ => none

/-- Where the goroutine of `evictIdle` is. It holds the lock in `scanning` and `loaded`. -/
inductive Evictor where
  | idle
  /-- `evictIdle(now)` was called. -/
  | begun (now : ℕ)
  /-- In the loop, with the entries that are left and the victims so far. -/
  | scanning (now : ℕ) (todo : List (CloneKey × ℕ)) (victims : List ℕ)
  /-- `active.Load` has returned zero for the link `l`. -/
  | loaded (now : ℕ) (key : CloneKey) (l : ℕ) (todo : List (CloneKey × ℕ)) (victims : List ℕ)
  /-- After the lock, closing the victims. -/
  | closing (now : ℕ) (victims : List ℕ)
deriving DecidableEq

/-- The state of a chain, with the callers `ι`. -/
structure ChainState (ι : Type) where
  time : ℕ
  links : ℕ → Link
  nextLink : ℕ
  clones : CloneKey → Option ℕ
  inflight : CloneKey → Bool
  closed : Bool
  callers : ι → Caller
  evictor : Evictor

/-- The steps. -/
inductive Event (ι : Type) where
  | tick (d : ℕ)
  /-- The first locked section of `cloneFor`. -/
  | lookup (i : ι) (key : CloneKey)
  | create (i : ι) (ok : Bool)
  /-- The second locked section, and `close(call.done)`, which releases those who wait. -/
  | register (i : ι)
  | touch (i : ι)
  | finish (i : ι)
  /-- `DialContext`, up to the inner dial. -/
  | dial (i : ι)
  | dialed (i : ι) (ok : Bool)
  | count (i : ι)
  /-- `Close` of the connection, with `active.Add(-1)`. -/
  | hangUp (i : ι)
  | evictBegin
  /-- `evictIdle` takes the lock; the entries in the order of the iteration. -/
  | evictLock (entries : List (CloneKey × ℕ))
  | evictLoadActive
  | evictLoadPicked
  | evictUnlock
  | evictClose
  /-- `Chain.Close`, up to the end of its locked section. -/
  | closeChain
deriving DecidableEq

variable {ι : Type} [DecidableEq ι]

/-- `evictIdle` holds `cloneMu`. -/
def Evictor.locked : Evictor → Bool
  | scanning .. | loaded .. => true
  | _ => false

namespace ChainState

/-- Caller `i` goes on. -/
def setCaller (s : ChainState ι) (i : ι) (c : Caller) : ChainState ι :=
  { s with callers := Function.update s.callers i c }

/-- A link is changed. -/
def setLink (s : ChainState ι) (l : ℕ) (f : Link → Link) : ChainState ι :=
  { s with links := Function.update s.links l (f (s.links l)) }

/-- `clone.touch`. -/
def touchLink (s : ChainState ι) (l : ℕ) : ChainState ι :=
  s.setLink l fun link => { link with lastPicked := s.time }

/-- The first locked section of `cloneFor`. -/
def lookup (s : ChainState ι) (i : ι) (key : CloneKey) : ChainState ι :=
  if s.closed then s
  else match s.clones key with
    | some l => s.setCaller i (.found l)
    | none =>
      if s.inflight key then s.setCaller i (.waiting key)
      else
        { s.setCaller i (.creating key) with inflight := Function.update s.inflight key true }

/-- `createClone` returns, on success with a link that has been picked. -/
def create (s : ChainState ι) (i : ι) (key : CloneKey) (ok : Bool) : ChainState ι :=
  if ok then
    { s.setCaller i (.created key (some (s.nextLink, s.time))) with
      links := Function.update s.links s.nextLink { key, lastPicked := s.time }
      nextLink := s.nextLink + 1 }
  else s.setCaller i (.created key none)

/-- Those who wait for the call of a key go on with `c`. -/
def release (s : ChainState ι) (key : CloneKey) (c : Caller) : ChainState ι :=
  { s with
    inflight := Function.update s.inflight key false
    callers := fun j => if s.callers j = .waiting key then c else s.callers j }

/-- The second locked section of `cloneFor`. -/
def register (s : ChainState ι) (i : ι) (key : CloneKey) (result : Option (ℕ × ℕ)) :
    ChainState ι :=
  match s.closed, result with
  | false, some (l, p) =>
    { (s.release key (.found l)).setCaller i (.picked l p) with
      clones := Function.update s.clones key (some l) }
  | _, _ => (s.release key .idle).setCaller i .idle

/-- The steps of the callers. -/
def callerStep (s : ChainState ι) (i : ι) : Event ι → ChainState ι
  | .lookup _ key => match s.callers i with
    | .idle => if s.evictor.locked then s else s.lookup i key
    | _ => s
  | .create _ ok => match s.callers i with
    | .creating key => s.create i key ok
    | _ => s
  | .register _ => match s.callers i with
    | .created key result => if s.evictor.locked then s else s.register i key result
    | _ => s
  | .touch _ => match s.callers i with
    | .found l => (s.touchLink l).setCaller i (.picked l s.time)
    | _ => s
  | .finish _ => match s.callers i with
    | .picked l p =>
      (s.setLink l fun link => { link with lastReturned := s.time }).setCaller i (.returned l p)
    | _ => s
  | .dial _ => match s.callers i with
    | .returned l _ => (s.touchLink l).setCaller i (.dialing l s.time)
    | _ => s
  | .dialed _ ok => match s.callers i with
    | .dialing l p => s.setCaller i (if ok then .dialed l p else .idle)
    | _ => s
  | .count _ => match s.callers i with
    | .dialed l _ =>
      (s.setLink l fun link => { link with active := link.active + 1 }).setCaller i (.opened l)
    | _ => s
  | .hangUp _ => match s.callers i with
    | .opened l =>
      (s.setLink l fun link => { link with active := link.active - 1 }).setCaller i .idle
    | _ => s
  | _ => s

/-- The loop of `evictIdle` loads the counter of the next entry; a map iteration does not visit
an entry that is no longer there. -/
def evictLoadActive (s : ChainState ι) : ChainState ι :=
  match s.evictor with
  | .scanning now ((key, l) :: todo) victims =>
    if s.clones key = some l ∧ (s.links l).active = 0 then
      { s with evictor := .loaded now key l todo victims }
    else { s with evictor := .scanning now todo victims }
  | _ => s

/-- The loop of `evictIdle` loads the pick time, and removes the link if it is too long ago. -/
def evictLoadPicked (s : ChainState ι) (idleTimeout : ℕ) : ChainState ι :=
  match s.evictor with
  | .loaded now key l todo victims =>
    if now ≤ (s.links l).lastPicked + idleTimeout then
      { s with evictor := .scanning now todo victims }
    else
      { s with
        clones := Function.update s.clones key none
        evictor := .scanning now todo (victims ++ [l]) }
  | _ => s

/-- The steps of `evictIdle`. -/
def evictStep (s : ChainState ι) (idleTimeout : ℕ) : Event ι → ChainState ι
  | .evictBegin => match s.evictor with
    | .idle => { s with evictor := .begun s.time }
    | _ => s
  | .evictLock entries => match s.evictor with
    | .begun now =>
      { s with evictor := .scanning now (entries.filter fun e => s.clones e.1 = some e.2) [] }
    | _ => s
  | .evictLoadActive => s.evictLoadActive
  | .evictLoadPicked => s.evictLoadPicked idleTimeout
  | .evictUnlock => match s.evictor with
    | .scanning now [] victims => { s with evictor := .closing now victims }
    | _ => s
  | .evictClose => match s.evictor with
    | .closing now (l :: victims) =>
      { s.setLink l (fun link => { link with evictedAt := some s.time }) with
        evictor := .closing now victims }
    | .closing _ [] => { s with evictor := .idle }
    | _ => s
  | _ => s

/-- A step. -/
def step (idleTimeout : ℕ) (s : ChainState ι) (e : Event ι) : ChainState ι :=
  match e with
  | .tick d => { s with time := s.time + d }
  | .lookup i _ | .create i _ | .register i | .touch i | .finish i | .dial i
  | .dialed i _ | .count i | .hangUp i => s.callerStep i e
  | .closeChain =>
    if s.evictor.locked then s else { s with closed := true, clones := fun _ => none }
  | _ => s.evictStep idleTimeout e

/-- A chain that has just been started. -/
def initial (time : ℕ) : ChainState ι where
  time := time
  links := fun _ => { key := ⟨0, ""⟩, lastPicked := 0 }
  nextLink := 0
  clones := fun _ => none
  inflight := fun _ => false
  closed := false
  callers := fun _ => .idle
  evictor := .idle

/-- The caller `i` has obtained the link `l` in `cloneFor` and has not finished with it: it is in
`cloneFor` with the link, its dial is running, or its connection is open. -/
def Uses (s : ChainState ι) (i : ι) (l : ℕ) : Prop := (s.callers i).link? = some l

end ChainState

end SingBox.Chain
