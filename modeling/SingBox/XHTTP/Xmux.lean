import SingBox.Foundation.Run

/-!
# The connection pool of the XHTTP client

`DialContext` takes a pooled connection with `acquire`, counts itself with `addOpenUsage(1)` and
releases the connection once. `acquire` runs under the lock of the manager: it takes the connections
that are to be retired out of the pool, closes them, and hands out a connection of the pool or a new
one. A connection has a lock of its own, under which `close` and `addOpenUsage` run; so their
sections, and the test of `max_concurrency`, interleave with the steps of the other dials.

The goroutines are an arbitrary type `ι`. The goroutine that holds the lock of the manager is part
of the state, together with the place it has reached.
-/

namespace SingBox.XHTTP

/-- `xmuxConfig` with its ranges rolled: zero is no limit. -/
structure XmuxConfig where
  concurrency : ℕ
  connections : ℕ
deriving DecidableEq

/-- The limits of one connection, as `newClientLocked` rolls them: zero is no limit. -/
structure Limits where
  cMaxReuseTimes : ℕ
  hMaxRequestTimes : ℕ
  hMaxReusableSecs : ℕ
deriving DecidableEq

/-- A pooled connection with its counters. Times are in milliseconds. -/
structure XmuxClient where
  openUsage : ℤ := 0
  leftUsage : ℤ := -1
  leftRequests : ℤ := 2 ^ 31 - 1
  unreusableAt : Option ℕ := none
  consecFails : ℕ := 0
  failing : Bool := false
  closed : Bool := false
  /-- The flag of the connection itself, which its `Close` swaps. -/
  connClosed : Bool := false
  /-- The transport has been torn down, and nobody has released the connection since. -/
  tornDown : Bool := false
deriving DecidableEq

namespace XmuxClient

/-- `xmuxBreakerThreshold`. -/
def breakerThreshold : ℕ := 3

/-- `Close` of the connection: only the first call tears the transport down. -/
def connClose (c : XmuxClient) : XmuxClient :=
  if c.connClosed then c else { c with connClosed := true, tornDown := true }

/-- `close`: retired, and torn down at once if no stream uses it. -/
def close (c : XmuxClient) : XmuxClient :=
  let c := { c with closed := true }
  if c.openUsage ≤ 0 then c.connClose else c

/-- `addOpenUsage`: the last stream that leaves a retired connection tears it down. -/
def addOpenUsage (c : XmuxClient) (delta : ℤ) : XmuxClient :=
  let c := { c with openUsage := c.openUsage + delta }
  if c.closed ∧ c.openUsage ≤ 0 then c.connClose else c

/-- `xmuxRelease.release`, the first time it is called. -/
def release (c : XmuxClient) : XmuxClient :=
  { c with tornDown := false }.addOpenUsage (-1)

/-- The causes of an eviction. -/
inductive EvictCause where
  | closed
  | failing
  | reuse
  | requests
  | expired
deriving DecidableEq

/-- `evictCause` at the time `now`. -/
def evictCause (c : XmuxClient) (now : ℕ) : Option EvictCause :=
  if c.connClosed then some .closed
  else if c.failing then some .failing
  else if c.leftUsage = 0 then some .reuse
  else if c.leftRequests ≤ 0 then some .requests
  else match c.unreusableAt with
    | some t => if t < now then some .expired else none
    | none => none

/-- The part of `newClientLocked` that fills in the limits. -/
def new (now : ℕ) (limits : Limits) : XmuxClient where
  leftUsage := if 0 < limits.cMaxReuseTimes then limits.cMaxReuseTimes - 1 else -1
  leftRequests :=
    if 0 < limits.hMaxRequestTimes then Int.bmod limits.hMaxRequestTimes (2 ^ 32) else 2 ^ 31 - 1
  unreusableAt :=
    if 0 < limits.hMaxReusableSecs then some (now + limits.hMaxReusableSecs * 1000) else none

/-- `takeRequest`, on a counter of 32 bits. -/
def takeRequest (c : XmuxClient) : XmuxClient :=
  { c with leftRequests := Int.bmod (c.leftRequests - 1) (2 ^ 32) }

/-- `noteFailure`, without the report to the manager. -/
def noteFailure (c : XmuxClient) : XmuxClient :=
  { c with
    consecFails := c.consecFails + 1
    failing := c.failing || c.consecFails + 1 == breakerThreshold }

/-- `noteSuccess`, without the report to the manager. -/
def noteSuccess (c : XmuxClient) : XmuxClient := { c with consecFails := 0 }

/-- A connection is handed out once more. -/
def handOut (c : XmuxClient) : XmuxClient :=
  { c with leftUsage := if 0 < c.leftUsage then c.leftUsage - 1 else c.leftUsage }

end XmuxClient

/-- The backoff for new transports. -/
structure Backoff where
  delay : ℕ := 0
  blockedUntil : ℕ := 0
  armed : Bool := false
deriving DecidableEq

namespace Backoff

/-- `xmuxBackoffInitial` and `xmuxBackoffCap`. -/
def initialDelay : ℕ := 100

@[inherit_doc initialDelay]
def cap : ℕ := 3000

def noteBreakerTrip (b : Backoff) (now : ℕ) : Backoff :=
  let delay := if b.delay = 0 then initialDelay else min (b.delay * 2) cap
  { delay, blockedUntil := now + delay, armed := true }

def resetBackoff (b : Backoff) : Backoff := if b.armed then {} else b

end Backoff

/-- Where a goroutine is, outside the lock of the manager. -/
inductive Phase where
  | idle
  | acquiring
  /-- `acquire` has returned the connection `c`; `addOpenUsage(1)` has not run yet. -/
  | acquired (c : ℕ)
  /-- The dial is counted and has not released the connection. -/
  | holding (c : ℕ)
  | released
  /-- In `Close` of the manager, with the connections that are left to be closed. -/
  | retiring (rest : List ℕ)
deriving DecidableEq

/-- The connection that was handed to a dial which has not released it. -/
def Phase.client? : Phase → Option ℕ
  | .acquired c | .holding c => some c
  | _ => none

/-- Where `acquire` is, inside the lock of the manager. -/
inductive Critical where
  /-- In the eviction loop, at the index `i`. -/
  | scanning (i : ℕ) (evicted : List ℕ)
  | closing (evicted : List ℕ)
  /-- In the test of `max_concurrency`. -/
  | weighing (rest candidates : List ℕ)
deriving DecidableEq

/-- The state of a manager and of the goroutines that use it. -/
structure XmuxManager (ι : Type) where
  clients : List ℕ := []
  client : ℕ → XmuxClient := fun _ => {}
  next : ℕ := 0
  critical : Option (ι × Critical) := none
  phase : ι → Phase := fun _ => .idle
  backoff : Backoff := {}

/-- The steps. A time is the value of `timeNow()`, `k` the draw of `randIntn`. -/
inductive Event (ι : Type) where
  /-- `acquire` takes the lock. -/
  | acquire (d : ι)
  /-- One round of the eviction loop. -/
  | scan (now : ℕ)
  | evictClose
  /-- `acquire` after the evicted connections are closed. -/
  | choose (now : ℕ) (limits : Limits) (k : ℕ)
  /-- `getOpenUsage` of the next connection. -/
  | weigh
  /-- `acquire` after the test of `max_concurrency`. -/
  | pick (now : ℕ) (limits : Limits) (k : ℕ)
  /-- `addOpenUsage(1)` in `DialContext`. -/
  | count (d : ι)
  | release (d : ι)
  | managerClose (d : ι)
  /-- `close` of the next one of them. -/
  | retire (d : ι)
  | takeRequest (c : ℕ)
  | noteFailure (c : ℕ)
  | noteSuccess (c : ℕ)
  | noteBreakerTrip (now : ℕ)
  | resetBackoff
deriving DecidableEq

namespace XmuxManager

variable {ι : Type} [DecidableEq ι]

/-- A connection is changed. -/
def setClient (s : XmuxManager ι) (c : ℕ) (x : XmuxClient) : XmuxManager ι :=
  { s with client := Function.update s.client c x }

/-- A goroutine goes on. -/
def setPhase (s : XmuxManager ι) (d : ι) (p : Phase) : XmuxManager ι :=
  { s with phase := Function.update s.phase d p }

/-- `acquire` returns a new connection: `newClientLocked`. -/
def newClient (s : XmuxManager ι) (d : ι) (now : ℕ) (limits : Limits) : XmuxManager ι :=
  { (s.setClient s.next (.new now limits)).setPhase d (.acquired s.next) with
    clients := s.clients ++ [s.next]
    next := s.next + 1
    critical := none }

/-- `acquire` returns one of the candidates, or a new connection if there are none. -/
def handOut (s : XmuxManager ι) (d : ι) (candidates : List ℕ) (now : ℕ) (limits : Limits) (k : ℕ) :
    XmuxManager ι :=
  match candidates[k % candidates.length]? with
  | none => s.newClient d now limits
  | some c =>
    { (s.setClient c (s.client c).handOut).setPhase d (.acquired c) with critical := none }

/-- One round of the eviction loop of `acquire`. -/
def scan (s : XmuxManager ι) (d : ι) (i : ℕ) (evicted : List ℕ) (now : ℕ) : XmuxManager ι :=
  match s.clients[i]? with
  | none => { s with critical := some (d, .closing evicted) }
  | some c =>
    if ((s.client c).evictCause now).isSome then
      { s with
        clients := s.clients.eraseIdx i
        critical := some (d, .scanning i (evicted ++ [c])) }
    else { s with critical := some (d, .scanning (i + 1) evicted) }

/-- `acquire` after the evicted connections are closed. -/
def choose (conf : XmuxConfig) (s : XmuxManager ι) (d : ι) (now : ℕ) (limits : Limits) (k : ℕ) :
    XmuxManager ι :=
  if s.clients = [] then
    if s.backoff.armed ∧ now < s.backoff.blockedUntil then
      -- The caller waits and tries again, or gives up.
      { s.setPhase d .idle with critical := none }
    else s.newClient d now limits
  else if 0 < conf.connections ∧ s.clients.length < conf.connections then
    s.newClient d now limits
  else if 0 < conf.concurrency then { s with critical := some (d, .weighing s.clients []) }
  else s.handOut d s.clients now limits k

/-- The steps inside the lock of the manager. -/
def criticalStep (conf : XmuxConfig) (s : XmuxManager ι) (d : ι) (k : Critical) (e : Event ι) :
    XmuxManager ι :=
  match k, e with
  | .scanning i evicted, .scan now => s.scan d i evicted now
  | .closing (c :: evicted), .evictClose =>
    { s.setClient c (s.client c).close with critical := some (d, .closing evicted) }
  | .closing [], .choose now limits k => s.choose conf d now limits k
  | .weighing (c :: rest) candidates, .weigh =>
    if (s.client c).openUsage < conf.concurrency then
      { s with critical := some (d, .weighing rest (candidates ++ [c])) }
    else { s with critical := some (d, .weighing rest candidates) }
  | .weighing [] candidates, .pick now limits k => s.handOut d candidates now limits k
  | _, _ => s

/-- A step. -/
def step (conf : XmuxConfig) (s : XmuxManager ι) (e : Event ι) : XmuxManager ι :=
  match e with
  | .acquire d =>
    if s.critical = none ∧ s.phase d = .idle then
      { s.setPhase d .acquiring with critical := some (d, .scanning 0 []) }
    else s
  | .count d => match s.phase d with
    | .acquired c =>
      (s.setClient c ((s.client c).addOpenUsage 1)).setPhase d (.holding c)
    | _ => s
  | .release d => match s.phase d with
    | .holding c => (s.setClient c (s.client c).release).setPhase d .released
    | _ => s
  | .managerClose d =>
    if s.critical = none ∧ s.phase d = .idle then
      { s.setPhase d (.retiring s.clients) with clients := [] }
    else s
  | .retire d => match s.phase d with
    | .retiring (c :: rest) => (s.setClient c (s.client c).close).setPhase d (.retiring rest)
    | _ => s
  | .takeRequest c => s.setClient c (s.client c).takeRequest
  | .noteFailure c => s.setClient c (s.client c).noteFailure
  | .noteSuccess c => s.setClient c (s.client c).noteSuccess
  | .noteBreakerTrip now =>
    if s.critical = none then { s with backoff := s.backoff.noteBreakerTrip now } else s
  | .resetBackoff =>
    if s.critical = none then { s with backoff := s.backoff.resetBackoff } else s
  | e => match s.critical with
    | some (d, k) => s.criticalStep conf d k e
    | none => s

/-- The connection `c` was handed to the dial `d`, which has not released it. -/
def Has (s : XmuxManager ι) (d : ι) (c : ℕ) : Prop := (s.phase d).client? = some c

end XmuxManager

end SingBox.XHTTP
