import SingBox.Foundation.Run

/-!
# DNS server groups

A group asks one of several member servers, chosen by records of errors and wins that expire. All
state is under one lock; a query takes it several times, and other queries run in between. The
operations under the lock are functions on `Transport`, a query is a machine of its own (`Query`,
`Query.exec`), and a group in use is a clock, a transport and any number of queries (`State`).

Times are readings of the clock. `noteError` and `noteWin` read the clock under the lock;
`selectTarget` and `cleanExcept` read it before they take the lock, so that a reading may be old
when it is used. Answers of members, random choices and the state of the request context are part
of the input of a step.
-/

namespace SingBox.DNS.Group

open Foundation

/-! ### Configuration -/

/-- `ModeStable`, `ModeFastest` and `ModeParallel`. -/
inductive Mode where
  | stable
  | fastest
  | parallel
deriving DecidableEq, Repr

/-- The configured fields of `Transport`, after `Start`. A group that is not started has no
members. -/
structure Config where
  members : List String
  mode : Mode := .stable
  errorTTL : ℕ
  winTTL : ℕ

def maxRecords : ℕ := 64

/-! ### Records -/

structure MemberRecord where
  errors : List ℕ := []
  wins : List ℕ := []
  lastRTT : ℕ := 0
deriving DecidableEq

/-- `pruneTimes`: `now.Sub(at) < ttl` is `now < at + ttl`. -/
def pruneTimes (times : List ℕ) (ttl now : ℕ) : List ℕ :=
  times.dropWhile fun time => !decide (now < time + ttl)

def appendCapped (times : List ℕ) (time : ℕ) : List ℕ :=
  let times := times ++ [time]
  if times.length > maxRecords then times.drop (times.length - maxRecords) else times

/-- The guarded fields of `Transport`. A tag without a record reads as the empty record. -/
structure Transport where
  records : String → MemberRecord := fun _ => {}
  current : String := ""
  election : Bool := false
  gen : ℕ := 0

namespace Transport

/-- The record of a tag is replaced. -/
def modifyRecord (t : Transport) (tag : String) (f : MemberRecord → MemberRecord) : Transport :=
  { t with records := Function.update t.records tag (f (t.records tag)) }

/-- `Transport.Reset`; the election flag stays. -/
def reset (t : Transport) : Transport :=
  { t with
    records := fun _ => {}
    current := ""
    gen := t.gen + 1 }

/-- `Transport.noteError`. -/
def noteError (t : Transport) (tag : String) (gen now : ℕ) : Transport :=
  if t.gen ≠ gen then t
  else t.modifyRecord tag fun record =>
    { record with errors := appendCapped record.errors now, wins := [] }

/-- `Transport.noteSuccess`. -/
def noteSuccess (t : Transport) (tag : String) (rtt gen : ℕ) : Transport :=
  if t.gen ≠ gen then t
  else t.modifyRecord tag fun record =>
    { record with
      errors := []
      lastRTT := if 0 < rtt then rtt else record.lastRTT }

/-- `Transport.noteWin`. -/
def noteWin (t : Transport) (tag : String) (gen now : ℕ) : Transport :=
  if t.gen ≠ gen then t
  else t.modifyRecord tag fun record => { record with wins := appendCapped record.wins now }

/-- `Transport.setCurrent`. -/
def setCurrent (t : Transport) (tag : String) (gen : ℕ) : Transport :=
  if t.gen ≠ gen ∨ t.current = tag then t else { t with current := tag }

/-- `liveErrorsLocked` for each of the tags. -/
def pruneErrors (cfg : Config) (tags : List String) (now : ℕ) (t : Transport) : Transport :=
  { t with records := fun tag =>
      if tag ∈ tags then
        { t.records tag with errors := pruneTimes (t.records tag).errors cfg.errorTTL now }
      else t.records tag }

/-- `liveWinsLocked` for each of the tags. -/
def pruneWins (cfg : Config) (tags : List String) (now : ℕ) (t : Transport) : Transport :=
  { t with records := fun tag =>
      if tag ∈ tags then
        { t.records tag with wins := pruneTimes (t.records tag).wins cfg.winTTL now }
      else t.records tag }

/-- The tags without error records. -/
def cleanOf (t : Transport) (tags : List String) : List String :=
  tags.filter fun tag => (t.records tag).errors.isEmpty

/-! ### Target selection -/

/-- A random element: `candidates[rand.IntN(len(candidates))]`. -/
def pick (choice : ℕ) (candidates : List String) : String :=
  candidates.getD (choice % candidates.length) ""

/-- `stickyPickLocked`. -/
def stickyPick (t : Transport) (choice : ℕ) (candidates : List String) : String :=
  if t.current ≠ "" ∧ t.current ∈ candidates then t.current else pick choice candidates

/-- One round of the loop of `fastestCandidatesLocked`, on pruned wins: the best candidates so far
and their number of wins. -/
def fastestRound (t : Transport) (acc : List String × ℕ) (candidate : String) : List String × ℕ :=
  let wins := (t.records candidate).wins.length
  if wins > acc.2 then ([candidate], wins)
  else if wins = acc.2 then (acc.1 ++ [candidate], acc.2)
  else acc

/-- `fastestCandidatesLocked`. -/
def fastestCandidates (t : Transport) (clean : List String) : List String × ℕ :=
  clean.foldl t.fastestRound ([], 0)

/-- The variables of the loop of `leastDirtyLocked`: the best candidates so far, their number of
errors, `none` for `-1` before the first candidate, and the time of their last error, `0` for the
zero time. -/
structure LeastDirty where
  best : List String := []
  bestCount : Option ℕ := none
  bestLast : ℕ := 0

/-- One round of the loop of `leastDirtyLocked`, on pruned errors. -/
def leastDirtyRound (t : Transport) (acc : LeastDirty) (candidate : String) : LeastDirty :=
  let errs := (t.records candidate).errors
  let count := errs.length
  let last := errs.getLast?.getD 0
  if acc.bestCount.all fun c => decide (count < c ∨ count = c ∧ last < acc.bestLast) then
    ⟨[candidate], some count, last⟩
  else if acc.bestCount = some count ∧ last = acc.bestLast then
    { acc with best := acc.best ++ [candidate] }
  else acc

/-- `leastDirtyLocked`. -/
def leastDirty (t : Transport) (choice : ℕ) (members : List String) : String :=
  pick choice (members.foldl t.leastDirtyRound {}).best

end Transport

/-- `selection`: a single target, a survival attempt, or a fan. -/
inductive Selection where
  | single (target : String) (provisional : Bool) (gen : ℕ)
  | survival (target : String) (gen : ℕ)
  | fan (participants : List String) (election : Bool) (gen : ℕ)
deriving DecidableEq

/-- `Transport.selectTarget` with a reading of the clock; `none` is the error of a group that is not
started. -/
def Transport.selectTarget (cfg : Config) (t : Transport) (now choice : ℕ) :
    Option Selection × Transport :=
  if cfg.members = [] then (none, t)
  else
    let t := t.pruneErrors cfg cfg.members now
    let clean := t.cleanOf cfg.members
    if clean = [] then (some (.survival (t.leastDirty choice cfg.members) t.gen), t)
    else
      match cfg.mode with
      | .parallel => (some (.fan clean false t.gen), t)
      | .fastest =>
        let t := t.pruneWins cfg clean now
        let (best, maxWins) := t.fastestCandidates clean
        if maxWins > 0 then (some (.single (t.stickyPick choice best) false t.gen), t)
        else if !t.election then (some (.fan clean true t.gen), { t with election := true })
        else (some (.single (Transport.pick choice clean) true t.gen), t)
      | .stable => (some (.single (t.stickyPick choice clean) false t.gen), t)

/-- The ways in which `selectTarget` ends: `u` is the transport with pruned errors, `v` the one with
pruned wins besides. -/
theorem Transport.selectTarget_cases {P : Option Selection × Transport → Prop} (cfg : Config)
    (t : Transport) (now ch : ℕ) (notStarted : P (none, t))
    (survival : ∀ u, u = t.pruneErrors cfg cfg.members now →
      P (some (.survival (u.leastDirty ch cfg.members) u.gen), u))
    (fan : ∀ u, u = t.pruneErrors cfg cfg.members now →
      P (some (.fan (u.cleanOf cfg.members) false u.gen), u))
    (stable : ∀ u, u = t.pruneErrors cfg cfg.members now →
      P (some (.single (u.stickyPick ch (u.cleanOf cfg.members)) false u.gen), u))
    (fastest : ∀ u v, u = t.pruneErrors cfg cfg.members now →
      v = u.pruneWins cfg (u.cleanOf cfg.members) now →
      P (some (.single (v.stickyPick ch (v.fastestCandidates (u.cleanOf cfg.members)).1) false
        v.gen), v))
    (elect : ∀ u v, u = t.pruneErrors cfg cfg.members now →
      v = u.pruneWins cfg (u.cleanOf cfg.members) now → v.election = false →
      P (some (.fan (u.cleanOf cfg.members) true v.gen), { v with election := true }))
    (prov : ∀ u v, u = t.pruneErrors cfg cfg.members now →
      v = u.pruneWins cfg (u.cleanOf cfg.members) now →
      P (some (.single (pick ch (u.cleanOf cfg.members)) true v.gen), v)) :
    P (t.selectTarget cfg now ch) := by
  unfold Transport.selectTarget
  by_cases hm : cfg.members = []
  · rw [if_pos hm]
    exact notStarted
  rw [if_neg hm]
  simp only
  by_cases hc : (t.pruneErrors cfg cfg.members now).cleanOf cfg.members = []
  · rw [if_pos hc]
    exact survival _ rfl
  rw [if_neg hc]
  cases cfg.mode with
  | parallel => exact fan _ rfl
  | stable => exact stable _ rfl
  | fastest =>
    simp only
    split_ifs with hw he
    · exact fastest _ _ rfl rfl
    · exact elect _ _ rfl rfl (by simpa using he)
    · exact prov _ _ rfl rfl

/-- `Transport.cleanExcept` with a reading of the clock. -/
def Transport.cleanExcept (cfg : Config) (t : Transport) (exceptTag : String) (now : ℕ) :
    List String × Transport :=
  let tags := cfg.members.filter fun tag => tag ≠ exceptTag
  let t := t.pruneErrors cfg tags now
  (t.cleanOf tags, t)

/-! ### Queries -/

/-- The variables of `collectFan`: the participants that have not answered, and whether a result
has been delivered. -/
structure Fan where
  pending : List String
  gen : ℕ
  election : Bool
  delivered : Bool := false
deriving DecidableEq

/-- Where a query stands between two steps. -/
inductive Query where
  | idle
  /-- `selectTarget` has read the clock. -/
  | selecting (now : ℕ)
  /-- `exchangeSingle` is about to set the sticky target. -/
  | setting (target : String) (gen : ℕ)
  /-- The single target has been asked, in survival mode or not. -/
  | exchanging (target : String) (gen : ℕ) (survival : Bool)
  | succeeded (target : String) (rtt gen : ℕ)
  | failed (target : String) (gen : ℕ) (survival : Bool)
  /-- The error of the target is noted. -/
  | rescuing (target : String) (gen : ℕ)
  /-- `cleanExcept` has read the clock. -/
  | rescuingAt (target : String) (gen now : ℕ)
  /-- `collectFan` waits for a result. -/
  | fan (f : Fan)
  /-- A failure with a live context is about to be noted. -/
  | fanFailed (f : Fan) (tag : String)
  /-- A success is about to be noted. -/
  | fanSucceeded (f : Fan) (tag : String) (rtt : ℕ)
  /-- The success of the winner is noted, and the win is not. -/
  | fanWon (f : Fan) (tag : String)
  /-- The winner is about to become the sticky target. -/
  | fanElected (f : Fan) (tag : String)
  /-- An election fan has seen all results. -/
  | releasing
  | done
deriving DecidableEq

/-- The loop of `collectFan` goes on, or ends. -/
def Fan.resume (f : Fan) : Query :=
  if f.pending = [] then if f.election then .releasing else .done else .fan f

/-- `Exchange` after the selection. -/
def Selection.begin : Selection → Query
  | .single target provisional gen =>
    if provisional then .exchanging target gen false else .setting target gen
  | .survival target gen => .exchanging target gen true
  | .fan participants election gen => Fan.resume ⟨participants, gen, election, false⟩

/-- What a step of a query does not determine itself: the random number, the member that answers,
whether it failed and after what time, and whether the request context is alive. -/
structure Choice where
  random : ℕ := 0
  member : String := ""
  failed : Bool := false
  rtt : ℕ := 0
  alive : Bool := true
deriving DecidableEq

/-- What `collectFan` does after it has noted a success: the first one with a live context is the
winner. -/
def Fan.afterSuccess (cfg : Config) (f : Fan) (tag : String) (alive : Bool) : Query :=
  if !alive || f.delivered then f.resume
  else
    let f := { f with delivered := true }
    match cfg.mode with
    | .fastest => .fanWon f tag
    | .stable => .fanElected f tag
    | .parallel => f.resume

/-- The next step of a query: one operation under the lock, one reading of the clock, or one
answer. -/
def Query.exec (cfg : Config) (clock : ℕ) (choice : Choice) : Query → Transport → Query × Transport
  | .idle, t => (.selecting clock, t)
  | .selecting now, t =>
    let (sel, t) := t.selectTarget cfg now choice.random
    (sel.elim .done Selection.begin, t)
  | .setting target gen, t => (.exchanging target gen false, t.setCurrent target gen)
  | .exchanging target gen survival, t =>
    if choice.failed then (.failed target gen survival, t)
    else (.succeeded target choice.rtt gen, t)
  | .succeeded target rtt gen, t => (.done, t.noteSuccess target rtt gen)
  | .failed target gen survival, t =>
    (if survival then .done else .rescuing target gen, t.noteError target gen clock)
  | .rescuing target gen, t => (.rescuingAt target gen clock, t)
  | .rescuingAt target gen now, t =>
    let (rescuers, t) := t.cleanExcept cfg target now
    (Fan.resume ⟨rescuers, gen, false, false⟩, t)
  | .fan f, t =>
    if choice.member ∈ f.pending then
      let f := { f with pending := f.pending.erase choice.member }
      if choice.failed then (if choice.alive then .fanFailed f choice.member else f.resume, t)
      else (.fanSucceeded f choice.member choice.rtt, t)
    else (.fan f, t)
  | .fanFailed f tag, t => (f.resume, t.noteError tag f.gen clock)
  | .fanSucceeded f tag rtt, t =>
    (f.afterSuccess cfg tag choice.alive, t.noteSuccess tag rtt f.gen)
  | .fanWon f tag, t => (.fanElected f tag, t.noteWin tag f.gen clock)
  | .fanElected f tag, t => (f.resume, t.setCurrent tag f.gen)
  | .releasing, t => (.done, { t with election := false })
  | .done, t => (.done, t)

/-! ### A group in use -/

/-- The clock, the transport and the queries. -/
structure State where
  clock : ℕ := 0
  transport : Transport := {}
  queries : ℕ → Query := fun _ => .idle

/-- Time passes, the network changes, or a query makes a step. -/
inductive Event where
  | tick (d : ℕ)
  | reset
  | act (q : ℕ) (choice : Choice)
deriving DecidableEq

/-- One step of a group in use. -/
def step (cfg : Config) (s : State) : Event → State
  | .tick d => { s with clock := s.clock + d }
  | .reset => { s with transport := s.transport.reset }
  | .act q choice =>
    let (query, transport) := (s.queries q).exec cfg s.clock choice s.transport
    { s with transport := transport, queries := Function.update s.queries q query }

/-- The state after the first `n` events. -/
def exec (cfg : Config) (events : ℕ → Event) (n : ℕ) : State := run (step cfg) {} events n

theorem exec_succ (cfg : Config) (events : ℕ → Event) (n : ℕ) :
    exec cfg events (n + 1) = step cfg (exec cfg events n) (events n) := rfl

end SingBox.DNS.Group
