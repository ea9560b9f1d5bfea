import SingBox.Foundation.Run

/-!
# The slot pool of a balanced URL test group

A `round_robin` group spreads its connections over a pool of slots. A slot holds the tag of a node;
the empty tag is a hole. The health checks test nodes and compute the next occupancy: the lazy
check of every interval tests no more nodes than it needs, a manual test re-plans the pool from the
recorded history, and with a tolerance both rank the nodes by delay.
-/

namespace SingBox.URLTest

/-- The outcome of a test of each node: the delay, if the node is alive. -/
abbrev Probe := String → Option UInt16

/-- A node and its just-measured delay. -/
structure Candidate where
  tag : String
  delay : UInt16
  alive : Bool
deriving DecidableEq, Repr

/-- The inner loop of the insertion sort: a candidate moves left past every larger one. The sorted
beginning of the slice is given from its end. -/
def sinkCandidate (c : Candidate) : List Candidate → List Candidate
  | [] => [c]
  | a :: before =>
    if a.delay < c.delay ∨ (a.delay = c.delay ∧ ¬ c.tag < a.tag) then c :: a :: before
    else a :: sinkCandidate c before

/-- Insertion sort by delay, ties by tag. -/
def sortCandidatesByDelay (cs : List Candidate) : List Candidate :=
  (cs.foldl (fun sorted c => sinkCandidate c sorted) []).reverse

/-- The tags that stand in some slot. -/
def placedTags (slots : List String) : List String :=
  slots.filter (· ≠ "")

/-- `slotCount` slots in which every live member keeps its index and every other slot is a hole. -/
def keepLive (live : String → Bool) (current : List String) (slotCount : ℕ) : List String :=
  (current ++ List.replicate (slotCount - current.length) "").map fun tag =>
    if tag ≠ "" ∧ live tag then tag else ""

/-- The first hole at or after an index. -/
def emptySlot (next : List String) (start : ℕ) : Option ℕ :=
  (List.range next.length).find? fun i => start ≤ i && next[i]? = some ""

/-! ### The planner without ranking -/

/-- Advances through the fill order to the next node that may be placed. -/
def nextFill (live : String → Bool) (placed : List String) :
    List String → Option String × List String
  | [] => (none, [])
  | tag :: order =>
    if tag ≠ "" ∧ live tag ∧ tag ∉ placed then (some tag, order) else nextFill live placed order

/-- Refills the holes at the given indices; each node is written into the hole's own index. -/
def refillHoles (live : String → Bool) :
    List ℕ → List String × List String × List String → List String × List String
  | [], (next, _, placed) => (next, placed)
  | i :: indices, (next, order, placed) =>
    if next[i]? = some "" then
      match nextFill live placed order with
      | (some tag, order') => refillHoles live indices (next.set i tag, order', tag :: placed)
      | (none, order') => refillHoles live indices (next, order', placed)
    else refillHoles live indices (next, order, placed)

/-- A dead occupant keeps the slot it held if that is still a hole. -/
def keepDead (live : String → Bool) :
    List String → List String → List String → List String × List String
  | [], next, placed => (next, placed)
  | _ :: _, [], placed => ([], placed)
  | tag :: current, s :: next, placed =>
    if s = "" ∧ tag ≠ "" ∧ live tag = false ∧ tag ∉ placed then
      let r := keepDead live current next (tag :: placed)
      (tag :: r.1, r.2)
    else
      let r := keepDead live current next placed
      (s :: r.1, r.2)

/-- Surplus dead members fall into leftover holes. -/
def keepSurplus (live : String → Bool) (current : List String) :
    List String → List String → List String
  | [], _ => []
  | s :: next, placed =>
    if s ≠ "" then s :: keepSurplus live current next placed
    else
      match current.find? fun tag => tag ≠ "" && !live tag && !placed.contains tag with
      | some tag => tag :: keepSurplus live current next (tag :: placed)
      | none => s :: keepSurplus live current next placed

/-- The next occupancy without ranking by delay. -/
def planFirstLivePool (current : List String) (live : String → Bool) (fillOrder : List String)
    (size : ℕ) : List String :=
  let next := keepLive live current (max size current.length)
  let filled := refillHoles live (List.range next.length) (next, fillOrder, placedTags next)
  let kept := keepDead live current filled.1 filled.2
  keepSurplus live current kept.1 kept.2

/-! ### The planner with a tolerance -/

/-- Fills empty slots with the fastest unused live nodes. -/
def fillFastest (alive : List Candidate) :
    List String → List String → List String × List String
  | [], inPool => ([], inPool)
  | s :: next, inPool =>
    if s ≠ "" then
      let r := fillFastest alive next inPool
      (s :: r.1, r.2)
    else
      match alive.find? fun c => !inPool.contains c.tag with
      | some c =>
        let r := fillFastest alive next (c.tag :: inPool)
        (c.tag :: r.1, r.2)
      | none =>
        let r := fillFastest alive next inPool
        (s :: r.1, r.2)

/-- The delay of a slot's occupant and whether it is alive. -/
def slotDelay (tag : String) (results : List Candidate) : UInt16 × Bool :=
  if tag = "" then (0, false)
  else
    match results.find? fun c => c.tag = tag with
    | some c => (c.delay, c.alive)
    | none => (0, false)

/-- A candidate replaces a dead occupant, or one that it beats by more than the tolerance. The
comparison is made in 32 bits. -/
def beats (tolerance : UInt16) (occupant : UInt16 × Bool) (c : Candidate) : Bool :=
  !occupant.2 || decide (c.delay.toUInt32 + tolerance.toUInt32 < occupant.1.toUInt32)

/-- The eviction: each slot in turn takes the fastest unused live node that may replace its
occupant. An evicted occupant stays marked and is not placed again. -/
def evict (results alive : List Candidate) (tolerance : UInt16) :
    List String → List String → List String
  | [], _ => []
  | occupant :: next, inPool =>
    match alive.find? fun c =>
        !inPool.contains c.tag && beats tolerance (slotDelay occupant results) c with
    | some c => c.tag :: evict results alive tolerance next (c.tag :: inPool)
    | none => occupant :: evict results alive tolerance next inPool

/-- The next occupancy with ranking by delay. -/
def planTolerantPool (current : List String) (results : List Candidate) (size : ℕ)
    (tolerance : UInt16) : List String :=
  let alive := sortCandidatesByDelay (results.filter (·.alive))
  let grown := current ++ List.replicate (size - current.length) ""
  let filled := fillFastest alive grown (placedTags current)
  evict results alive tolerance filled.1 filled.2

/-! ### The lazy check -/

/-- The live nodes of a tested batch go into the holes in configuration order. -/
def takeLive (tested : Probe) : List String → List String × ℕ → List String × ℕ
  | [], s => s
  | tag :: batch, (next, fill) =>
    match emptySlot next fill with
    | none => (next, fill)
    | some slot =>
      if (tested tag).isSome then takeLive tested batch (next.set slot tag, slot + 1)
      else takeLive tested batch (next, fill)

/-- The candidates are tested in batches until no hole remains or nodes run out. -/
def refillBatches (tested : Probe) (size : ℕ) (candidates : List String)
    (s : List String × ℕ) : List String × ℕ :=
  if _h : candidates = [] ∨ emptySlot s.1 s.2 = none ∨ size = 0 then s
  else refillBatches tested size (candidates.drop size) (takeLive tested (candidates.take size) s)
termination_by candidates.length
decreasing_by
  have hpos : 0 < candidates.length := List.length_pos_iff.mpr fun hc => _h (.inl hc)
  have hsize : 0 < size := Nat.pos_of_ne_zero fun hs => _h (.inr (.inr hs))
  rw [List.length_drop]
  omega

/-- Slots that are holes get their dead occupant back. -/
def restoreDead (live : String → Bool) : List String → List String → List String
  | tag :: current, s :: next =>
    (if s = "" ∧ tag ≠ "" ∧ live tag = false then tag else s) :: restoreDead live current next
  | _, next => next

/-- Dead members that have no slot drop into any leftover hole. -/
def dropSurplus (live : String → Bool) :
    List String → List String × List String → List String
  | [], (next, _) => next
  | tag :: current, (next, placed) =>
    match emptySlot next 0 with
    | none => next
    | some slot =>
      if tag ≠ "" ∧ live tag = false ∧ tag ∉ placed then
        dropSurplus live current (next.set slot tag, tag :: placed)
      else dropSurplus live current (next, placed)

/-! ### The group -/

/-- A group whose nodes have distinct tags, none of them empty; `pool` and `tolerance` are the
configured pool size and `pool_tolerance`. -/
structure PoolGroup where
  outbounds : List String
  pool : ℕ
  tolerance : UInt16
  nodup : outbounds.Nodup
  tagged : "" ∉ outbounds

namespace PoolGroup

variable (g : PoolGroup)

/-- The effective pool size. -/
def poolSize : ℕ :=
  if g.pool > g.outbounds.length then g.outbounds.length else g.pool

/-- The nodes as candidates, with the outcomes of their tests. -/
def results (probe : Probe) : List Candidate :=
  g.outbounds.map fun tag =>
    match probe tag with
    | some delay => ⟨tag, delay, true⟩
    | none => ⟨tag, 0, false⟩

/-- The lazy check without ranking. A node is tested once, as a member or in its batch. -/
def balancePoolFirstLive (current : List String) (probe : Probe) (size : ℕ) : List String :=
  let live := fun tag => (probe tag).isSome
  let next := keepLive live current (max size current.length)
  let candidates := g.outbounds.filter (· ∉ placedTags current)
  let filled := (refillBatches probe size candidates (next, 0)).1
  match emptySlot filled 0 with
  | none => filled
  | some _ =>
    let restored := restoreDead live current filled
    dropSurplus live current (restored, placedTags restored)

/-- The per-interval health check. -/
def balancePool (current : List String) (probe : Probe) : List String :=
  if g.poolSize = 0 then current
  else if 0 < g.tolerance then planTolerantPool current (g.results probe) g.poolSize g.tolerance
  else g.balancePoolFirstLive current probe g.poolSize

/-- The live nodes outside the pool, fastest first. -/
def fillOrder (current : List String) (probe : Probe) : List String :=
  (sortCandidatesByDelay ((g.results probe).filter fun c =>
    c.alive && !(placedTags current).contains c.tag)).map (·.tag)

/-- The re-plan after a forced full test; `probe` is the history it left. -/
def rebuildPool (current : List String) (probe : Probe) : List String :=
  if g.poolSize = 0 then current
  else if g.tolerance = 0 then
    planFirstLivePool current (fun tag => g.outbounds.contains tag && (probe tag).isSome)
      (g.fillOrder current probe) g.poolSize
  else planTolerantPool current (g.results probe) g.poolSize g.tolerance

/-- The first occupancy: nodes with history, fastest first, then configuration order. -/
def seedPool (history : Probe) : List String :=
  let withHistory := (sortCandidatesByDelay ((g.results history).filter (·.alive))).map (·.tag)
  let next := withHistory.take g.poolSize
  next ++ (g.outbounds.filter (· ∉ next)).take (g.poolSize - next.length)

/-- A health check with the outcomes of its tests. -/
inductive Check
  | lazy (probe : Probe)
  | forced (probe : Probe)

/-- The outcomes of a health check. -/
def Check.probe : Check → Probe
  | lazy probe | forced probe => probe

/-- One health check. -/
def step (current : List String) : Check → List String
  | .lazy probe => g.balancePool current probe
  | .forced probe => g.rebuildPool current probe

end PoolGroup

end SingBox.URLTest
