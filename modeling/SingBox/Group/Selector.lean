import SingBox.Foundation.Calls
import SingBox.Foundation.Run

/-!
# Switching a selector

A selector forwards every dial to the member that is selected. `SelectOutbound` switches it: it
stores the new selection, writes it to the cache file, and interrupts the connections that are
registered in the interrupt group. These are three steps that nothing holds together. A dial loads
the selection first, and registers its connection when the member has dialled.

The calls in progress interleave at these steps. Outbounds are their tags.
-/

namespace SingBox.Selector

open Foundation List

variable {Tag : Type*}

/-- What a selector is configured with. -/
structure Options (Tag : Type*) where
  outbounds : List Tag
  /-- The selector has a tag and there is a cache file. -/
  cacheFile : Bool
  interruptExternalConnections : Bool

/-- A call in progress, by its next step. -/
inductive Call (Tag : Type*)
  | selectLoad (tag : Tag)
  | selectStore (tag : Tag)
  | selectPersist (tag : Tag)
  | selectInterrupt
  /-- `DialContext` and `ListenPacket`. -/
  | dialLoad (isExternal : Bool)
  | dialRegister (selected : Tag) (isExternal : Bool)
deriving DecidableEq, Repr

/-- `SelectOutbound` has stored a selection and not yet interrupted. -/
def Call.isSwitching : Call Tag → Bool
  | .selectPersist _ | .selectInterrupt => true
  | _ => false

/-- An open connection that is registered in the interrupt group. -/
structure Connection (Tag : Type*) where
  outbound : Tag
  isExternal : Bool
deriving DecidableEq, Repr

/-- A selector, its entry in the cache file and its interrupt group. -/
structure State (Tag : Type*) where
  selected : Tag
  stored : Option Tag
  /-- Some `SelectOutbound` has stored a selection. -/
  changed : Bool
  connections : List (Connection Tag)
  calls : List (Call Tag)
deriving DecidableEq, Repr

/-- A selector that has been started. -/
def State.initial (selected : Tag) (stored : Option Tag) : State Tag :=
  ⟨selected, stored, false, [], []⟩

/-- What can happen next. `ok` is the outcome of the transaction or of the member's dial. -/
inductive Event (Tag : Type*)
  | selectOutbound (tag : Tag)
  | dial (isExternal : Bool)
  | advance (i : ℕ) (ok : Bool)
  | closeConnection (i : ℕ)
deriving DecidableEq, Repr

/-- `Interrupt` of the group. -/
def interrupt (interruptExternalConnections : Bool) (connections : List (Connection Tag)) :
    List (Connection Tag) :=
  connections.filter fun c => !(!c.isExternal || interruptExternalConnections)

/-- One step of the call at the place `i`. -/
def advance [DecidableEq Tag] (o : Options Tag) (s : State Tag) (i : ℕ) (ok : Bool) :
    Call Tag → State Tag
  | .selectLoad tag =>
    if s.selected = tag then { s with calls := resume s.calls i [] }
    else { s with calls := resume s.calls i [.selectStore tag] }
  | .selectStore tag =>
    { s with
      selected := tag
      changed := true
      calls := resume s.calls i [if o.cacheFile then .selectPersist tag else .selectInterrupt] }
  | .selectPersist tag =>
    { s with
      stored := if ok then some tag else s.stored
      calls := resume s.calls i [.selectInterrupt] }
  | .selectInterrupt =>
    { s with
      connections := interrupt o.interruptExternalConnections s.connections
      calls := resume s.calls i [] }
  | .dialLoad isExternal =>
    { s with calls := resume s.calls i [.dialRegister s.selected isExternal] }
  | .dialRegister selected isExternal =>
    { s with
      connections := if ok then s.connections ++ [⟨selected, isExternal⟩] else s.connections
      calls := resume s.calls i [] }

/-- One event. -/
def step [DecidableEq Tag] (o : Options Tag) (s : State Tag) : Event Tag → State Tag
  | .selectOutbound tag =>
    if tag ∈ o.outbounds then { s with calls := s.calls ++ [.selectLoad tag] } else s
  | .dial isExternal => { s with calls := s.calls ++ [.dialLoad isExternal] }
  | .advance i ok =>
    match s.calls[i]? with
    | none => s
    | some call => advance o s i ok call
  | .closeConnection i => { s with connections := s.connections.eraseIdx i }

/-! ### The property and the condition -/

/-- With no call in progress the cache file has the selection if it was ever changed, and every
open connection was dialled through it. -/
def Switched (o : Options Tag) (s : State Tag) : Prop :=
  s.calls = [] →
    (o.cacheFile = true → s.changed = true → s.stored = some s.selected) ∧
    ∀ c ∈ s.connections, c.outbound = s.selected

/-- A transaction of the cache file succeeds. -/
def StoreSucceeds (s : State Tag) : Event Tag → Prop
  | .advance i ok =>
    match s.calls[i]? with
    | some (.selectPersist _) => ok = true
    | _ => True
  | _ => True

/-- A selection is written to the cache file only if it is current, or while the call that stored
the current one still has to write it. A connection is registered only if it was dialled through
the current selection, or before a switch in progress interrupts. -/
def Coordinated (s : State Tag) : Event Tag → Prop
  | .advance i ok =>
    match s.calls[i]? with
    | some (.selectPersist tag) => tag = s.selected ∨ .selectPersist s.selected ∈ s.calls
    | some (.dialRegister tag _) =>
      ok = true → tag = s.selected ∨ ∃ c ∈ s.calls, c.isSwitching = true
    | _ => True
  | _ => True

/-! ### The invariant -/

/-- What a switch in progress still has to do. -/
structure Covered (o : Options Tag) (s : State Tag) : Prop where
  stored : o.cacheFile = true → s.changed = true →
    s.stored = some s.selected ∨ .selectPersist s.selected ∈ s.calls
  connections : (∀ c ∈ s.connections, c.outbound = s.selected) ∨ ∃ c ∈ s.calls, c.isSwitching = true

variable {o : Options Tag} {s : State Tag}

theorem Covered.initial (selected : Tag) (stored : Option Tag) :
    Covered o (State.initial selected stored) := by
  refine ⟨fun _ hchg => ?_, .inl fun c hc => ?_⟩
  · cases hchg
  · cases hc

theorem Covered.switched (h : Covered o s) : Switched o s := by
  intro hca
  refine ⟨fun hcc hchg => ?_, ?_⟩
  · rcases h.stored hcc hchg with hs | hm
    · exact hs
    · rw [hca] at hm
      cases hm
  · rcases h.connections with ha | ⟨c, hc, -⟩
    · exact ha
    · rw [hca] at hc
      cases hc

theorem Covered.frame (h : Covered o s) {calls : List (Call Tag)}
    (hca : ∀ c ∈ s.calls, c.isSwitching = true → c ∈ calls) :
    Covered o { s with calls := calls } := by
  refine ⟨fun hcc hchg => ?_, ?_⟩
  · exact (h.stored hcc hchg).imp_right fun hm => hca _ hm rfl
  · exact h.connections.imp_right fun ⟨c, hc, hsw⟩ => ⟨c, hca c hc hsw, hsw⟩

variable {i : ℕ}

theorem mem_resume_of_switching {call c : Call Tag} {new : List (Call Tag)}
    (hca : s.calls[i]? = some call) (hn : call.isSwitching = false) (hc : c ∈ s.calls)
    (hsw : c.isSwitching) : c ∈ resume s.calls i new := by
  refine mem_resume_of_ne hca hc fun heq => ?_
  rw [heq, hn] at hsw
  cases hsw

variable [DecidableEq Tag] {tag : Tag}

theorem Covered.selectStore (ok : Bool) : Covered o (advance o s i ok (.selectStore tag)) := by
  refine ⟨fun hc _ => .inr (mem_resume_new ?_), .inr ⟨_, mem_resume_new (mem_singleton_self _), ?_⟩⟩
  · rw [hc]
    exact mem_singleton_self _
  · cases o.cacheFile <;> rfl

/-- A write of the current selection completes the first half, any other leaves it to the call
that still has to write. -/
theorem Covered.selectPersist (hc : s.calls[i]? = some (.selectPersist tag))
    (hcur : tag = s.selected ∨ .selectPersist s.selected ∈ s.calls) :
    Covered o (advance o s i true (.selectPersist tag)) := by
  refine ⟨fun hca hchg => ?_, .inr ⟨.selectInterrupt, mem_resume_new
    (mem_singleton_self _), rfl⟩⟩
  by_cases ht : tag = s.selected
  · exact .inl (congrArg some ht)
  · have hm := hcur.resolve_left ht
    refine .inr (mem_resume_of_ne hc hm fun heq => ht ?_)
    injection heq with heq
    exact heq.symm

theorem Covered.selectInterrupt (h : Covered o s) (hext : o.interruptExternalConnections)
    (hcl : s.calls[i]? = some .selectInterrupt) (ok : Bool) :
    Covered o (advance o s i ok .selectInterrupt) := by
  refine ⟨fun hca hch => ?_, .inl fun c hc => ?_⟩
  · exact (h.stored hca hch).imp_right fun hm => mem_resume_of_ne hcl hm nofun
  · simp [advance, interrupt, hext] at hc

/-- A connection is registered through the selection, or a switch will interrupt it. -/
theorem Covered.dialRegister (h : Covered o s) {isExternal ok : Bool}
    (hca : s.calls[i]? = some (.dialRegister tag isExternal))
    (hcur : ok = true → tag = s.selected ∨ ∃ c ∈ s.calls, c.isSwitching = true) :
    Covered o (advance o s i ok (.dialRegister tag isExternal)) := by
  have hs : ∀ c ∈ s.calls, c.isSwitching = true → c ∈ resume s.calls i [] :=
    fun c hc hsw => mem_resume_of_switching hca rfl hc hsw
  have hfr := h.frame hs
  refine ⟨hfr.stored, ?_⟩
  rcases hfr.connections with ha | hsw
  · cases ok with
    | false => exact .inl ha
    | true =>
      rcases hcur rfl with ht | ⟨c, hc, hsw⟩
      · refine .inl fun c hc => ?_
        rcases mem_append.mp hc with ho | hn
        · exact ha c ho
        · rw [mem_singleton.mp hn]
          exact ht
      · exact .inr ⟨c, hs c hc hsw, hsw⟩
  · exact .inr hsw

section

variable (h : Covered o s) (hext : o.interruptExternalConnections = true)

include h hext

theorem Covered.advance {ok : Bool} {call : Call Tag} (hca : s.calls[i]? = some call)
    (hs : StoreSucceeds s (.advance i ok)) (hco : Coordinated s (.advance i ok)) :
    Covered o (advance o s i ok call) := by
  cases call with
  | selectLoad tag =>
    rw [Selector.advance]
    split_ifs <;>
      exact h.frame fun c hc hsw => mem_resume_of_switching hca rfl hc hsw
  | selectStore tag => exact Covered.selectStore ok
  | selectPersist tag =>
    simp only [StoreSucceeds, hca] at hs
    simp only [Coordinated, hca] at hco
    rw [hs]
    exact Covered.selectPersist hca hco
  | selectInterrupt => exact h.selectInterrupt hext hca ok
  | dialLoad isExternal =>
    exact h.frame fun c hc hsw => mem_resume_of_switching hca rfl hc hsw
  | dialRegister tag isExternal =>
    simp only [Coordinated, hca] at hco
    exact h.dialRegister hca hco

theorem Covered.step {e : Event Tag} (hs : StoreSucceeds s e) (hco : Coordinated s e) :
    Covered o (step o s e) := by
  cases e with
  | selectOutbound tag =>
    rw [Selector.step]
    split_ifs
    · exact h.frame fun c hc _ => mem_append_left _ hc
    · exact h
  | dial isExternal => exact h.frame fun c hc _ => mem_append_left _ hc
  | advance i ok =>
    rw [Selector.step]
    split
    · exact h
    · rename_i call hca
      exact h.advance hext hca hs hco
  | closeConnection i =>
    refine ⟨h.stored, h.connections.imp_left fun ha c hc => ?_⟩
    exact ha c (mem_of_mem_eraseIdx hc)

end

/-! ### Runs -/

/-- In every run whose steps are coordinated, of a selector that interrupts all connections and
whose transactions succeed, the selector is switched in every state. -/
theorem run_switched (o : Options Tag) (hext : o.interruptExternalConnections = true)
    (selected : Tag) (stored : Option Tag) (events : ℕ → Event Tag) (hstores : ∀ n,
      StoreSucceeds (run (step o) (State.initial selected stored) events n) (events n))
    (hcoord : ∀ n, Coordinated (run (step o) (State.initial selected stored) events n) (events n))
    (n : ℕ) : Switched o (run (step o) (State.initial selected stored) events n) := by
  suffices hc : Covered o (run (step o) (State.initial selected stored) events n) from
    hc.switched
  induction n with
  | zero => exact Covered.initial selected stored
  | succ n ih => exact ih.step hext (hstores n) (hcoord n)

instance (s : State Tag) (e : Event Tag) : Decidable (StoreSucceeds s e) := by
  unfold StoreSucceeds
  repeat' split
  all_goals infer_instance

instance (s : State Tag) (e : Event Tag) : Decidable (Coordinated s e) := by
  unfold Coordinated
  repeat' split
  all_goals infer_instance

/-- A selector with three members and a cache file, which interrupts all connections. -/
def threeMembers : Options ℕ := ⟨[0, 1, 2], true, true⟩

/-- A dial that has loaded the selection registers its connection before a switch interrupts. -/
def dialDuringSwitch : List (Event ℕ) :=
  [.dial true, .advance 0 true, .selectOutbound 1, .advance 1 true, .advance 1 true,
    .advance 0 true, .advance 0 true, .advance 0 true, .dial false,
    .advance 0 true, .advance 0 true]

theorem run_switched_example : Switched threeMembers (run (step threeMembers) (State.initial 0 none)
      (fun n => dialDuringSwitch.getD n (.closeConnection 1)) 11) ∧
    run (step threeMembers) (State.initial 0 none)
      (fun n => dialDuringSwitch.getD n (.closeConnection 1)) 11 =
      ⟨1, some 1, true, [⟨1, false⟩], []⟩ := by
  refine ⟨run_switched threeMembers rfl 0 none _ ?_ ?_ 11, by decide +kernel⟩
  · exact forall_getD _ _ (by decide +kernel) fun _ => trivial
  · exact forall_getD _ _ (by decide +kernel) fun _ => trivial

/-- Two switches overlap, and the earlier one is the later one to write. Meanwhile a dial that had
loaded the first selection registers its connection after both interrupts. -/
def overlappingSwitches : List (Event ℕ) :=
  [.dial false, .advance 0 true, .selectOutbound 1, .advance 1 true, .advance 1 true,
    .selectOutbound 2, .advance 2 true, .advance 2 true, .advance 2 true, .advance 1 true,
    .advance 1 true, .advance 1 true, .advance 0 true]

/-- The second member is in the cache file, the third one is selected, and a connection is open
through the first one. -/
theorem not_switched : run (step threeMembers) (State.initial 0 none)
      (fun n => overlappingSwitches.getD n (.closeConnection 1)) 13 =
      ⟨2, some 1, true, [⟨0, false⟩], []⟩ ∧
    ¬ Switched threeMembers (run (step threeMembers) (State.initial 0 none)
      (fun n => overlappingSwitches.getD n (.closeConnection 1)) 13) := by
  have hr : run (step threeMembers) (State.initial 0 none)
      (fun n => overlappingSwitches.getD n (.closeConnection 1)) 13 =
      ⟨2, some 1, true, [⟨0, false⟩], []⟩ := by
    decide +kernel
  refine ⟨hr, fun hs => ?_⟩
  rw [hr] at hs
  exact absurd ((hs rfl).2 _ (mem_singleton_self _)) (by decide)

end SingBox.Selector
