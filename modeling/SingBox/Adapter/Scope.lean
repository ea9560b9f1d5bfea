import SingBox.Foundation.Calls
import SingBox.Foundation.Count
import SingBox.Foundation.Run

/-!
# Lifecycle scopes

A scope collects cleanups. `Add` registers one. `Start` starts a component in a child scope, which
it creates when the component is started for the first time, together with a cleanup that closes it;
the start of the component itself runs outside the lock of the scope, and adds its cleanups to the
child scope. `Close` cancels the context of the scope, takes the cleanups, and runs them outside the
lock, the last one first.

Cleanups are numbered in the order in which they are registered, in the whole tree. A call of
`Close` runs as a stack of frames, one for each scope it is closing.
-/

namespace SingBox.Lifecycle

open Foundation List

variable {Component : Type*}

/-- A cleanup of a scope: a function that was handed to `Add`, or the closing of a child scope. -/
structure Cleanup where
  number : ℕ
  child : Option ℕ
deriving DecidableEq, Repr

/-- A scope. Its context is cancelled with that of the scope itself and of any scope above it. -/
structure Scope (Component : Type*) where
  ancestors : List ℕ
  closed : Bool
  cleanups : List Cleanup
  children : List (Component × ℕ)
deriving DecidableEq, Repr

/-- `NewScope` below a scope, or at the root. -/
def Scope.new (ancestors : List ℕ) : Scope Component := ⟨ancestors, false, [], []⟩

/-- The locked section of `Close`. -/
def Scope.close (scope : Scope Component) : Scope Component :=
  { scope with closed := true, cleanups := [], children := [] }

/-- A scope that is being closed. -/
structure Frame where
  finished : List ℕ
  remaining : List Cleanup
deriving DecidableEq, Repr

/-- The loop of `Close` over the cleanups it has taken. -/
def Scope.frame (scope : Scope Component) : Frame := ⟨[], scope.cleanups.reverse⟩

/-- A call of `Start` that has passed its locked section. -/
structure StartCall (Component : Type*) where
  scope : ℕ
  component : Component
  child : ℕ
  started : Bool
deriving DecidableEq, Repr

/-- A start of a component. -/
structure Started (Component : Type*) where
  scope : ℕ
  component : Component
  closed : Bool
deriving DecidableEq, Repr

/-- The tree of scopes and the calls in progress. The root is the scope `0`. -/
structure State (Component : Type*) where
  scopes : List (Scope Component)
  next : ℕ
  starts : List (StartCall Component)
  closes : List (List Frame)
  executed : List ℕ
  /-- The cleanups that each finished loop of a `Close` has run. -/
  finished : List (List ℕ)
  started : List (Started Component)
deriving DecidableEq, Repr

def State.initial : State Component := ⟨[Scope.new []], 0, [], [], [], [], []⟩

/-- What can happen next. -/
inductive Event (Component : Type*)
  /-- The locked section of `Start`. -/
  | start (scope : ℕ) (component : Component)
  /-- The `Start` at a place calls the start of the component. -/
  | startComponent (i : ℕ)
  | startReturn (i : ℕ)
  | add (scope : ℕ)
  /-- The locked section of a new call of `Close`. -/
  | close (scope : ℕ)
  /-- The `Close` at a place runs its next cleanup. -/
  | closeNext (i : ℕ)
deriving DecidableEq, Repr

/-- `scope.closed`, for a scope that exists. -/
def State.isClosed (s : State Component) (id : ℕ) : Bool :=
  (s.scopes[id]?).any Scope.closed

/-- `ctx.Err() != nil`. -/
def State.cancelled (s : State Component) (id : ℕ) (scope : Scope Component) : Bool :=
  (id :: scope.ancestors).any s.isClosed

/-- A cleanup is appended to a scope. -/
def State.register (s : State Component) (id : ℕ) (scope : Scope Component) (child : Option ℕ) :
    State Component :=
  { s with
    scopes := s.scopes.set id { scope with cleanups := scope.cleanups ++ [⟨s.next, child⟩] }
    next := s.next + 1 }

/-- The locked section of `Start`. -/
def start [DecidableEq Component] (s : State Component) (id : ℕ) (scope : Scope Component)
    (component : Component) : State Component :=
  if s.cancelled id scope then s
  else
    match scope.children.lookup component with
    | some child => { s with starts := s.starts ++ [⟨id, component, child, false⟩] }
    | none =>
      let child := s.scopes.length
      let created : State Component :=
        { s with
          scopes := s.scopes ++ [Scope.new (id :: scope.ancestors)]
          starts := s.starts ++ [⟨id, component, child, false⟩] }
      created.register id { scope with children := (component, child) :: scope.children } child

/-- The `Close` at the place `i` goes on. -/
def closeNext (s : State Component) (i : ℕ) : List Frame → State Component
  | [] => { s with closes := resume s.closes i [] }
  | ⟨finished, []⟩ :: callers =>
    { s with closes := resume s.closes i [callers], finished := s.finished ++ [finished] }
  | ⟨finished, cleanup :: remaining⟩ :: callers =>
    let frame : Frame := ⟨finished ++ [cleanup.number], remaining⟩
    let ran : State Component := { s with executed := s.executed ++ [cleanup.number] }
    match cleanup.child.bind fun child => (s.scopes[child]?).map (Prod.mk child) with
    | none => { ran with closes := resume s.closes i [frame :: callers] }
    | some (child, scope) =>
      { ran with
        scopes := s.scopes.set child scope.close
        closes := resume s.closes i [scope.frame :: frame :: callers] }

/-- One event. -/
def step [DecidableEq Component] (s : State Component) : Event Component → State Component
  | .start id component =>
    match s.scopes[id]? with
    | none => s
    | some scope => start s id scope component
  | .startComponent i =>
    match s.starts[i]? with
    | none => s
    | some call =>
      if call.started then s
      else
        { s with
          starts := resume s.starts i [{ call with started := true }]
          started := s.started ++ [⟨call.scope, call.component, s.isClosed call.scope⟩] }
  | .startReturn i =>
    match s.starts[i]? with
    | none => s
    | some call => if call.started then { s with starts := resume s.starts i [] } else s
  | .add id =>
    match s.scopes[id]? with
    | none => s
    | some scope => s.register id scope none
  | .close id =>
    match s.scopes[id]? with
    | none => s
    | some scope =>
      { s with scopes := s.scopes.set id scope.close, closes := s.closes ++ [[scope.frame]] }
  | .closeNext i =>
    match s.closes[i]? with
    | none => s
    | some frames => closeNext s i frames

/-! ### The property and the condition -/

/-- When all calls have returned and the root was closed, every cleanup has run exactly once; the
cleanups that one `Close` has taken from a scope run in reverse order of registration; no component
is started under a scope that was closed. -/
structure Released (s : State Component) : Prop where
  once : s.isClosed 0 = true → s.starts = [] → s.closes = [] →
    ∀ n < s.next, s.executed.count n = 1
  reverse : (∀ frames ∈ s.closes, ∀ frame ∈ frames, frame.finished.Pairwise (· > ·)) ∧
    ∀ finished ∈ s.finished, finished.Pairwise (· > ·)
  started : ∀ start ∈ s.started, start.closed = false

/-- No `Start` on the scope is between its locked section and the start of the component. -/
def NoStartPending (s : State Component) (id : ℕ) : Prop :=
  ∀ call ∈ s.starts, call.scope = id → call.started = true

/-- Nothing is added to a scope that was closed, and a scope is closed only when no `Start` on it is
about to start its component. -/
def Orderly (s : State Component) : Event Component → Prop
  | .add id => s.isClosed id = false
  | .close id => NoStartPending s id
  | .closeNext i =>
    match s.closes[i]? with
    | some (⟨_, cleanup :: _⟩ :: _) => ∀ child ∈ cleanup.child, NoStartPending s child
    | _ => True
  | _ => True

/-! ### Every cleanup is in one place -/

/-- How often a scope holds the cleanup `n`. -/
def Scope.holds (n : ℕ) (scope : Scope Component) : ℕ := scope.cleanups.countP (·.number = n)

/-- How often a `Close` has taken the cleanup `n` and not yet run it. -/
def framesHold (n : ℕ) (frames : List Frame) : ℕ :=
  (frames.map fun frame => frame.remaining.countP (·.number = n)).sum

/-- How often the cleanup `n` has run or will run. -/
def State.occurrences (s : State Component) (n : ℕ) : ℕ :=
  s.executed.count n + (s.scopes.map (Scope.holds n)).sum + (s.closes.map (framesHold n)).sum

theorem framesHold_cons (n : ℕ) (frame : Frame) (frames : List Frame) :
    framesHold n (frame :: frames) =
      frame.remaining.countP (·.number = n) + framesHold n frames := rfl

theorem Scope.holds_close (n : ℕ) (scope : Scope Component) : scope.close.holds n = 0 := rfl

/-- What a scope holds is what a `Close` takes. -/
theorem Scope.countP_frame (n : ℕ) (scope : Scope Component) :
    scope.frame.remaining.countP (·.number = n) = scope.holds n :=
  countP_reverse

variable {s : State Component} {id : ℕ} {scope : Scope Component}

variable {s' : State Component} {old : Scope Component} {cleanup : Cleanup}
  {frames : List Frame}

open Cleanup List List.Pairwise Option Scope State

theorem occurrences_register (ho : s.scopes[id]? = some old)
    (hs : scope.cleanups = old.cleanups) (child : Option ℕ) (n : ℕ) :
    (s.register id scope child).occurrences n = s.occurrences n + if s.next = n then 1 else 0 := by
  have hse := sum_map_set_add ho (holds n)
    { scope with cleanups := scope.cleanups ++ [⟨s.next, child⟩] }
  have hh : holds n { scope with cleanups := scope.cleanups ++ [⟨s.next, child⟩] } =
      old.holds n + if s.next = n then 1 else 0 := by
    simp [holds, hs, countP_append, countP_singleton]
  simp only [occurrences, register]
  omega

/-- A scope hands its cleanups to a `Close`. -/
theorem occurrences_close (hscope : s.scopes[id]? = some scope) (n : ℕ) : occurrences { s with
      scopes := s.scopes.set id scope.close
      closes := s.closes ++ [[scope.frame]] } n = s.occurrences n := by
  have hs := sum_map_set_add hscope (holds n) scope.close
  have hfr := scope.countP_frame n
  rw [holds_close] at hs
  simp only [occurrences, map_append, sum_append, map_cons, map_nil, sum_cons, sum_nil, framesHold]
  omega

theorem closesChild_eq_some {ch : ℕ}
    (h : (cleanup.child.bind fun ch => (s.scopes[ch]?).map (Prod.mk ch)) =
      some (ch, scope)) : cleanup.child = some ch ∧ s.scopes[ch]? = some scope := by
  obtain ⟨c, hc, hm⟩ := bind_eq_some_iff.mp h
  obtain ⟨sc, hsc, hp⟩ := map_eq_some_iff.mp hm
  cases hp
  exact ⟨hc, hsc⟩

variable {i : ℕ}

theorem occurrences_closeNext (hf : s.closes[i]? = some frames) (n : ℕ) :
    (closeNext s i frames).occurrences n = s.occurrences n := by
  match frames with
  | [] =>
    have hr := sum_map_resume (framesHold n) [] hf
    have he : framesHold n [] = 0 := rfl
    rw [he] at hr
    simp only [closeNext, occurrences]
    simp only [map_nil, sum_nil] at hr
    omega
  | ⟨finished, []⟩ :: callers =>
    have hr := sum_map_resume (framesHold n) [callers] hf
    rw [framesHold_cons] at hr
    simp only [countP_nil, map_cons, map_nil, sum_cons, sum_nil] at hr
    simp only [closeNext, occurrences]
    omega
  | ⟨finished, cleanup :: remaining⟩ :: callers =>
    have hru : (s.executed ++ [cleanup.number]).count n =
        s.executed.count n + if cleanup.number = n then 1 else 0 := by
      simp [count_append, count_singleton]
    have htk : framesHold n (⟨finished, cleanup :: remaining⟩ :: callers) =
        (remaining.countP (·.number = n) + if cleanup.number = n then 1 else 0) +
          framesHold n callers := by
      simp [framesHold_cons, countP_cons]
    simp only [closeNext]
    split
    · have hr := sum_map_resume (framesHold n)
        [⟨finished ++ [cleanup.number], remaining⟩ :: callers] hf
      rw [htk] at hr
      simp only [map_cons, map_nil, sum_cons, sum_nil, framesHold_cons] at hr
      simp only [occurrences, hru]
      omega
    · rename_i child scope hch
      have hscope := (closesChild_eq_some hch).2
      have hs := sum_map_set_add hscope (holds n) scope.close
      have hfr := scope.countP_frame n
      have hr := sum_map_resume (framesHold n)
        [scope.frame :: ⟨finished ++ [cleanup.number], remaining⟩ :: callers] hf
      rw [htk] at hr
      rw [holds_close] at hs
      simp only [map_cons, map_nil, sum_cons, sum_nil, framesHold_cons] at hr
      simp only [occurrences, hru]
      omega

/-! ### Every open scope has somebody who will close it -/

/-- A cleanup that is still to be run. -/
def State.Holds (s : State Component) (cleanup : Cleanup) : Prop :=
  (∃ (id : ℕ) (scope : Scope Component), s.scopes[id]? = some scope ∧ cleanup ∈ scope.cleanups) ∨
    ∃ frames ∈ s.closes, ∃ frame ∈ frames, cleanup ∈ frame.remaining

theorem State.Holds.register (h : s.Holds cleanup) (ho : s.scopes[id]? = some old)
    (hs : scope.cleanups = old.cleanups) (child : Option ℕ) :
    (s.register id scope child).Holds cleanup := by
  rcases h with ⟨j, found, hj, hm⟩ | htk
  · by_cases hji : j = id
    · subst hji
      refine .inl ⟨j, _, getElem?_set_self_of ho _, mem_append_left _ ?_⟩
      rw [ho] at hj
      cases hj
      rw [hs]
      exact hm
    · refine .inl ⟨j, found, ?_, hm⟩
      exact (getElem?_set_ne (Ne.symm hji)).trans hj
  · exact .inr htk

/-- The cleanups of a scope that is closed are in the frame of the `Close`. -/
theorem State.Holds.close (h : s.Holds cleanup) (hscope : s.scopes[id]? = some scope)
    {closes : List (List Frame)}
    (hc : ∀ frames ∈ s.closes, ∀ frame ∈ frames, cleanup ∈ frame.remaining →
      ∃ frames' ∈ closes, ∃ fr' ∈ frames', cleanup ∈ fr'.remaining)
    (hfr : ∃ frames ∈ closes, scope.frame ∈ frames) :
    State.Holds { s with scopes := s.scopes.set id scope.close, closes := closes } cleanup := by
  rcases h with ⟨j, found, hj, hm⟩ | ⟨frames, hf, frame, hfr', hm⟩
  · by_cases hji : j = id
    · subst hji
      obtain ⟨frames, hf, hin⟩ := hfr
      refine .inr ⟨frames, hf, scope.frame, hin, ?_⟩
      rw [hscope] at hj
      cases hj
      exact mem_reverse.mpr hm
    · refine .inl ⟨j, found, ?_, hm⟩
      exact (getElem?_set_ne (Ne.symm hji)).trans hj
  · exact .inr (hc frames hf frame hfr' hm)

/-- Where the cleanups are. A scope that was closed has none. A scope that is open is the root, or
the cleanup that closes it is still to be run. -/
structure Owned (s : State Component) : Prop where
  counted : ∀ n, s.occurrences n = if n < s.next then 1 else 0
  emptied : ∀ (id : ℕ) (scope : Scope Component), s.scopes[id]? = some scope →
    scope.closed = true → scope.cleanups = []
  below : ∀ (id : ℕ) (scope : Scope Component), s.scopes[id]? = some scope →
    ∀ cleanup ∈ scope.cleanups, ∀ child, cleanup.child = some child → id < child
  owned : ∀ (id : ℕ) (scope : Scope Component), s.scopes[id]? = some scope → id ≠ 0 →
    scope.closed = true ∨ ∃ cleanup, s.Holds cleanup ∧ cleanup.child = some id

theorem Owned.initial : Owned (State.initial : State Component) := by
  have hr : ∀ (id : ℕ) (scope : Scope Component),
      (State.initial : State Component).scopes[id]? = some scope →
      id = 0 ∧ scope = new [] := by
    intro id scope hscope
    cases id with
    | zero => exact ⟨rfl, (some.inj hscope).symm⟩
    | succ id => cases hscope
  refine ⟨fun n => rfl, fun id scope hscope hcl => ?_, fun id scope hscope cleanup hm => ?_,
    fun id scope hscope hne => absurd (hr id scope hscope).1 hne⟩
  · rw [(hr id scope hscope).2] at hcl
    cases hcl
  · rw [(hr id scope hscope).2] at hm
    cases hm

/-- When nothing is in progress and the root was closed, every scope was closed. -/
theorem Owned.all_closed (h : Owned s) (hr : s.isClosed 0) (hc : s.closes = [])
    (id : ℕ) (scope : Scope Component) (hscope : s.scopes[id]? = some scope) :
    scope.closed := by
  induction id using Nat.strong_induction_on generalizing scope with
  | _ id ih =>
    by_cases hid : id = 0
    · subst hid
      simpa [isClosed, hscope] using hr
    · rcases h.owned id scope hscope hid with hcl | ⟨cleanup, hh, hch⟩
      · exact hcl
      · -- The cleanup would be in a scope above, which has been emptied.
        rcases hh with ⟨parent, above, ha, hm⟩ | ⟨frames, hf, -⟩
        · have hlt := h.below parent above ha cleanup hm id hch
          have he := h.emptied parent above ha (ih parent hlt above ha)
          rw [he] at hm
          cases hm
        · rw [hc] at hf
          cases hf

theorem Owned.once (h : Owned s) (hr : s.isClosed 0) (hcl : s.closes = []) {n : ℕ}
    (hn : n < s.next) : s.executed.count n = 1 := by
  have h0 : (s.scopes.map (holds n)).sum = 0 := by
    refine List.sum_eq_zero_iff_forall_eq_nat.mpr fun x hx => ?_
    obtain ⟨scope, hm, rfl⟩ := List.mem_map.mp hx
    obtain ⟨id, hscope⟩ := mem_iff_getElem?.mp hm
    have he := h.emptied id scope hscope (h.all_closed hr hcl id scope hscope)
    rw [holds, he, countP_nil]
  have hc := h.counted n
  rw [occurrences, h0, hcl, if_pos hn] at hc
  simpa using hc

/-- A cleanup is registered in an open scope. If it closes a child, that child may be new. -/
theorem Owned.of_register {child : Option ℕ}
    (hcn : ∀ n, s.occurrences n = if n < s.next then 1 else 0)
    (he : ∀ (j : ℕ) (found : Scope Component), s.scopes[j]? = some found →
      found.closed = true → found.cleanups = [])
    (hl : ∀ (j : ℕ) (found : Scope Component), s.scopes[j]? = some found →
      ∀ cleanup ∈ found.cleanups, ∀ child, cleanup.child = some child → j < child)
    (hown : ∀ (j : ℕ) (found : Scope Component), s.scopes[j]? = some found → j ≠ 0 →
      child = some j ∨ found.closed = true ∨ ∃ cleanup, s.Holds cleanup ∧ cleanup.child = some j)
    (ho : s.scopes[id]? = some old) (hs : scope.cleanups = old.cleanups)
    (hopen : old.closed = false) (hcl : scope.closed = old.closed)
    (hch : ∀ c, child = some c → id < c) : Owned (s.register id scope child) where
  counted n := by
    have hn : (s.register id scope child).next = s.next + 1 := rfl
    rw [occurrences_register ho hs, hcn n, hn]
    rcases Nat.lt_trichotomy n s.next with hlt | heq | hgt
    · rw [if_pos hlt, if_neg (by omega), if_pos (by omega)]
    · rw [if_neg (by omega), if_pos heq.symm, if_pos (by omega)]
    · rw [if_neg (by omega), if_neg (by omega), if_neg (by omega)]
  emptied j found hf hfc := by
    rcases getElem?_set_cases hf with ⟨-, rfl⟩ | ⟨-, hf⟩
    · rw [hcl, hopen] at hfc
      cases hfc
    · exact he j found hf hfc
  below j found hf cleanup hm c hc := by
    rcases getElem?_set_cases hf with ⟨rfl, rfl⟩ | ⟨-, hf⟩
    · rcases mem_append.mp hm with hm | hm
      · rw [hs] at hm
        exact hl j old ho cleanup hm c hc
      · rw [mem_singleton.mp hm] at hc
        exact hch c hc
    · exact hl j found hf cleanup hm c hc
  owned j found hf hj := by
    have hp : ∃ before : Scope Component, s.scopes[j]? = some before ∧
        (before.closed = true → found.closed = true) := by
      rcases getElem?_set_cases hf with ⟨rfl, rfl⟩ | ⟨-, hf⟩
      · exact ⟨old, ho, fun hcl' => hcl.trans hcl'⟩
      · exact ⟨found, hf, fun hcl' => hcl'⟩
    obtain ⟨before, hp, hcl'⟩ := hp
    rcases hown j before hp hj with rfl | hcl'' | ⟨cleanup, hh, hc⟩
    · -- The cleanup that closes the child is the new one.
      refine .inr ⟨⟨s.next, some j⟩, .inl ⟨id, _, getElem?_set_self_of ho _, ?_⟩, rfl⟩
      exact mem_append_right _ (mem_singleton_self _)
    · exact .inl (hcl' hcl'')
    · exact .inr ⟨cleanup, hh.register ho hs child, hc⟩

section

variable (h : Owned s) (hscope : s.scopes[id]? = some scope) (hopen : scope.closed = false)

include h hscope hopen

/-- `Add` on a scope that was not closed. -/
theorem Owned.add : Owned (s.register id scope none) :=
  Owned.of_register h.counted h.emptied h.below
    (fun j found hf hj => .inr (h.owned j found hf hj)) hscope rfl hopen rfl nofun

/-- `Start` creates a child scope and the cleanup that closes it. -/
theorem Owned.create (ancestors : List ℕ) (children : List (Component × ℕ))
    (starts : List (StartCall Component)) : Owned (register
      { s with scopes := s.scopes ++ [new ancestors], starts := starts }
      id { scope with children := children } (some s.scopes.length)) := by
  obtain ⟨hid, -⟩ := List.getElem?_eq_some_iff.mp hscope
  refine Owned.of_register (fun n => ?_) (fun j found hf hcl => ?_)
    (fun j found hf cleanup hm => ?_) (fun j found hf hj => ?_)
    ((getElem?_append_left hid).trans hscope) rfl hopen rfl (fun c hc => ?_)
  · rw [← h.counted n]
    simp [occurrences, holds, new]
  · rcases getElem?_concat_cases hf with hf | ⟨-, rfl⟩
    · exact h.emptied j found hf hcl
    · rfl
  · rcases getElem?_concat_cases hf with hf | ⟨-, rfl⟩
    · exact h.below j found hf cleanup hm
    · cases hm
  · rcases getElem?_concat_cases hf with hf | ⟨rfl, -⟩
    · refine .inr ((h.owned j found hf hj).imp_right ?_)
      rintro ⟨cleanup, ⟨k, above, ha, hm⟩ | htk, hc⟩
      · obtain ⟨hk, -⟩ := List.getElem?_eq_some_iff.mp ha
        exact ⟨cleanup, .inl ⟨k, above, (getElem?_append_left hk).trans ha, hm⟩, hc⟩
      · exact ⟨cleanup, .inr htk, hc⟩
    · exact .inl rfl
  · cases hc
    exact hid

end

/-- A scope is closed: what it held is now held by a `Close`. The cleanup that closes it may have
been run by that `Close`. -/
theorem Owned.of_close (h : Owned s) (hsc : s'.scopes = s.scopes.set id scope.close)
    (hn : s'.next = s.next) (ho : ∀ n, s'.occurrences n = s.occurrences n)
    (hho : ∀ cleanup, s.Holds cleanup → s'.Holds cleanup ∨ cleanup.child = some id) : Owned s' where
  counted n := by rw [ho, hn, h.counted]
  emptied j found hf hcl := by
    rw [hsc] at hf
    rcases getElem?_set_cases hf with ⟨-, rfl⟩ | ⟨-, hf⟩
    · rfl
    · exact h.emptied j found hf hcl
  below j found hf cleanup hm := by
    rw [hsc] at hf
    rcases getElem?_set_cases hf with ⟨-, rfl⟩ | ⟨-, hf⟩
    · cases hm
    · exact h.below j found hf cleanup hm
  owned j found hf hj := by
    rw [hsc] at hf
    rcases getElem?_set_cases hf with ⟨-, rfl⟩ | ⟨hne, hf⟩
    · exact .inl rfl
    · refine (h.owned j found hf hj).imp_right ?_
      rintro ⟨cleanup, hh, hc⟩
      rcases hho cleanup hh with hh | hs
      · exact ⟨cleanup, hh, hc⟩
      · rw [hc] at hs
        exact absurd (some.inj hs) hne

theorem Owned.frame (h : Owned s) (hs : s'.scopes = s.scopes) (hn : s'.next = s.next)
    (ho : ∀ n, s'.occurrences n = s.occurrences n)
    (hh : ∀ (id : ℕ) (scope : Scope Component) (cleanup : Cleanup),
      s.scopes[id]? = some scope → s.Holds cleanup → cleanup.child = some id →
      s'.Holds cleanup) : Owned s' where
  counted n := by rw [ho, hn, h.counted]
  emptied := by
    rw [hs]
    exact h.emptied
  below := by
    rw [hs]
    exact h.below
  owned j found hf hj := by
    rw [hs] at hf
    refine (h.owned j found hf hj).imp_right ?_
    rintro ⟨cleanup, hhe, hc⟩
    exact ⟨cleanup, hh j found cleanup hf hhe hc, hc⟩

/-- A `Close` that was called on a scope. -/
theorem Owned.close (h : Owned s) (hscope : s.scopes[id]? = some scope) : Owned { s with
      scopes := s.scopes.set id scope.close
      closes := s.closes ++ [[scope.frame]] } := by
  refine h.of_close rfl rfl (occurrences_close hscope) fun cleanup hh => .inl ?_
  refine hh.close hscope (fun frames hf frame hfr hm => ?_) ?_
  · exact ⟨frames, mem_append_left _ hf, frame, hfr, hm⟩
  · exact ⟨[scope.frame], mem_append_right _ (mem_singleton_self _), mem_singleton_self _⟩

/-- A cleanup in a frame of a `Close` that goes on is in the frames it goes on with. -/
theorem mem_remaining_resume {frames new : List Frame} (hf : s.closes[i]? = some frames)
    (hn : ∀ frame ∈ frames, cleanup ∈ frame.remaining → ∃ fr' ∈ new, cleanup ∈ fr'.remaining)
    (fs : List Frame) (hfs : fs ∈ s.closes) (frame : Frame) (hfr : frame ∈ fs)
    (hm : cleanup ∈ frame.remaining) :
    ∃ fs' ∈ resume s.closes i [new], ∃ fr' ∈ fs', cleanup ∈ fr'.remaining := by
  by_cases hs : fs = frames
  · subst hs
    obtain ⟨fr', hfr', hm'⟩ := hn frame hfr hm
    exact ⟨new, mem_resume_new (mem_singleton_self _), fr', hfr', hm'⟩
  · exact ⟨fs, mem_resume_of_ne hf hfs hs, frame, hfr, hm⟩

/-- A `Close` goes on. -/
theorem Owned.closeNext (h : Owned s) (hf : s.closes[i]? = some frames) :
    Owned (closeNext s i frames) := by
  have ho := occurrences_closeNext hf
  match frames with
  | [] =>
    refine h.frame rfl rfl ho fun _ _ cleanup _ hh _ => hh.imp_right ?_
    rintro ⟨fs, hfs, frame, hfr, hm⟩
    refine ⟨fs, mem_resume_of_ne hf hfs fun he => ?_, frame, hfr, hm⟩
    rw [he] at hfr
    cases hfr
  | ⟨finished, []⟩ :: callers =>
    refine h.frame rfl rfl ho fun _ _ cleanup _ hh _ => hh.imp_right ?_
    rintro ⟨fs, hfs, frame, hfr, hm⟩
    refine mem_remaining_resume hf (fun frame hfr hm => ?_) fs hfs frame hfr hm
    rcases mem_cons.mp hfr with rfl | hfr
    · cases hm
    · exact ⟨frame, hfr, hm⟩
  | ⟨finished, cleanup :: remaining⟩ :: callers =>
    -- Every cleanup of the frames other than the one that is run stays.
    have hs : ∀ c' : Cleanup, c' ≠ cleanup →
        ∀ frame ∈ (⟨finished, cleanup :: remaining⟩ : Frame) :: callers,
        c' ∈ frame.remaining →
        ∃ fr' ∈ (⟨finished ++ [cleanup.number], remaining⟩ : Frame) :: callers,
          c' ∈ fr'.remaining := by
      intro c' hne frame hfr hm
      rcases mem_cons.mp hfr with rfl | hfr
      · exact ⟨_, mem_cons_self, (mem_cons.mp hm).resolve_left hne⟩
      · exact ⟨frame, mem_cons_of_mem _ hfr, hm⟩
    simp only [Lifecycle.closeNext] at ho ⊢
    split at ho
    · rename_i hch
      refine h.frame rfl rfl ho fun id scope c' hscope hh hc => ?_
      refine hh.imp_right ?_
      rintro ⟨fs, hfs, frame, hfr, hm⟩
      refine mem_remaining_resume hf (hs c' ?_) fs hfs frame hfr hm
      rintro rfl
      rw [hc, bind_some, hscope] at hch
      cases hch
    · rename_i child scope hch
      obtain ⟨hse, hscope⟩ := closesChild_eq_some hch
      refine h.of_close rfl rfl ho fun c' hh => ?_
      by_cases hne : c' = cleanup
      · rw [hne]
        exact .inr hse
      · refine .inl (hh.close hscope (mem_remaining_resume hf fun frame hfr hm => ?_)
          ⟨_, mem_resume_new (mem_singleton_self _), mem_cons_self⟩)
        obtain ⟨fr', hfr', hm'⟩ := hs c' hne frame hfr hm
        exact ⟨fr', mem_cons_of_mem _ hfr', hm'⟩

/-! ### Cleanups run in reverse order -/

/-- The cleanups of a scope are in the order of registration, those of a frame in reverse order. -/
structure Ordered (s : State Component) : Prop where
  scopes : ∀ scope ∈ s.scopes, (scope.cleanups.map Cleanup.number).Pairwise (· < ·) ∧
    ∀ cleanup ∈ scope.cleanups, cleanup.number < s.next
  frames : ∀ frames ∈ s.closes, ∀ frame ∈ frames,
    (frame.finished ++ frame.remaining.map Cleanup.number).Pairwise (· > ·)
  finished : ∀ finished ∈ s.finished, finished.Pairwise (· > ·)

theorem Ordered.initial : Ordered (initial : State Component) := by
  refine ⟨fun scope hscope => ?_, nofun, nofun⟩
  rw [mem_singleton.mp hscope]
  exact ⟨nil, nofun⟩

section

variable (h : Ordered s)

include h

theorem Ordered.register (ho : old ∈ s.scopes) (hs : scope.cleanups = old.cleanups)
    (child : Option ℕ) : Ordered (s.register id scope child) := by
  refine ⟨fun found hf => ?_, h.frames, h.finished⟩
  rcases mem_or_eq_of_mem_set hf with hf | rfl
  · obtain ⟨hpw, hlt⟩ := h.scopes found hf
    exact ⟨hpw, fun cleanup hm => Nat.lt_succ_of_lt (hlt cleanup hm)⟩
  · obtain ⟨hpw, hlt⟩ := h.scopes old ho
    rw [← hs] at hpw hlt
    refine ⟨?_, fun cleanup hm => ?_⟩
    · rw [map_append, pairwise_append]
      refine ⟨hpw, pairwise_singleton _ _, fun a ha b hb => ?_⟩
      obtain ⟨cleanup, hm, rfl⟩ := mem_map.mp ha
      rw [mem_singleton.mp hb]
      exact hlt cleanup hm
    · rcases mem_append.mp hm with hm | hm
      · exact Nat.lt_succ_of_lt (hlt cleanup hm)
      · rw [mem_singleton.mp hm]
        exact Nat.lt_succ_self s.next

/-- A `Close` runs the cleanups it has taken in reverse order. -/
theorem Ordered.frame_pairwise (hscope : scope ∈ s.scopes) :
    (scope.frame.finished ++ scope.frame.remaining.map number).Pairwise (· > ·) := by
  rw [frame, nil_append, map_reverse, pairwise_reverse]
  exact (h.scopes scope hscope).1

/-- The scopes after a `Close`. -/
theorem Ordered.scopes_close (found : Scope Component) (hf : found ∈ s.scopes.set id scope.close) :
    (found.cleanups.map number).Pairwise (· < ·) ∧
      ∀ cleanup ∈ found.cleanups, cleanup.number < s.next := by
  rcases mem_or_eq_of_mem_set hf with hf | rfl
  · exact h.scopes found hf
  · exact ⟨nil, nofun⟩

theorem Ordered.close (hscope : scope ∈ s.scopes) : Ordered { s with
      scopes := s.scopes.set id scope.close
      closes := s.closes ++ [[scope.frame]] } := by
  refine ⟨h.scopes_close, fun frames hf frame hfr => ?_, h.finished⟩
  rcases mem_append.mp hf with hf | hf
  · exact h.frames frames hf frame hfr
  · rw [mem_singleton.mp hf] at hfr
    rw [mem_singleton.mp hfr]
    exact h.frame_pairwise hscope

theorem Ordered.closeNext (hfrs : s.closes[i]? = some fr) : Ordered (closeNext s i fr) := by
  have hm : fr ∈ s.closes := mem_of_getElem? hfrs
  have hr : ∀ new : List Frame,
      (∀ frame ∈ new, (frame.finished ++ frame.remaining.map number).Pairwise (· > ·)) →
      ∀ fs ∈ resume s.closes i [new], ∀ frame ∈ fs,
        (frame.finished ++ frame.remaining.map number).Pairwise (· > ·) := by
    intro new hn fs hfs
    rcases mem_resume hfs with hfs | hfs
    · exact h.frames fs hfs
    · rw [mem_singleton.mp hfs]
      exact hn
  match fr with
  | [] =>
    refine ⟨h.scopes, fun fs hfs => ?_, h.finished⟩
    exact h.frames fs ((mem_resume hfs).resolve_right nofun)
  | ⟨finished, []⟩ :: callers =>
    refine ⟨h.scopes, hr callers fun frame hfr => ?_, fun f hf => ?_⟩
    · exact h.frames _ hm frame (mem_cons_of_mem _ hfr)
    · rcases mem_append.mp hf with hf | hf
      · exact h.finished f hf
      · have hfr := h.frames _ hm _ mem_cons_self
        rw [map_nil, append_nil] at hfr
        rw [mem_singleton.mp hf]
        exact hfr
  | ⟨finished, cleanup :: remaining⟩ :: callers =>
    have hg : ∀ frame ∈ (⟨finished ++ [cleanup.number], remaining⟩ : Frame) :: callers,
        (frame.finished ++ frame.remaining.map number).Pairwise (· > ·) := by
      intro frame hfr
      rcases mem_cons.mp hfr with rfl | hfr
      · have hp := h.frames _ hm _ mem_cons_self
        rw [append_assoc]
        exact hp
      · exact h.frames _ hm frame (mem_cons_of_mem _ hfr)
    simp only [Lifecycle.closeNext]
    split
    · exact ⟨h.scopes, hr _ hg, h.finished⟩
    · rename_i child scope hch
      have hscope := mem_of_getElem? (closesChild_eq_some hch).2
      refine ⟨h.scopes_close, hr _ fun frame hfr => ?_, h.finished⟩
      rcases mem_cons.mp hfr with rfl | hfr
      · exact h.frame_pairwise hscope
      · exact hg frame hfr

end

/-! ### Nothing is started under a scope that was closed -/

/-- A `Start` that is about to start its component has an open scope. -/
structure StartsOpen (s : State Component) : Prop where
  pending : ∀ call ∈ s.starts, call.started = false → s.isClosed call.scope = false
  started : ∀ start ∈ s.started, start.closed = false

theorem StartsOpen.initial : StartsOpen (initial : State Component) := ⟨nofun, nofun⟩

theorem StartsOpen.frame (h : StartsOpen s) (hstarts : s'.starts = s.starts)
    (hs : s'.started = s.started)
    (hcl : ∀ call ∈ s.starts, call.started = false → s.isClosed call.scope = false →
      s'.isClosed call.scope = false) : StartsOpen s' := by
  refine ⟨fun call hc hp => ?_, fun start hst => ?_⟩
  · rw [hstarts] at hc
    exact hcl call hc hp (h.pending call hc hp)
  · rw [hs] at hst
    exact h.started start hst

theorem isClosed_set (hscope : s.scopes[id]? = some scope) (new : Scope Component) (j : ℕ)
    (hs : s'.scopes = s.scopes.set id new) :
    s'.isClosed j = if j = id then new.closed else s.isClosed j := by
  obtain ⟨hid, -⟩ := List.getElem?_eq_some_iff.mp hscope
  rw [isClosed, hs, getElem?_set]
  by_cases hj : j = id
  · rw [if_pos hj.symm, if_pos hid, if_pos hj]
    rfl
  · rw [if_neg (Ne.symm hj), if_neg hj]
    rfl

/-- A scope is closed while no `Start` on it is about to start its component. -/
theorem StartsOpen.close (h : StartsOpen s) (hscope : s.scopes[id]? = some scope)
    (hn : NoStartPending s id) (hscs : s'.scopes = s.scopes.set id scope.close)
    (hs : s'.starts = s.starts) (hst : s'.started = s.started) : StartsOpen s' := by
  refine h.frame hs hst fun call hc hp hopen => ?_
  have hne : call.scope ≠ id := by
    intro heq
    rw [hn call hc heq] at hp
    cases hp
  rw [isClosed_set hscope scope.close _ hscs, if_neg hne]
  exact hopen

/-! ### Runs -/

/-- All three invariants. -/
structure Sound (s : State Component) : Prop where
  owned : Owned s
  ordered : Ordered s
  startsOpen : StartsOpen s

theorem Sound.released (h : Sound s) : Released s where
  once hr _ hc _ hn := h.owned.once hr hc hn
  reverse := by
    refine ⟨fun frames hf frame hfr => ?_, h.ordered.finished⟩
    exact (pairwise_append.mp (h.ordered.frames frames hf frame hfr)).1
  started := h.startsOpen.started

theorem isClosed_of_getElem? (hscope : s.scopes[id]? = some scope) :
    s.isClosed id = scope.closed := by
  rw [isClosed, hscope]
  rfl

/-- A change of the calls of `Start` only. -/
theorem Owned.starts (h : Owned s) (starts : List (StartCall Component))
    (started : List (Started Component)) : Owned { s with starts := starts, started := started } :=
  ⟨h.counted, h.emptied, h.below, h.owned⟩

variable [DecidableEq Component]

/-- The locked section of `Start` starts nothing in a scope that was closed. -/
theorem Sound.start (h : Sound s) (hscope : s.scopes[id]? = some scope) (component : Component) :
    Sound (start s id scope component) := by
  obtain ⟨hid, -⟩ := List.getElem?_eq_some_iff.mp hscope
  unfold Lifecycle.start
  by_cases hca : s.cancelled id scope = true
  · rw [if_pos hca]
    exact h
  rw [if_neg hca]
  have hop : scope.closed = false := by
    rw [← isClosed_of_getElem? hscope, ← Bool.not_eq_true]
    intro hcl
    exact hca (any_eq_true.mpr ⟨id, mem_cons_self, hcl⟩)
  have hp : ∀ child, ∀ call ∈ s.starts ++ [⟨id, component, child, false⟩],
      call.started = false → s.isClosed call.scope = false := by
    intro child call hc hst
    rcases mem_append.mp hc with hc | hc
    · exact h.startsOpen.pending call hc hst
    · rw [mem_singleton.mp hc, isClosed_of_getElem? hscope]
      exact hop
  cases scope.children.lookup component with
  | some child =>
    exact ⟨h.owned.starts _ _, ⟨h.ordered.scopes, h.ordered.frames, h.ordered.finished⟩,
      ⟨hp child, h.startsOpen.started⟩⟩
  | none =>
    refine ⟨h.owned.create hscope hop _ _ _, ?_, fun call hc hst => ?_, h.startsOpen.started⟩
    · have hcr : Ordered { s with
          scopes := s.scopes ++ [new (id :: scope.ancestors)]
          starts := s.starts ++ [⟨id, component, s.scopes.length, false⟩] } := by
        refine ⟨fun found hf => ?_, h.ordered.frames, h.ordered.finished⟩
        rcases mem_append.mp hf with hf | hf
        · exact h.ordered.scopes found hf
        · rw [mem_singleton.mp hf]
          exact ⟨nil, nofun⟩
      have hm := mem_append_left [new (id :: scope.ancestors)] (mem_of_getElem? hscope)
      refine hcr.register hm ?_ _
      rfl
    · -- The scope stays open, and the new one is open.
      have hpr := hp _ call hc hst
      rw [isClosed_set ((getElem?_append_left hid).trans hscope) _ call.scope rfl]
      split_ifs
      · exact hop
      · rw [isClosed] at hpr ⊢
        dsimp only
        rw [getElem?_append]
        split_ifs
        · exact hpr
        · rw [getElem?_singleton]
          split_ifs <;> rfl

theorem Sound.step (h : Sound s) {e : Event Component} (hor : Orderly s e) :
    Sound (step s e) := by
  cases e with
  | start id component =>
    rw [Lifecycle.step]
    split
    · exact h
    · rename_i scope hscope
      exact h.start hscope component
  | startComponent i =>
    rw [Lifecycle.step]
    split
    · exact h
    · rename_i call hc
      split_ifs with hs
      · exact h
      · refine ⟨h.owned.starts _ _, ⟨h.ordered.scopes, h.ordered.frames, h.ordered.finished⟩,
          fun other ho hp => ?_, fun start hst => ?_⟩
        · rcases mem_resume ho with ho | ho
          · exact h.startsOpen.pending other ho hp
          · rw [mem_singleton.mp ho] at hp
            cases hp
        · rcases mem_append.mp hst with hst | hst
          · exact h.startsOpen.started start hst
          · rw [mem_singleton.mp hst]
            exact h.startsOpen.pending call (mem_of_getElem? hc)
              (Bool.eq_false_iff.mpr hs)
  | startReturn i =>
    rw [Lifecycle.step]
    split
    · exact h
    · split_ifs
      · refine ⟨h.owned.starts _ _, ⟨h.ordered.scopes, h.ordered.frames, h.ordered.finished⟩,
          fun other ho => ?_, h.startsOpen.started⟩
        exact h.startsOpen.pending other ((mem_resume ho).resolve_right nofun)
      · exact h
  | add id =>
    rw [Lifecycle.step]
    split
    · exact h
    · rename_i scope hscope
      have hopen : scope.closed = false := (isClosed_of_getElem? hscope).symm.trans hor
      refine ⟨h.owned.add hscope hopen, h.ordered.register (mem_of_getElem? hscope) rfl none,
        h.startsOpen.frame rfl rfl fun call _ _ hc => ?_⟩
      rw [isClosed_set hscope _ call.scope rfl]
      split_ifs
      · exact hopen
      · exact hc
  | close id =>
    rw [Lifecycle.step]
    split
    · exact h
    · rename_i scope hscope
      exact ⟨h.owned.close hscope, h.ordered.close (mem_of_getElem? hscope),
        h.startsOpen.close hscope hor rfl rfl rfl⟩
  | closeNext i =>
    rw [Lifecycle.step]
    split
    · exact h
    · rename_i frames hf
      refine ⟨h.owned.closeNext hf, h.ordered.closeNext hf, ?_⟩
      simp only [Orderly, hf] at hor
      match frames with
      | [] => exact ⟨h.startsOpen.pending, h.startsOpen.started⟩
      | ⟨finished, []⟩ :: callers => exact ⟨h.startsOpen.pending, h.startsOpen.started⟩
      | ⟨finished, cleanup :: remaining⟩ :: callers =>
        simp only [closeNext]
        split
        · exact ⟨h.startsOpen.pending, h.startsOpen.started⟩
        · rename_i child scope hch
          obtain ⟨hse, hscope⟩ := closesChild_eq_some hch
          exact h.startsOpen.close hscope (hor child hse) rfl rfl rfl

/-- In every run with orderly steps no cleanup is lost. -/
theorem run_released (events : ℕ → Event Component)
    (horderly : ∀ n, Orderly (run step State.initial events n) (events n)) (n : ℕ) :
    Released (run step State.initial events n) := by
  suffices hs : Sound (run step initial events n) from hs.released
  induction n with
  | zero => exact ⟨Owned.initial, Ordered.initial, StartsOpen.initial⟩
  | succ n ih => exact ih.step (horderly n)

instance (s : State Component) (id : ℕ) : Decidable (NoStartPending s id) :=
  inferInstanceAs (Decidable (∀ call ∈ s.starts, call.scope = id → call.started = true))

instance (s : State Component) (e : Event Component) : Decidable (Orderly s e) := by
  unfold Orderly
  repeat' split
  all_goals infer_instance

/-- A component is started and adds two cleanups; the root is closed by two calls at once, of which
the second one finds nothing to run. -/
def startAndClose : List (Event ℕ) :=
  [.add 0, .start 0 7, .startComponent 0, .add 1, .add 1, .startReturn 0, .close 0, .close 0,
    .closeNext 1, .closeNext 1, .closeNext 0, .closeNext 0, .closeNext 0,
    .closeNext 0, .closeNext 0, .closeNext 0, .closeNext 0]

theorem run_released_example :
    Released (run step State.initial (fun n => startAndClose.getD n (.startReturn 0)) 17) ∧
    (run step State.initial (fun n => startAndClose.getD n (.startReturn 0)) 17).closes = [] ∧
    (run step State.initial (fun n => startAndClose.getD n (.startReturn 0)) 17).executed =
      [1, 3, 2, 0] := by
  refine ⟨run_released _ ?_ 17, by decide +kernel, by decide +kernel⟩
  exact forall_getD _ _ (by decide +kernel) fun _ => trivial

/-- A `Close` of the root overtakes the start of a component, which then adds a cleanup to a child
scope that was closed. -/
def closeOvertakesStart : List (Event ℕ) :=
  [.start 0 7, .startComponent 0, .close 0, .closeNext 0, .closeNext 0, .closeNext 0, .closeNext 0,
    .add 1, .startReturn 0]

/-- Another one overtakes the start between its check and the start of the component. -/
def closeBeforeComponent : List (Event ℕ) :=
  [.start 0 7, .close 0, .closeNext 0, .closeNext 0, .closeNext 0, .closeNext 0, .startComponent 0,
    .startReturn 0]

/-- All calls have returned, the root was closed and the cleanup was not run; and a component was
started under a scope whose `Close` has returned. -/
theorem cleanup_lost :
    (¬ Released (run step State.initial
        (fun n => closeOvertakesStart.getD n (.startReturn 0)) 9) ∧
      (run step State.initial
        (fun n => closeOvertakesStart.getD n (.startReturn 0)) 9).executed = [0]) ∧
    ¬ Released (run step State.initial
      (fun n => closeBeforeComponent.getD n (.startReturn 0)) 8) := by
  refine ⟨⟨fun hr => ?_, by decide +kernel⟩, fun hr => ?_⟩
  · exact absurd (hr.once (by decide +kernel) (by decide +kernel) (by decide +kernel) 1
      (by decide +kernel)) (by decide +kernel)
  · exact absurd (hr.started ⟨0, 7, true⟩ (by decide +kernel)) (by decide)

end SingBox.Lifecycle
