import SingBox.Foundation.Calls
import SingBox.Foundation.Run

/-!
# The DNS cache in the cache file

`SaveDNSCacheAsync` puts a message into a table of pending messages, and starts a flush for its key
if none is running. A flush copies the pending message to the database, outside the lock of the
table, and then removes it, unless it was replaced meanwhile, which shows in its sequence number.
`LoadDNSCache` looks into the table first, and then into the database. `ClearDNSCache` empties the
table and then the database, and knows nothing of the flushes that are running.
-/

namespace SingBox.CacheFile

open Foundation Function List

variable {Key Message : Type*} [DecidableEq Key]

/-- `saveDNSCacheEntry`: a message that is not written yet. -/
structure SaveDNSCacheEntry (Message : Type*) where
  rawMessage : Message
  /-- A `uint64` in the source; it counts the saves of one key, which do not come to 2 ^ 64. -/
  sequence : ℕ
  /-- A flush of the key is running. -/
  saving : Bool
deriving DecidableEq, Repr

/-- The next step of `flushPendingDNSCache`. -/
inductive FlushStep (Message : Type*)
  | read
  | save (entry : SaveDNSCacheEntry Message)
  | compare (entry : SaveDNSCacheEntry Message)
deriving DecidableEq, Repr

/-- A flush that is running. -/
structure Flush (Key Message : Type*) where
  key : Key
  next : FlushStep Message
  /-- It was running when the table was cleared. -/
  orphan : Bool
deriving DecidableEq, Repr

/-- A `LoadDNSCache` that has not found its key in the table. -/
structure Load (Key : Type*) where
  key : Key
  /-- No save and no clear was in progress since it has looked. -/
  undisturbed : Bool
deriving DecidableEq, Repr

/-- A `LoadDNSCache` that has returned. -/
structure Loaded (Key Message : Type*) where
  key : Key
  undisturbed : Bool
  result : Option Message
  /-- The last message saved for the key since the last clear returned. -/
  last : Option Message
deriving DecidableEq, Repr

/-- The table, the database and the calls in progress. -/
structure State (Key Message : Type*) where
  saveDNSCache : Key → Option (SaveDNSCacheEntry Message)
  database : Key → Option Message
  flushes : List (Flush Key Message)
  /-- The number of clears that have emptied the table and not yet the database. -/
  clears : ℕ
  loads : List (Load Key)
  /-- The last message saved for each key since the last clear returned. -/
  last : Key → Option Message
  loaded : List (Loaded Key Message)

/-- A cache file that has been opened; what it contains was saved earlier. -/
def State.initial (database : Key → Option Message) : State Key Message :=
  ⟨fun _ => none, database, [], 0, [], database, []⟩

/-- What can happen next. -/
inductive Event (Key Message : Type*)
  /-- `SaveDNSCacheAsync`. -/
  | save (key : Key) (rawMessage : Message)
  /-- The flush at a place takes a step. -/
  | flush (i : ℕ)
  /-- `ClearDNSCache` empties the table. -/
  | clear
  /-- A `ClearDNSCache` empties the database and returns. -/
  | clearDatabase
  /-- `LoadDNSCache` looks into the table. -/
  | load (key : Key)
  /-- The `LoadDNSCache` at a place looks into the database. -/
  | loadView (i : ℕ)
deriving DecidableEq, Repr

/-- `queueDNSCacheSave`: the new entry, and whether a flush is to be started. -/
def queueDNSCacheSave (entry : Option (SaveDNSCacheEntry Message)) (rawMessage : Message) :
    SaveDNSCacheEntry Message × Bool :=
  match entry with
  | none => (⟨rawMessage, 1, true⟩, true)
  | some entry => (⟨rawMessage, entry.sequence + 1, true⟩, !entry.saving)

def saveDNSCacheAsync (s : State Key Message) (key : Key) (rawMessage : Message) :
    State Key Message :=
  let queued := queueDNSCacheSave (s.saveDNSCache key) rawMessage
  { s with
    saveDNSCache := Function.update s.saveDNSCache key (some queued.1)
    flushes := if queued.2 then s.flushes ++ [⟨key, .read, false⟩] else s.flushes
    loads := s.loads.map fun l => { l with undisturbed := false }
    last := Function.update s.last key (some rawMessage) }

/-- One step of the flush `f` at the place `i`. -/
def flushPendingDNSCache (s : State Key Message) (i : ℕ) (f : Flush Key Message) :
    State Key Message :=
  match f.next with
  | .read =>
    match s.saveDNSCache f.key with
    | none => { s with flushes := resume s.flushes i [] }
    | some entry => { s with flushes := resume s.flushes i [{ f with next := .save entry }] }
  | .save entry =>
    { s with
      database := Function.update s.database f.key (some entry.rawMessage)
      flushes := resume s.flushes i [{ f with next := .compare entry }] }
  | .compare entry =>
    match s.saveDNSCache f.key with
    | none => { s with flushes := resume s.flushes i [] }
    | some currentEntry =>
      if currentEntry.sequence = entry.sequence then
        { s with
          saveDNSCache := Function.update s.saveDNSCache f.key none
          flushes := resume s.flushes i [] }
      else { s with flushes := resume s.flushes i [{ f with next := .read }] }

/-- One event. -/
def step (s : State Key Message) : Event Key Message → State Key Message
  | .save key rawMessage => saveDNSCacheAsync s key rawMessage
  | .flush i =>
    match s.flushes[i]? with
    | none => s
    | some f => flushPendingDNSCache s i f
  | .clear =>
    { s with
      saveDNSCache := fun _ => none
      flushes := s.flushes.map fun f => { f with orphan := true }
      clears := s.clears + 1
      loads := s.loads.map fun l => { l with undisturbed := false } }
  | .clearDatabase =>
    match s.clears with
    | 0 => s
    | clears + 1 => { s with database := fun _ => none, clears := clears, last := fun _ => none }
  | .load key =>
    match s.saveDNSCache key with
    | some entry =>
      { s with
        loaded := s.loaded ++ [⟨key, s.clears = 0, some entry.rawMessage, s.last key⟩] }
    | none => { s with loads := s.loads ++ [⟨key, s.clears = 0⟩] }
  | .loadView i =>
    match s.loads[i]? with
    | none => s
    | some l =>
      { s with
        loads := resume s.loads i []
        loaded := s.loaded ++ [⟨l.key, l.undisturbed, s.database l.key, s.last l.key⟩] }

/-! ### The property and the condition -/

/-- Every load that no save and no clear has overlapped returned the last message saved for its
key since the last clear, and nothing if there was none. -/
def Honoured (s : State Key Message) : Prop :=
  ∀ l ∈ s.loaded, l.undisturbed = true → l.result = l.last

/-- A flush that was running when the table was cleared does not write to the database and does not
remove a message from the table, and nothing is pending when a clear empties the database. -/
def Unorphaned (s : State Key Message) : Event Key Message → Prop
  | .flush i =>
    match s.flushes[i]? with
    | some ⟨_, .save _, true⟩ => False
    | some ⟨key, .compare entry, true⟩ =>
      (s.saveDNSCache key).all fun currentEntry => currentEntry.sequence ≠ entry.sequence
    | _ => True
  | .clearDatabase => s.clears ≠ 0 → ∀ key, s.saveDNSCache key = none
  | _ => True

/-! ### The invariant -/

/-- The flush that was started for the pending message of a key. -/
def Flush.owns (key : Key) (f : Flush Key Message) : Bool := f.key = key && !f.orphan

/-- An entry that was read from the table: it is still there or was replaced by a later one. -/
def Precedes (entry : SaveDNSCacheEntry Message) (current : Option (SaveDNSCacheEntry Message)) :
    Prop :=
  ∀ currentEntry, current = some currentEntry → entry.sequence ≤ currentEntry.sequence ∧
    (entry.sequence = currentEntry.sequence → entry.rawMessage = currentEntry.rawMessage)

/-- What a flush knows of the table and the database, as long as it is not orphaned. -/
def FlushOk (table : Key → Option (SaveDNSCacheEntry Message)) (database : Key → Option Message)
    (f : Flush Key Message) : Prop :=
  f.orphan = false →
    match f.next with
    | .read => True
    | .save entry => Precedes entry (table f.key)
    | .compare entry =>
      Precedes entry (table f.key) ∧ database f.key = some entry.rawMessage

/-- Every pending message has one flush, the others are orphans; what is not pending has been
written; a load that was not disturbed has looked in the right place. -/
structure Flushed (s : State Key Message) : Prop where
  saving : ∀ key entry, s.saveDNSCache key = some entry → entry.saving = true
  running : ∀ key, s.flushes.countP (Flush.owns key) = if (s.saveDNSCache key).isSome then 1 else 0
  flushes : ∀ f ∈ s.flushes, FlushOk s.saveDNSCache s.database f
  pending : ∀ key entry, s.saveDNSCache key = some entry → s.last key = some entry.rawMessage
  written : s.clears = 0 → ∀ key, s.saveDNSCache key = none → s.database key = s.last key
  loads : ∀ l ∈ s.loads, l.undisturbed = true → s.clears = 0 ∧ s.saveDNSCache l.key = none
  honoured : Honoured s

variable {s : State Key Message}

theorem Flushed.initial (database : Key → Option Message) : Flushed (State.initial database) where
  saving := nofun
  running _ := rfl
  flushes := nofun
  pending := nofun
  written _ _ _ := rfl
  loads := nofun
  honoured := nofun

variable {f : Flush Key Message} {i : ℕ}

open Flush

theorem owns_iff {key : Key} : f.owns key = true ↔ f.key = key ∧ f.orphan = false := by
  simp [owns]

theorem Flushed.isSome (h : Flushed s) (hf : f ∈ s.flushes) (ho : f.orphan = false) :
    (s.saveDNSCache f.key).isSome := by
  have hpos : 0 < s.flushes.countP (owns f.key) :=
    countP_pos_iff.mpr ⟨f, hf, owns_iff.mpr ⟨rfl, ho⟩⟩
  rw [h.running] at hpos
  by_contra hn
  rw [if_neg hn] at hpos
  exact absurd hpos (Nat.lt_irrefl 0)

theorem Flushed.unique (h : Flushed s) {f g : Flush Key Message} (hf : s.flushes[i]? = some f)
    (ho : f.orphan = false) (hg : g ∈ resume s.flushes i []) (hk : g.key = f.key) :
    g.orphan := by
  have hc := countP_resume (owns f.key) [] hf
  have hs := h.isSome (mem_of_getElem? hf) ho
  rw [h.running, if_pos hs, if_pos (owns_iff.mpr ⟨rfl, ho⟩), countP_nil] at hc
  have h0 : (resume s.flushes i []).countP (owns f.key) = 0 := by omega
  by_contra hne
  exact countP_eq_zero.mp h0 g hg (owns_iff.mpr ⟨hk, Bool.eq_false_iff.mpr hne⟩)

theorem countP_owns_replace (hf : s.flushes[i]? = some f) (next : FlushStep Message) (key : Key) :
    (resume s.flushes i [{ f with next := next }]).countP (owns key) =
      s.flushes.countP (owns key) := by
  have hc := countP_resume (owns key) [{ f with next := next }] hf
  have hs : owns key { f with next := next } = f.owns key := rfl
  rw [countP_singleton, hs] at hc
  omega

theorem countP_owns_remove (hf : s.flushes[i]? = some f) {key : Key} (hn : f.owns key = false) :
    (resume s.flushes i []).countP (owns key) = s.flushes.countP (owns key) := by
  have hc := countP_resume (owns key) [] hf
  rw [hn, countP_nil] at hc
  simpa using hc

section

variable (h : Flushed s) (hf : s.flushes[i]? = some f)

include h hf

theorem Flushed.replace {next : FlushStep Message}
    (hok : FlushOk s.saveDNSCache s.database { f with next := next }) :
    Flushed { s with flushes := resume s.flushes i [{ f with next := next }] } where
  __ := h
  running key := (countP_owns_replace hf next key).trans (h.running key)
  flushes g hg := by
    rcases mem_resume hg with ho | hn
    · exact h.flushes g ho
    · rw [mem_singleton.mp hn]
      exact hok

theorem Flushed.stop (hn : s.saveDNSCache f.key = none) :
    Flushed { s with flushes := resume s.flushes i [] } where
  __ := h
  running key := by
    refine (countP_owns_remove hf ?_).trans (h.running key)
    rw [Bool.eq_false_iff]
    intro ho
    have hs := h.isSome (mem_of_getElem? hf) (owns_iff.mp ho).2
    rw [hn] at hs
    cases hs
  flushes g hg := by
    rcases mem_resume hg with hold | hnew
    · exact h.flushes g hold
    · cases hnew

theorem Flushed.save {entry : SaveDNSCacheEntry Message} (hne : f.next = .save entry)
    (hor : f.orphan = false) : Flushed { s with
      database := update s.database f.key (some entry.rawMessage)
      flushes := resume s.flushes i [{ f with next := .compare entry }] } where
  __ := h
  running key := (countP_owns_replace hf _ key).trans (h.running key)
  flushes g hg := by
    intro hgo
    rcases mem_append.mp hg with ho | hse
    · -- Another flush that is not orphaned has another key.
      have hm : g ∈ resume s.flushes i [] := mem_append_left _ ho
      have hk : g.key ≠ f.key := by
        intro hk
        rw [h.unique hf hor hm hk] at hgo
        cases hgo
      have hold := h.flushes g (mem_of_mem_eraseIdx ho) hgo
      simp only [update_of_ne hk]
      exact hold
    · rw [mem_singleton.mp hse]
      have hr := h.flushes f (mem_of_getElem? hf) hor
      rw [hne] at hr
      exact ⟨hr, update_self _ _ _⟩
  written hc key hn := by
    have hk : key ≠ f.key := by
      rintro rfl
      have hs := h.isSome (mem_of_getElem? hf) hor
      rw [hn] at hs
      cases hs
    simp only [update_of_ne hk]
    exact h.written hc key hn

theorem Flushed.remove {entry cur : SaveDNSCacheEntry Message}
    (hne : f.next = .compare entry) (ho : f.orphan = false) (hcu : s.saveDNSCache f.key = some cur)
    (hs : cur.sequence = entry.sequence) : Flushed { s with
      saveDNSCache := update s.saveDNSCache f.key none
      flushes := resume s.flushes i [] } where
  saving key := by
    by_cases hk : key = f.key
    · subst hk
      simp
    · simpa only [update_of_ne hk] using h.saving key
  running key := by
    have hc := countP_resume (owns key) [] hf
    rw [countP_nil, h.running] at hc
    by_cases hk : key = f.key
    · subst hk
      rw [if_pos (owns_iff.mpr ⟨rfl, ho⟩), hcu] at hc
      simpa using hc
    · have hno : f.owns key = false := by simp [owns, Ne.symm hk]
      rw [hno] at hc
      simpa only [update_of_ne hk, Bool.false_eq_true, if_false, Nat.add_zero] using hc
  flushes g hg := by
    intro hgo
    have hk : g.key ≠ f.key := by
      intro hk
      rw [h.unique hf ho hg hk] at hgo
      cases hgo
    have hol : g ∈ s.flushes := (mem_resume hg).resolve_right nofun
    simp only [update_of_ne hk]
    exact h.flushes g hol hgo
  pending key := by
    by_cases hk : key = f.key
    · subst hk
      simp
    · simpa only [update_of_ne hk] using h.pending key
  written hcl key hn := by
    by_cases hk : key = f.key
    · subst hk
      have hok := h.flushes f (mem_of_getElem? hf) ho
      rw [hne] at hok
      rw [hok.2, h.pending f.key cur hcu, (hok.1 cur hcu).2 hs.symm]
    · simp only [update_of_ne hk] at hn
      exact h.written hcl key hn
  loads l hl hu := by
    obtain ⟨hcl, hn⟩ := h.loads l hl hu
    refine ⟨hcl, ?_⟩
    by_cases hk : l.key = f.key
    · rw [hk]
      exact update_self _ _ _
    · simp only [update_of_ne hk]
      exact hn
  honoured := h.honoured

theorem Flushed.flush (hco : Unorphaned s (.flush i)) : Flushed (flushPendingDNSCache s i f) := by
  have hm : f ∈ s.flushes := mem_of_getElem? hf
  obtain ⟨key, next, orphan⟩ := f
  simp only [Unorphaned, hf] at hco
  cases next with
  | read =>
    simp only [flushPendingDNSCache]
    cases he : s.saveDNSCache key with
    | none => exact h.stop hf he
    | some entry =>
      refine h.replace hf fun _ cur hc => ?_
      rw [he] at hc
      cases hc
      exact ⟨Nat.le_refl _, fun _ => rfl⟩
  | save entry =>
    cases orphan with
    | true => exact hco.elim
    | false => exact h.save hf rfl rfl
  | compare entry =>
    simp only [flushPendingDNSCache]
    cases hc : s.saveDNSCache key with
    | none => exact h.stop hf hc
    | some cur =>
      dsimp only
      split_ifs with hs
      · cases orphan with
        | true => simp [hc, hs] at hco
        | false => exact h.remove hf rfl rfl hc hs
      · exact h.replace hf fun _ => trivial

end

section

variable (h : Flushed s)

include h

theorem Flushed.saveAsync (key : Key) (rawMessage : Message) :
    Flushed (saveDNSCacheAsync s key rawMessage) where
  saving k entry he := by
    by_cases hk : k = key
    · subst hk
      simp only [saveDNSCacheAsync, update_self, Option.some.injEq] at he
      rw [← he]
      cases s.saveDNSCache k <;> rfl
    · simp only [saveDNSCacheAsync, update_of_ne hk] at he
      exact h.saving k entry he
  running k := by
    have hr := h.running k
    cases ho : s.saveDNSCache key with
    | none =>
      by_cases hk : k = key
      · subst hk
        rw [ho] at hr
        simpa [saveDNSCacheAsync, ho, queueDNSCacheSave, owns] using hr
      · simpa [saveDNSCacheAsync, ho, queueDNSCacheSave, owns, update_of_ne hk, Ne.symm hk] using hr
    | some entry =>
      have hs := h.saving key entry ho
      by_cases hk : k = key
      · subst hk
        rw [ho] at hr
        simpa [saveDNSCacheAsync, ho, queueDNSCacheSave, hs] using hr
      · simpa [saveDNSCacheAsync, ho, queueDNSCacheSave, hs, update_of_ne hk] using hr
  flushes f hf := by
    intro hor
    have hm : f ∈ s.flushes ∨ f = ⟨key, .read, false⟩ := by
      simp only [saveDNSCacheAsync] at hf
      split_ifs at hf
      · simpa using hf
      · exact Or.inl hf
    rcases hm with hm | rfl
    · by_cases hk : f.key = key
      · -- What the flush has read is older than the new message.
        obtain ⟨entry, he⟩ := Option.isSome_iff_exists.mp (h.isSome hm hor)
        have hok := h.flushes f hm hor
        have hla : ∀ e : SaveDNSCacheEntry Message, Precedes e (s.saveDNSCache f.key) →
            Precedes e (some (queueDNSCacheSave (s.saveDNSCache key) rawMessage).1) := by
          intro e hp cur hc
          have hle := (hp entry he).1
          rw [← hk, he] at hc
          cases hc
          refine ⟨Nat.le_succ_of_le hle, fun heq => ?_⟩
          simp only [queueDNSCacheSave] at heq
          omega
        simp only [saveDNSCacheAsync, hk, update_self]
        rw [hk] at hok hla
        revert hok
        cases f.next with
        | read => exact fun _ => trivial
        | save e => exact fun hok => hla e hok
        | compare e => exact fun hok => ⟨hla e hok.1, hok.2⟩
      · simp only [saveDNSCacheAsync, update_of_ne hk]
        exact h.flushes f hm hor
    · trivial
  pending k entry he := by
    by_cases hk : k = key
    · subst hk
      simp only [saveDNSCacheAsync, update_self, Option.some.injEq] at he ⊢
      rw [← he]
      cases s.saveDNSCache k <;> rfl
    · simp only [saveDNSCacheAsync, update_of_ne hk] at he ⊢
      exact h.pending k entry he
  written hcl k hn := by
    by_cases hk : k = key
    · subst hk
      simp [saveDNSCacheAsync] at hn
    · simp only [saveDNSCacheAsync, update_of_ne hk] at hn ⊢
      exact h.written hcl k hn
  loads l hl hu := by
    obtain ⟨_, -, rfl⟩ := mem_map.mp hl
    cases hu
  honoured := h.honoured

theorem Flushed.clear : Flushed (step s .clear) where
  saving := nofun
  running key := by
    refine countP_eq_zero.mpr fun f hf ho => ?_
    obtain ⟨_, -, rfl⟩ := mem_map.mp hf
    cases (owns_iff.mp ho).2
  flushes f hf := by
    intro hor
    obtain ⟨_, -, rfl⟩ := mem_map.mp hf
    cases hor
  pending := nofun
  written hc := by cases hc
  loads l hl hu := by
    obtain ⟨_, -, rfl⟩ := mem_map.mp hl
    cases hu
  honoured := h.honoured

theorem Flushed.clearDatabase (hco : Unorphaned s .clearDatabase) :
    Flushed (step s .clearDatabase) := by
  cases hc : s.clears with
  | zero => simpa only [step, hc] using h
  | succ clears =>
    have hemp : ∀ key, s.saveDNSCache key = none := by
      refine hco ?_
      rw [hc]
      exact Nat.succ_ne_zero clears
    simp only [step, hc]
    refine ⟨h.saving, h.running, fun f hf ho => ?_, fun key entry he => ?_,
      fun _ _ _ => rfl, fun l hl hu => ?_, h.honoured⟩
    · have hs := h.isSome hf ho
      rw [hemp] at hs
      cases hs
    · rw [hemp] at he
      cases he
    · have h0 := (h.loads l hl hu).1
      rw [hc] at h0
      cases h0

theorem Flushed.load (key : Key) : Flushed (step s (.load key)) := by
  cases he : s.saveDNSCache key with
  | none =>
    simp only [step, he]
    refine { h with loads := fun l hl hu => ?_ }
    rcases mem_append.mp hl with ho | hn
    · exact h.loads l ho hu
    · rw [mem_singleton.mp hn] at hu ⊢
      exact ⟨of_decide_eq_true hu, he⟩
  | some entry =>
    simp only [step, he]
    refine { h with honoured := fun l hl _ => ?_ }
    rcases mem_append.mp hl with ho | hn
    · exact h.honoured l ho ‹_›
    · rw [mem_singleton.mp hn]
      exact (h.pending key entry he).symm

theorem Flushed.loadView (i : ℕ) : Flushed (step s (.loadView i)) := by
  cases hl : s.loads[i]? with
  | none => simpa only [step, hl] using h
  | some l =>
    simp only [step, hl]
    refine ⟨h.saving, h.running, h.flushes, h.pending, h.written, fun l' hl' => ?_,
      fun r hr hu => ?_⟩
    · exact h.loads l' ((mem_resume hl').resolve_right nofun)
    · rcases mem_append.mp hr with ho | hnew
      · exact h.honoured r ho hu
      · rw [mem_singleton.mp hnew] at hu ⊢
        obtain ⟨hc, hn⟩ := h.loads l (mem_of_getElem? hl) hu
        exact h.written hc l.key hn

theorem Flushed.step {e : Event Key Message} (hc : Unorphaned s e) : Flushed (step s e) := by
  cases e with
  | save key rawMessage => exact h.saveAsync key rawMessage
  | flush i =>
    cases hf : s.flushes[i]? with
    | none => simpa only [CacheFile.step, hf] using h
    | some f =>
      simp only [CacheFile.step, hf]
      exact h.flush hf hc
  | clear => exact h.clear
  | clearDatabase => exact h.clearDatabase hc
  | load key => exact h.load key
  | loadView i => exact h.loadView i

end

/-! ### Runs -/

/-- In every run in which orphaned flushes have no effect and a clear finds nothing pending, every
load that no save and no clear has overlapped returns the last save since the last clear. -/
theorem run_honoured (database : Key → Option Message) (events : ℕ → Event Key Message)
    (hcond : ∀ n, Unorphaned (run step (State.initial database) events n) (events n)) (n : ℕ) :
    Honoured (run step (State.initial database) events n) := by
  suffices hfl : Flushed (run step (State.initial database) events n) from hfl.honoured
  induction n with
  | zero => exact Flushed.initial database
  | succ n ih => exact ih.step (hcond n)

instance [Fintype Key] (s : State Key Message) (e : Event Key Message)
    [∀ key, Decidable (s.saveDNSCache key = none)] : Decidable (Unorphaned s e) := by
  unfold Unorphaned
  repeat' split
  all_goals infer_instance

instance [DecidableEq Message] (s : State Key Message) : Decidable (Honoured s) :=
  inferInstanceAs (Decidable (∀ l ∈ s.loaded, l.undisturbed = true → l.result = l.last))

/-- A message is replaced while it is flushed, loaded from the database, and cleared. -/
def replaceAndClear : List (Event Bool ℕ) :=
  [.save true 1, .flush 0, .flush 0, .save true 2, .flush 0, .flush 0, .flush 0, .flush 0,
    .load true, .loadView 0, .clear, .clearDatabase, .load true, .loadView 0]

theorem run_honoured_example :
    Honoured (run step (State.initial fun _ => none)
      (fun n => replaceAndClear.getD n (.load false)) 14) ∧
    (run step (State.initial fun _ => none)
      (fun n => replaceAndClear.getD n (.load false)) 14).loaded =
      [⟨true, true, some 2, some 2⟩, ⟨true, true, none, none⟩] := by
  refine ⟨run_honoured _ _ ?_ 14, by decide +kernel⟩
  exact forall_getD _ _ (by decide +kernel) fun _ => trivial

/-- A flush has read its message when the cache is cleared, and writes it afterwards. -/
def flushAcrossClear : List (Event Bool ℕ) :=
  [.save true 1, .flush 0, .clear, .clearDatabase, .flush 0, .flush 0, .load true, .loadView 0]

/-- A flush from before a clear takes the message saved after it for its own, and removes it from
the table with nothing written. -/
def flushRemovesLater : List (Event Bool ℕ) :=
  [.save true 1, .flush 0, .flush 0, .clear, .clearDatabase, .save true 2, .flush 0, .load true,
    .loadView 0]

/-- The message that was cleared is served again, or the message saved after the clear is not. -/
theorem not_honoured :
    (¬ Honoured (run step (State.initial fun _ => none)
        (fun n => flushAcrossClear.getD n (.load false)) 8) ∧
      (run step (State.initial fun _ => none)
        (fun n => flushAcrossClear.getD n (.load false)) 8).loaded =
        [⟨true, true, some 1, none⟩]) ∧
    (¬ Honoured (run step (State.initial fun _ => none)
        (fun n => flushRemovesLater.getD n (.load false)) 9) ∧
      (run step (State.initial fun _ => none)
        (fun n => flushRemovesLater.getD n (.load false)) 9).loaded =
        [⟨true, true, none, some 2⟩]) := by
  decide +kernel

end SingBox.CacheFile
