import SingBox.Realm.Server

/-!
# Connect attempts of a session

A connect request registers its response channel under a nonce that the client has chosen, and waits
for a response, its timeout, its cancellation or the close of the session. At its end it takes out
of the table whatever is registered under the nonce. A response has freed the nonce before, so that
this may be the channel of another attempt.

Sections under the lock of the server are steps. Every attempt makes one channel, which therefore
goes by the name of the attempt.
-/

namespace SingBox.Realm

open Foundation Function List

/-- Where `handleConnect` is. -/
inductive Attempt (Nonce : Type)
  | new
  | waiting (nonce : Nonce)
  /-- The deferred `cancelPending` is next. -/
  | ended (nonce : Nonce)
  | returned
deriving DecidableEq

/-- The nonce that the attempt has registered. -/
def Attempt.nonce? {Nonce : Type} : Attempt Nonce → Option Nonce
  | .waiting nonce | .ended nonce => some nonce
  | _ => none

/-- A session with its attempts `ι`, and the payloads in their channels. -/
structure Connects (ι Nonce Payload : Type) where
  closed : Bool := false
  pending : List (Nonce × ι) := []
  received : ι → Option Payload := fun _ => none
  attempts : ι → Attempt Nonce := fun _ => .new

inductive ConnectEvent (ι Nonce Payload : Type)
  | connect (i : ι) (nonce : Nonce)
  /-- The attempt has a payload, is over its time or cancelled, or sees that the session is closed;
  or its event did not fit. -/
  | stop (i : ι)
  | cancel (i : ι)
  | respond (nonce : Nonce) (payload : Payload)
  | close

namespace Connects

variable {ι Nonce Payload : Type} [DecidableEq ι] [DecidableEq Nonce]

def registerPending (s : Connects ι Nonce Payload) (i : ι) (nonce : Nonce) :
    Connects ι Nonce Payload :=
  if s.closed ∨ s.pending.length ≥ maxPendingAttempts ∨ nonce ∈ s.pending.map Prod.fst then
    { s with attempts := update s.attempts i .returned }
  else
    { s with
      pending := s.pending ++ [(nonce, i)]
      attempts := update s.attempts i (.waiting nonce) }

/-- A channel that holds a payload does not take another one. -/
def deliverPending (s : Connects ι Nonce Payload) (nonce : Nonce) (payload : Payload) :
    Connects ι Nonce Payload :=
  match s.pending.find? (·.1 = nonce) with
  | none => s
  | some (_, i) =>
    if s.closed then s
    else
      { s with
        pending := s.pending.filter (·.1 ≠ nonce)
        received := update s.received i (s.received i <|> some payload) }

def step (s : Connects ι Nonce Payload) : ConnectEvent ι Nonce Payload → Connects ι Nonce Payload
  | .connect i nonce => if s.attempts i = .new then s.registerPending i nonce else s
  | .stop i =>
    match s.attempts i with
    | .waiting nonce => { s with attempts := update s.attempts i (.ended nonce) }
    | _ => s
  | .cancel i =>
    match s.attempts i with
    | .ended nonce =>
      { s with
        pending := s.pending.filter (·.1 ≠ nonce)
        attempts := update s.attempts i .returned }
    | _ => s
  | .respond nonce payload => s.deliverPending nonce payload
  | .close => { s with closed := true, pending := [] }

/-- The attempt may leave the table: by its own delivery or cancellation, or with the session. -/
def MayLeave (p : Nonce × ι) : ConnectEvent ι Nonce Payload → Prop
  | .respond nonce _ => nonce = p.1
  | .cancel i => i = p.2
  | .close => True
  | _ => False

/-- An accepted response reaches the attempt that is pending under its nonce, and no other. -/
def Delivers (s : Connects ι Nonce Payload) : ConnectEvent ι Nonce Payload → Prop
  | .respond nonce payload => s.closed = false → ∀ i, (nonce, i) ∈ s.pending →
      (s.attempts i).nonce? = some nonce ∧
        (s.deliverPending nonce payload).received = update s.received i (some payload)
  | _ => True

/-- The attempts do not disturb each other in the step. -/
def Isolated (s : Connects ι Nonce Payload) (e : ConnectEvent ι Nonce Payload) : Prop :=
  s.pending.length ≤ maxPendingAttempts ∧ s.Delivers e ∧
    ∀ p ∈ s.pending, p ∉ (s.step e).pending → MayLeave p e

/-- An attempt that cancels finds no other attempt under its nonce. -/
def CancelsOwn (s : Connects ι Nonce Payload) : ConnectEvent ι Nonce Payload → Prop
  | .cancel i => ∀ nonce, s.attempts i = .ended nonce → ∀ p ∈ s.pending, p.1 = nonce → p.2 = i
  | _ => True

/-- The attempts of the table have registered their nonces, which are different and within the
limit, and have received nothing. -/
structure Sound (s : Connects ι Nonce Payload) : Prop where
  limit : s.pending.length ≤ maxPendingAttempts
  nodup : (s.pending.map Prod.fst).Nodup
  nonce : ∀ p ∈ s.pending, (s.attempts p.2).nonce? = some p.1
  empty : ∀ p ∈ s.pending, s.received p.2 = none
  new : ∀ i, s.attempts i = .new → s.received i = none

variable {s : Connects ι Nonce Payload}

namespace Sound

variable (h : s.Sound) {nonce : Nonce} {i : ι}

include h

omit [DecidableEq Nonce] in
/-- An attempt goes on, with its nonce or without an entry. -/
theorem setAttempt {a : Attempt Nonce} (ha : a ≠ .new)
    (hi : a.nonce? = (s.attempts i).nonce? ∨ ∀ p ∈ s.pending, p.2 ≠ i) :
    Sound { s with attempts := update s.attempts i a } := by
  refine ⟨h.limit, h.nodup, fun p hp => ?_, h.empty, fun j hj => ?_⟩ <;>
    simp only [update_apply] at *
  · split_ifs with heq
    · rcases hi with hi | hi
      · rw [hi, ← heq]
        exact h.nonce p hp
      · exact absurd heq (hi p hp)
    · exact h.nonce p hp
  · split_ifs at hj
    · exact absurd hj ha
    · exact h.new j hj

omit [DecidableEq ι] [DecidableEq Nonce] in
theorem push (hl : s.pending.length < maxPendingAttempts) (hm : nonce ∉ s.pending.map Prod.fst)
    (hi : (s.attempts i).nonce? = some nonce) (hr : s.received i = none) :
    Sound { s with pending := s.pending ++ [(nonce, i)] } := by
  refine ⟨?_, ?_, fun p hp => ?_, fun p hp => ?_, h.new⟩
  · rw [length_append]
    exact hl
  · rw [map_append]
    exact h.nodup.append (nodup_singleton _) (disjoint_singleton.mpr hm)
  all_goals rcases mem_append.mp hp with hp | hp
  · exact h.nonce p hp
  · rwa [mem_singleton.mp hp]
  · exact h.empty p hp
  · rwa [mem_singleton.mp hp]

omit [DecidableEq ι] in
theorem filter (nonce : Nonce) : Sound { s with pending := s.pending.filter (·.1 ≠ nonce) } :=
  ⟨(length_filter_le _ _).trans h.limit, h.nodup.sublist (filter_sublist.map _),
    fun p hp => h.nonce p (mem_filter.mp hp).1, fun p hp => h.empty p (mem_filter.mp hp).1, h.new⟩

omit [DecidableEq ι] in
/-- An attempt has no entry but that of its nonce. -/
theorem ne_of_mem_filter (hi : (s.attempts i).nonce? = some nonce) :
    ∀ p ∈ s.pending.filter (·.1 ≠ nonce), p.2 ≠ i := by
  rintro p hp rfl
  obtain ⟨hm, hp⟩ := mem_filter.mp hp
  have heq : p.1 = nonce := Option.some.inj ((h.nonce p hm).symm.trans hi)
  simp [heq] at hp

omit [DecidableEq Nonce] in
theorem receive (hi : ∀ p ∈ s.pending, p.2 ≠ i) (hn : s.attempts i ≠ .new) (x : Option Payload) :
    Sound { s with received := update s.received i x } := by
  refine ⟨h.limit, h.nodup, h.nonce, fun p hp => ?_, fun j hj => ?_⟩
  · exact (update_of_ne (hi p hp) _ _).trans (h.empty p hp)
  · have hji : j ≠ i := by
      rintro rfl
      exact hn hj
    exact (update_of_ne hji _ _).trans (h.new j hj)

omit [DecidableEq ι] in
theorem find?_eq (hm : (nonce, i) ∈ s.pending) :
    s.pending.find? (·.1 = nonce) = some (nonce, i) := by
  cases hf : s.pending.find? (·.1 = nonce) with
  | none => exact absurd (find?_eq_none.mp hf _ hm) (by simp)
  | some p =>
    have hfst : p.1 = nonce := by simpa using find?_some hf
    rw [inj_on_of_nodup_map h.nodup (mem_of_find?_eq_some hf) hm hfst]

theorem registerPending (hi : s.attempts i = .new) : (s.registerPending i nonce).Sound := by
  have hne : ∀ p ∈ s.pending, p.2 ≠ i := by
    rintro p hp rfl
    simpa [hi, Attempt.nonce?] using h.nonce p hp
  rw [Connects.registerPending]
  split_ifs with hf
  · exact h.setAttempt nofun (.inr hne)
  · obtain ⟨-, hl, hm⟩ : _ ∧ _ ∧ _ := by simpa only [not_or] using hf
    refine (h.setAttempt (a := .waiting nonce) nofun (.inr hne)).push (Nat.lt_of_not_le hl) hm
      ?_ (h.new i hi)
    simp only [update_self, Attempt.nonce?]

theorem deliverPending (payload : Payload) : (s.deliverPending nonce payload).Sound := by
  rw [Connects.deliverPending]
  split
  · exact h
  · next m i hf =>
    obtain rfl : nonce = m := by simpa [eq_comm] using find?_some hf
    have hi : (s.attempts i).nonce? = some nonce := h.nonce _ (mem_of_find?_eq_some hf)
    have hn : s.attempts i ≠ .new := by
      intro hn
      rw [hn] at hi
      cases hi
    split_ifs
    · exact h
    · exact (h.filter nonce).receive (h.ne_of_mem_filter hi) hn _

theorem step (e : ConnectEvent ι Nonce Payload) : (s.step e).Sound := by
  cases e with
  | connect i nonce =>
    rw [Connects.step]
    split_ifs with hi
    · exact h.registerPending hi
    · exact h
  | stop i =>
    rw [Connects.step]
    split
    · next nonce hi => exact h.setAttempt nofun (.inl (by rw [hi]; rfl))
    · exact h
  | cancel i =>
    rw [Connects.step]
    split
    · next nonce hi =>
      exact (h.filter nonce).setAttempt nofun (.inr (h.ne_of_mem_filter (by rw [hi]; rfl)))
    · exact h
  | respond nonce payload => exact h.deliverPending payload
  | close => exact ⟨Nat.zero_le _, nodup_nil, nofun, nofun, h.new⟩

theorem delivers (e : ConnectEvent ι Nonce Payload) : s.Delivers e := by
  cases e with
  | respond nonce payload =>
    intro ho i hm
    refine ⟨h.nonce _ hm, ?_⟩
    simp [Connects.deliverPending, ho, h.find?_eq hm, h.empty _ hm]
  | connect | stop | cancel | close => trivial

end Sound

/-- In a step that is no cancellation, or one that finds no other attempt under its nonce, attempts
leave the table only in their own ways. -/
theorem mayLeave (p : Nonce × ι) (hp : p ∈ s.pending) {e : ConnectEvent ι Nonce Payload}
    (he : s.CancelsOwn e) (hg : p ∉ (s.step e).pending) : MayLeave p e := by
  by_contra hs
  refine hg ?_
  cases e with
  | connect i nonce =>
    simp only [step, registerPending]
    split_ifs
    · exact hp
    · exact mem_append_left _ hp
    · exact hp
  | stop i =>
    simp only [step]
    split <;> exact hp
  | cancel i =>
    simp only [step]
    split
    · next nonce hi =>
      exact mem_filter.mpr ⟨hp, by simpa using fun heq => hs (he nonce hi p hp heq).symm⟩
    · exact hp
  | respond nonce payload =>
    simp only [step, deliverPending]
    split
    · exact hp
    · split_ifs
      · exact hp
      · exact mem_filter.mpr ⟨hp, by simpa using fun heq => hs heq.symm⟩
  | close => exact absurd trivial hs

/-- The first attempt has its response, and the nonce is used again before it cancels. -/
def reusedNonce : List (ConnectEvent ℕ ℕ ℕ) :=
  [.connect 0 7, .respond 7 1, .stop 0, .connect 1 7, .cancel 0]

end Connects

end SingBox.Realm
