import Mathlib

/-!
# Parallel dials

`DialParallelNetwork` and `dialParallelInterface` let goroutines race: the primary ones start at
once, the fallback ones when a timer fires, which a failure of a primary one sets to zero. The first
connection that is received is returned. The other goroutines find the channel `returned` closed and
close theirs.

The outcome of every dial is an input, so that a cancellation is one of the ways in which dials
fail: the loops do not look at their context.
-/

namespace SingBox.Dialer

open Function

/-- A goroutine of a race. It makes its dials in turn until one of them gives a connection. -/
structure Racer (κ : Type) where
  primary : Bool
  /-- The candidates that each dial covers. -/
  dials : List (List κ)

/-- A call of one of the two functions, with its addresses or interfaces `κ`. -/
inductive Call (κ : Type)
  | network (is4 is6 : κ → Bool) (isParallel preferIPv6 : Bool) (addresses : List κ)
  | interfaces (primaries fallbacks : List κ)

/-- The dials of `DialSerialNetwork`; a dialer that is itself parallel gets all addresses. -/
def dialSerialNetwork {κ : Type} (isParallel : Bool) (addresses : List κ) : List (List κ) :=
  if isParallel then [addresses] else addresses.map ([·])

namespace Call

variable {κ : Type}

/-- The two groups of candidates. -/
def groups : Call κ → List κ × List κ
  | .network is4 is6 _ preferIPv6 addresses =>
    let addresses4 := addresses.filter is4
    let addresses6 := addresses.filter is6
    if addresses4.isEmpty || addresses6.isEmpty then (addresses, [])
    else if preferIPv6 then (addresses6, addresses4)
    else (addresses4, addresses6)
  | .interfaces primaries fallbacks => (primaries, fallbacks)

def racers (call : Call κ) : List (Racer κ) :=
  match call with
  | .network _ _ isParallel _ _ =>
    ⟨true, dialSerialNetwork isParallel call.groups.1⟩ ::
      -- The addresses of a single family are dialled in turn, without a race.
      if call.groups.2.isEmpty then [] else [⟨false, dialSerialNetwork isParallel call.groups.2⟩]
  | .interfaces primaries fallbacks =>
    primaries.map (⟨true, [[·]]⟩) ++ fallbacks.map (⟨false, [[·]]⟩)

end Call

/-- Where a goroutine is: its result is a connection or an error. -/
inductive Phase (κ : Type)
  | waiting
  | dialing (rest : List (List κ))
  | offering (ok : Bool)
  | sent (ok : Bool)
  | dropped

/-- The goroutine has returned. -/
def Phase.ended {κ : Type} : Phase κ → Bool
  | .sent _ | .dropped => true
  | _ => false

/-- A bound on the steps that a goroutine with `n` dials has before it. -/
def Phase.work {κ : Type} (n : ℕ) : Phase κ → ℕ
  | .waiting => n + 3
  | .dialing rest => rest.length + 2
  | .offering _ => 1
  | .sent _ | .dropped => 0

/-- A goroutine with the dials that have failed, the connections made and those it has closed. -/
structure Runner (κ : Type) where
  phase : Phase κ
  failed : List (List κ) := []
  made : ℕ := 0
  closed : ℕ := 0

/-- A race of the goroutines `ι`. -/
structure Race (ι κ : Type) where
  runners : ι → Runner κ
  /-- The timer runs, or has fired and was not received. `Stop` succeeds exactly then, and `Reset`
  leaves it so. -/
  timer : Bool
  /-- How often the fallback group was started. -/
  starts : ℕ := 0
  errors : List ι := []
  /-- What the function has returned: the connection of a goroutine, or an error. -/
  returned : Option (Option ι)

inductive RaceEvent (ι : Type)
  | timer
  /-- A dial of the goroutine ends, with a connection or not. -/
  | dial (r : ι) (ok : Bool)
  | send (r : ι)
  | drop (r : ι)

namespace Race

variable {ι κ : Type} [Fintype ι] [DecidableEq ι] (plan : ι → Racer κ)

/-- A single goroutine stands for the dial of a call without a race. -/
def start : Race ι κ where
  runners r :=
    if (plan r).primary ∨ Fintype.card ι = 1 then { phase := .dialing (plan r).dials }
    else { phase := .waiting }
  timer := decide (∃ r, ¬((plan r).primary ∨ Fintype.card ι = 1))
  returned := if Fintype.card ι = 0 then some none else none

def dial (ok : Bool) (x : Runner κ) : Runner κ :=
  match x.phase with
  | .dialing [] => { x with phase := .offering false }
  | .dialing (d :: rest) =>
    if ok then { x with phase := .offering true, made := x.made + 1 }
    else { x with phase := .dialing rest, failed := x.failed ++ [d] }
  | _ => x

variable (s : Race ι κ) (r : ι)

def set (x : Runner κ) : Race ι κ := { s with runners := update s.runners r x }

/-- The result of the goroutine is received. `DialParallelNetwork` has a flag for each of its two
goroutines in place of the list. -/
def receive : Bool → Race ι κ
  | true => { s with returned := some (some r) }
  | false =>
    let errors := s.errors ++ [r]
    { s with
      errors := errors
      returned := if errors.length = Fintype.card ι then some none else none }

def step (s : Race ι κ) : RaceEvent ι → Race ι κ
  | .timer =>
    if s.timer ∧ s.returned = none then
      { s with
        timer := false
        starts := s.starts + 1
        runners := fun r => if (plan r).primary then s.runners r
          else { phase := .dialing (plan r).dials } }
    else s
  | .dial r ok => s.set r (dial ok (s.runners r))
  | .send r =>
    match (s.runners r).phase, s.returned with
    | .offering ok, none => (s.set r { s.runners r with phase := .sent ok }).receive r ok
    | _, _ => s
  | .drop r =>
    match (s.runners r).phase, s.returned with
    | .offering ok, some _ =>
      let x := s.runners r
      s.set r { x with phase := .dropped, closed := if ok then x.closed + 1 else x.closed }
    | _, _ => s

end Race

/-- What holds of a goroutine by itself. -/
def Runner.Ok {κ : Type} (dials : List (List κ)) (x : Runner κ) : Prop :=
  match x.phase with
  | .waiting => x.failed = [] ∧ x.made = 0 ∧ x.closed = 0
  | .dialing rest => x.failed ++ rest = dials ∧ x.made = 0 ∧ x.closed = 0
  | .offering true | .sent true => x.made = 1 ∧ x.closed = 0
  | .offering false | .sent false => x.failed = dials ∧ x.made = 0 ∧ x.closed = 0
  | .dropped => x.made ≤ 1 ∧ x.closed = x.made

namespace Race

variable {ι κ : Type} (plan : ι → Racer κ)

/-- The goroutine agrees with what the function has received, and the fallback group waits for the
timer. -/
structure Fits (errors : List ι) (returned : Option (Option ι)) (timer : Bool) (r : ι)
    (x : Runner κ) : Prop where
  ok : x.Ok (plan r).dials
  failed : r ∈ errors ↔ x.phase = .sent false
  won : returned = some (some r) ↔ x.phase = .sent true
  dropped : x.phase = .dropped → returned ≠ none
  waiting : x.phase = .waiting ↔ timer ∧ ¬(plan r).primary

structure Inv [Fintype ι] (s : Race ι κ) : Prop where
  fits : ∀ r, Fits plan s.errors s.returned s.timer r (s.runners r)
  nodup : s.errors.Nodup
  running : s.returned = none → s.errors.length < Fintype.card ι
  lost : s.returned = some none → s.errors.length = Fintype.card ι
  starts : s.starts + s.timer.toNat ≤ 1

variable {plan} {s : Race ι κ} {r : ι} {x y : Runner κ}

open List Race

theorem inv_start [Fintype ι] : Inv plan (start plan) := by
  have hr : (start plan).returned = none ∨ (start plan).returned = some none := by
    simp only [start]
    split <;> simp
  refine ⟨fun r => ?_, nodup_nil, fun h => ?_, fun h => ?_, ?_⟩
  · by_cases hp : (plan r).primary ∨ Fintype.card ι = 1
    · have hx : (start plan).runners r = { phase := .dialing (plan r).dials } := if_pos hp
      rw [hx]
      refine ⟨⟨rfl, rfl, rfl⟩, by simp [start], by grind, nofun, ?_⟩
      simp only [start, reduceCtorEq, false_iff, decide_eq_true_eq]
      rintro ⟨⟨r', h'⟩, hr⟩
      exact h' (.inr (hp.resolve_left hr))
    · have hx : (start plan).runners r = { phase := .waiting } := if_neg hp
      rw [hx]
      refine ⟨⟨rfl, rfl, rfl⟩, by simp [start], by grind, nofun, ?_⟩
      exact iff_of_true rfl ⟨decide_eq_true ⟨r, hp⟩, fun h => hp (.inl h)⟩
  · simp only [start, ite_eq_right_iff, reduceCtorEq, imp_false] at h
    exact Nat.pos_of_ne_zero h
  · simp only [start, ite_eq_left_iff, reduceCtorEq, imp_false, not_not] at h
    exact h.symm
  · exact (Nat.zero_add _).trans_le (Bool.toNat_le _)

section Fits

variable {errors : List ι} {returned : Option (Option ι)} {timer : Bool}

/-- A goroutine that goes on with its dials or offers their result. -/
theorem Fits.move (h : Fits plan errors returned timer r x) {rest : List (List κ)}
    (hx : x.phase = .dialing rest) (hok : y.Ok (plan r).dials)
    (hy : (∃ l, y.phase = .dialing l) ∨ ∃ ok, y.phase = .offering ok) :
    Fits plan errors returned timer r y := by
  obtain ⟨-, hf, hw, -, ht⟩ := h
  rw [hx] at hf hw ht
  rcases hy with ⟨l, hy⟩ | ⟨ok, hy⟩
  all_goals
    exact ⟨hok, by simpa [hy] using hf, by simpa [hy] using hw, by simp [hy],
      by simpa [hy] using ht⟩

theorem Fits.dial (h : Fits plan errors returned timer r x) (ok : Bool) :
    Fits plan errors returned timer r (dial ok x) := by
  unfold Race.dial
  split
  · next hp =>
    have hok := h.ok
    rw [Runner.Ok, hp] at hok
    exact h.move hp ⟨hok.1 ▸ (append_nil _).symm, hok.2⟩ (.inr ⟨_, rfl⟩)
  · next d rest hp =>
    have hok := h.ok
    rw [Runner.Ok, hp] at hok
    split
    · exact h.move hp ⟨congrArg (· + 1) hok.2.1, hok.2.2⟩ (.inr ⟨_, rfl⟩)
    · exact h.move hp ⟨(append_assoc ..).trans hok.1, hok.2⟩ (.inl ⟨_, rfl⟩)
  · exact h

end Fits

variable [Fintype ι] [DecidableEq ι]

theorem Inv.set (h : Inv plan s) (hx : Fits plan s.errors s.returned s.timer r x) :
    Inv plan (s.set r x) := by
  refine ⟨fun j => ?_, h.nodup, h.running, h.lost, h.starts⟩
  by_cases hj : j = r
  · subst hj
    simpa only [set, update_self] using hx
  · simpa only [Race.set, update_of_ne hj] using h.fits j

theorem Inv.receive (h : Inv plan s) {ok : Bool} (hp : (s.runners r).phase = .offering ok)
    (hr : s.returned = none) :
    Inv plan ((s.set r { s.runners r with phase := .sent ok }).receive r ok) := by
  have hf := h.fits r
  have hok := hf.ok
  rw [Runner.Ok, hp] at hok
  cases ok with
  | true =>
    refine ⟨fun j => ?_, h.nodup, nofun, nofun, h.starts⟩
    by_cases hj : j = r
    · subst hj
      simp only [Race.receive, Race.set, update_self]
      exact ⟨hok, by grind [hf.failed], by simp, nofun, by grind [hf.waiting]⟩
    · simp only [Race.receive, Race.set, update_of_ne hj]
      exact { h.fits j with won := by grind [(h.fits j).won], dropped := fun _ => nofun }
  | false =>
    have hlt := h.running hr
    refine ⟨fun j => ?_, ?_, ?_, ?_, h.starts⟩
    · by_cases hj : j = r
      · subst hj
        simp only [Race.receive, Race.set, update_self]
        exact ⟨hok, by simp, by grind, nofun, by grind [hf.waiting]⟩
      · simp only [Race.receive, Race.set, update_of_ne hj]
        obtain ⟨hj, hfa, hwon, hd, hw⟩ := h.fits j
        exact ⟨hj, by grind, by grind, by grind, hw⟩
    · exact h.nodup.append (List.nodup_singleton r) (by grind [hf.failed, List.disjoint_singleton])
    · grind [Race.receive, Race.set]
    · grind [Race.receive, Race.set]

theorem Inv.step (h : Inv plan s) (e : RaceEvent ι) : Inv plan (step plan s e) := by
  cases e with
  | timer =>
    simp only [Race.step]
    split
    · next ht =>
      refine ⟨fun r => ?_, h.nodup, h.running, h.lost, by grind [h.starts]⟩
      obtain ⟨hok, hf, hw, hd, hwa⟩ := h.fits r
      dsimp only
      split
      · exact ⟨hok, hf, hw, hd, by grind⟩
      · exact ⟨⟨rfl, rfl, rfl⟩, by grind, by grind, nofun, by simp⟩
    · exact h
  | dial r ok => exact h.set ((h.fits r).dial ok)
  | send r =>
    simp only [Race.step]
    split
    · next ok hp hr => exact h.receive hp hr
    · exact h
  | drop r =>
    simp only [Race.step]
    split
    · next ok p hp hr =>
      obtain ⟨hok, hf, hw, hd, hwa⟩ := h.fits r
      refine h.set ⟨?_, by grind, by grind, by grind, by grind⟩
      simp only [Runner.Ok, hp] at hok ⊢
      cases ok <;> grind
    · exact h

variable (plan) in
/-- What the caller and the dials can rely on. -/
structure Sound (s : Race ι κ) : Prop where
  returned : ∀ r, s.returned = some (some r) → (s.runners r).made = 1 ∧ (s.runners r).closed = 0
  /-- A goroutine that is over has closed its connection, unless that is the one returned. -/
  others : ∀ r, (s.runners r).phase.ended → s.returned ≠ some (some r) →
    (s.runners r).made ≤ 1 ∧ (s.runners r).closed = (s.runners r).made
  starts : s.starts ≤ 1
  failed : s.returned = some none → ∀ r, (s.runners r).failed = (plan r).dials
  /-- The function waits for the timer or for a goroutine. -/
  progress : s.returned = none →
    s.timer ∨ ∃ r, (s.runners r).phase ≠ .waiting ∧ ¬(s.runners r).phase.ended

theorem Inv.mem_errors (h : Inv plan s) (hl : s.errors.length = Fintype.card ι) (r : ι) :
    r ∈ s.errors := by
  have hc : s.errors.toFinset.card = Fintype.card ι :=
    (toFinset_card_of_nodup h.nodup).trans hl
  exact mem_toFinset.mp (Finset.eq_univ_of_card _ hc ▸ Finset.mem_univ r)

theorem Inv.sound (h : Inv plan s) : Sound plan s where
  returned r hr := by
    have hok := (h.fits r).ok
    rwa [Runner.Ok, (h.fits r).won.mp hr] at hok
  others r he hr := by
    obtain ⟨hok, -, hw, -, -⟩ := h.fits r
    have hne := mt hw.mpr hr
    cases hp : (s.runners r).phase with
    | sent ok =>
      cases ok with
      | true => exact absurd hp hne
      | false =>
        rw [Runner.Ok, hp] at hok
        grind
    | dropped => rwa [Runner.Ok, hp] at hok
    | _ => simp [hp, Phase.ended] at he
  starts := (Nat.le_add_right _ _).trans h.starts
  failed hr r := by
    have hok := (h.fits r).ok
    rw [Runner.Ok, (h.fits r).failed.mp (h.mem_errors (h.lost hr) r)] at hok
    exact hok.1
  progress hr := by
    -- If every goroutine were over, all of them would have reported an error.
    by_contra hn
    obtain ⟨ht, ha⟩ := not_or.mp hn
    have hm : ∀ r, r ∈ s.errors := by
      intro r
      obtain ⟨-, hf, hw, hd, hwa⟩ := h.fits r
      cases hp : (s.runners r).phase with
      | sent ok => cases ok <;> grind
      | waiting => exact absurd (hwa.mp hp).1 ht
      | dropped => exact absurd hr (hd hp)
      | _ => exact absurd ⟨r, by simp [hp, Phase.ended]⟩ ha
    have hle := Finset.card_le_card fun r (_ : r ∈ Finset.univ) => mem_toFinset.mpr (hm r)
    exact absurd (hle.trans s.errors.toFinset_card_le) (Nat.not_le.mpr (h.running hr))

/-! ### Progress -/

variable (plan) in
/-- A bound on the events that still change the state. -/
def work (s : Race ι κ) : ℕ :=
  s.timer.toNat + ∑ r, (s.runners r).phase.work (plan r).dials.length

variable (plan) in
/-- Nothing can happen any more. -/
def Stuck (s : Race ι κ) : Prop := ∀ e, step plan s e = s

theorem work_set_lt (h : x.phase.work (plan r).dials.length <
    (s.runners r).phase.work (plan r).dials.length) : (s.set r x).work plan < s.work plan := by
  refine Nat.add_lt_add_left (Finset.sum_lt_sum (fun j _ => ?_) ⟨r, Finset.mem_univ r, ?_⟩) _
  · by_cases hj : j = r
    · subst hj
      simpa only [set, update_self] using le_of_lt h
    · simp only [set, update_of_ne hj, le_refl]
  · simpa only [set, update_self] using h

/-- The events before the end are finitely many: each one that changes the state leaves less to
do. -/
theorem Inv.step_eq_or_work_lt (h : Inv plan s) (e : RaceEvent ι) :
    Race.step plan s e = s ∨ (Race.step plan s e).work plan < s.work plan := by
  cases e with
  | timer =>
    simp only [Race.step]
    split
    · next ht =>
      -- The goroutines that the timer starts were waiting.
      refine .inr (Nat.add_lt_add_of_lt_of_le ?_ (Finset.sum_le_sum fun r _ => ?_))
      · simp [ht.1]
      · dsimp only
        split
        · exact le_refl _
        · next hp =>
          rw [((h.fits r).waiting).mpr ⟨ht.1, hp⟩]
          exact Nat.le_succ _
    · exact .inl rfl
  | dial r ok =>
    simp only [Race.step]
    unfold dial
    split
    · next hp => exact .inr (work_set_lt (by simp [hp, Phase.work]))
    · next d rest hp =>
      refine .inr (work_set_lt ?_)
      cases ok <;> simp [hp, Phase.work]
    · exact .inl (by rw [Race.set, update_eq_self])
  | send r =>
    simp only [Race.step]
    split
    · next ok hp _ =>
      have hlt : (s.set r { s.runners r with phase := .sent ok }).work plan < s.work plan :=
        work_set_lt (by simp [hp, Phase.work])
      cases ok <;> exact .inr hlt
    · exact .inl rfl
  | drop r =>
    simp only [Race.step]
    split
    · next ok _ hp _ => exact .inr (work_set_lt (by simp [hp, Phase.work]))
    · exact .inl rfl

omit [Fintype ι] in
theorem phase_set (s : Race ι κ) (r : ι) (x : Runner κ) :
    ((s.set r x).runners r).phase = x.phase := by
  simp only [set, update_self]

/-- Where nothing can happen any more, every goroutine that was started is over. -/
theorem Stuck.phase (h : s.Stuck plan) (r : ι) :
    (s.runners r).phase = .waiting ∨ (s.runners r).phase.ended = true := by
  cases hp : (s.runners r).phase with
  | waiting => exact .inl rfl
  | sent | dropped => exact .inr rfl
  | dialing rest =>
    -- The next dial could end.
    have hd := congrArg (fun s => (Race.runners s r).phase) (h (.dial r false))
    simp only [Race.step, phase_set, dial, hp] at hd
    cases rest with
    | nil => cases hd
    | cons d rest => exact absurd (Phase.dialing.inj hd) (List.ne_cons_self)
  | offering ok =>
    cases hr : s.returned with
    | none =>
      have hs := congrArg (fun s => (Race.runners s r).phase) (h (.send r))
      simp only [Race.step, hp, hr] at hs
      cases ok <;> simp only [receive, phase_set] at hs <;> cases hs
    | some result =>
      have hs := congrArg (fun s => (Race.runners s r).phase) (h (.drop r))
      simp only [Race.step, hp, hr, phase_set] at hs
      cases hs

/-- Where nothing can happen any more, the function has returned, and every connection but the one
that it has returned is closed. -/
theorem Inv.stuck (h : Inv plan s) (hstuck : s.Stuck plan) : s.returned ≠ none ∧ ∀ r,
    s.returned ≠ some (some r) →
      (s.runners r).made ≤ 1 ∧ (s.runners r).closed = (s.runners r).made := by
  refine ⟨fun hr => ?_, fun r hr => ?_⟩
  · rcases h.sound.progress hr with ht | ⟨r, hw, he⟩
    · have hf := congrArg Race.timer (hstuck .timer)
      simp [Race.step, ht, hr] at hf
    · rcases hstuck.phase r with hp | hp
      · exact hw hp
      · exact he hp
  · rcases hstuck.phase r with hp | hp
    · have hok := (h.fits r).ok
      rw [Runner.Ok, hp] at hok
      exact ⟨by omega, by omega⟩
    · exact h.sound.others r hp hr

end Race

theorem Call.exists_dial {κ : Type} (call : Call κ) {c : κ}
    (hc : c ∈ call.groups.1 ++ call.groups.2) : ∃ x ∈ call.racers, ∃ d ∈ x.dials, c ∈ d := by
  have hs : ∀ isParallel (l : List κ), c ∈ l → ∃ d ∈ dialSerialNetwork isParallel l, c ∈ d := by
    intro isParallel l hl
    cases isParallel with
    | true => exact ⟨l, by simp [dialSerialNetwork], hl⟩
    | false => exact ⟨[c], by simpa [dialSerialNetwork] using hl, by simp⟩
  cases call with
  | network is4 is6 isParallel preferIPv6 addresses =>
    rcases List.mem_append.mp hc with hc | hc
    · exact ⟨_, List.mem_cons_self, hs _ _ hc⟩
    · refine ⟨⟨false, _⟩, List.mem_cons_of_mem _ ?_, hs isParallel _ hc⟩
      rw [if_neg (by simpa using List.ne_nil_of_mem hc)]
      exact List.mem_singleton_self _
  | interfaces primaries fallbacks =>
    rcases List.mem_append.mp hc with hc | hc
    · exact ⟨_, List.mem_append_left _ (List.mem_map_of_mem hc), [c], by simp⟩
    · exact ⟨_, List.mem_append_right _ (List.mem_map_of_mem hc), [c], by simp⟩

end SingBox.Dialer
