import SingBox.DNS.Group.Transport

/-!
# Elections of a DNS server group

In fastest mode one query at a time fans out to all clean members. The election flag is not guarded
by the generation: the fan that has taken it releases it, also after a reset.
-/

namespace SingBox.DNS.Group

open Foundation Transport Query

/-! ### Holders of the flag -/

/-- The query is an election fan in flight: it has taken the election flag and not released it. -/
def Query.holds : Query → Bool
  | .fan f => f.election
  | .fanFailed f _ => f.election
  | .fanSucceeded f _ _ => f.election
  | .fanWon f _ => f.election
  | .fanElected f _ => f.election
  | .releasing => true
  | _ => false

theorem Fan.holds_resume (f : Fan) : f.resume.holds = f.election := by
  unfold Fan.resume
  split_ifs with hn he
  · exact he.symm
  · exact (Bool.eq_false_iff.mpr he).symm
  · rfl

theorem Fan.holds_afterSuccess (cfg : Config) (f : Fan) (tag : String) (alive : Bool) :
    (f.afterSuccess cfg tag alive).holds = f.election := by
  unfold Fan.afterSuccess
  split_ifs
  · exact f.holds_resume
  · cases cfg.mode with
    | stable => rfl
    | fastest => rfl
    | parallel => exact Fan.holds_resume _

/-- What happens to the election flag `e` and the query `q`: nothing, the query takes the flag, or
it releases it. -/
inductive Handover (e : Bool) (q : Query) : Bool → Query → Prop where
  | keep {q' : Query} (h : q'.holds = q.holds) : Handover e q e q'
  | take {q' : Query} {now : ℕ} (he : e = false) (h : q = .selecting now) (h' : q'.holds = true) :
      Handover e q true q'
  | release {q' : Query} (h : q.holds = true) (h' : q'.holds = false) : Handover e q false q'

section

variable (t : Transport) (tag : String)

include t tag

theorem Transport.noteError_election (gen now : ℕ) :
    (t.noteError tag gen now).election = t.election := by
  unfold noteError
  split_ifs <;> rfl

theorem Transport.noteSuccess_election (rtt gen : ℕ) :
    (t.noteSuccess tag rtt gen).election = t.election := by
  unfold noteSuccess
  split_ifs <;> rfl

theorem Transport.noteWin_election (gen now : ℕ) :
    (t.noteWin tag gen now).election = t.election := by
  unfold noteWin
  split_ifs <;> rfl

theorem Transport.setCurrent_election (gen : ℕ) : (t.setCurrent tag gen).election = t.election := by
  unfold setCurrent
  split_ifs <;> rfl

end

theorem Query.exec_selecting_handover (cfg : Config) (clock now : ℕ) (ch : Choice)
    (t : Transport) :
    Handover t.election (.selecting now) ((selecting now).exec cfg clock ch t).2.election
      ((selecting now).exec cfg clock ch t).1 := by
  simp only [exec]
  refine selectTarget_cases (P := fun r => Handover t.election (.selecting now)
    r.2.election (r.1.elim .done Selection.begin)) cfg t now ch.random ?_ ?_ ?_ ?_ ?_ ?_ ?_
  · exact .keep rfl
  · rintro u rfl
    exact .keep rfl
  · rintro u rfl
    exact .keep (Fan.holds_resume _)
  · rintro u rfl
    exact .keep rfl
  · rintro u v rfl rfl
    exact .keep rfl
  · rintro u v rfl rfl he
    exact .take he rfl (Fan.holds_resume _)
  · rintro u v rfl rfl
    exact .keep rfl

theorem Query.exec_handover (cfg : Config) (clock : ℕ) (ch : Choice) (q : Query)
    (t : Transport) :
    Handover t.election q (q.exec cfg clock ch t).2.election (q.exec cfg clock ch t).1 := by
  cases q with
  | idle => exact .keep rfl
  | selecting now => exact exec_selecting_handover cfg clock now ch t
  | setting target gen =>
    simp only [exec, setCurrent_election]
    exact .keep rfl
  | exchanging target gen survival =>
    simp only [exec]
    split_ifs <;> exact .keep rfl
  | succeeded target rtt gen =>
    simp only [exec, noteSuccess_election]
    exact .keep rfl
  | failed target gen survival =>
    simp only [exec, noteError_election]
    cases survival <;> exact .keep rfl
  | rescuing target gen => exact .keep rfl
  | rescuingAt target gen now => exact .keep (Fan.holds_resume _)
  | fan f =>
    simp only [exec]
    split_ifs
    · exact .keep rfl
    · exact .keep (Fan.holds_resume _)
    · exact .keep rfl
    · exact .keep rfl
  | fanFailed f tag =>
    simp only [exec, noteError_election]
    exact .keep f.holds_resume
  | fanSucceeded f tag rtt =>
    simp only [exec, noteSuccess_election]
    exact .keep (f.holds_afterSuccess cfg tag ch.alive)
  | fanWon f tag =>
    simp only [exec, noteWin_election]
    exact .keep rfl
  | fanElected f tag =>
    simp only [exec, setCurrent_election]
    exact .keep f.holds_resume
  | releasing => exact .release rfl rfl
  | done => exact .keep rfl

/-! ### The election invariant -/

/-- At most one election fan is in flight, and the flag is set exactly while one is. -/
structure State.Elects (s : State) : Prop where
  unique : ∀ q q', (s.queries q).holds = true → (s.queries q').holds = true → q = q'
  flag : s.transport.election = true ↔ ∃ q, (s.queries q).holds = true

theorem step_elects (cfg : Config) {s : State} (event : Event) (h : s.Elects) :
    (step cfg s event).Elects := by
  cases event with
  | tick d => exact ⟨h.unique, h.flag⟩
  | reset => exact ⟨h.unique, h.flag⟩
  | act q ch =>
    have hha := (s.queries q).exec_handover cfg s.clock ch s.transport
    simp only [step]
    generalize (s.queries q).exec cfg s.clock ch s.transport = r at hha
    obtain ⟨query, t⟩ := r
    -- The holders after the step: the query itself, or another one as before.
    have hh : ∀ x, (Function.update s.queries q query x).holds = true ↔
        x = q ∧ query.holds = true ∨ x ≠ q ∧ (s.queries x).holds = true := by
      intro x
      by_cases hx : x = q
      · subst hx
        simp
      · simp [hx]
    generalize he : t.election = e at hha
    cases hha with
    | keep hs =>
      have hqs : ∀ x, (Function.update s.queries q query x).holds = (s.queries x).holds := by
        intro x
        by_cases hx : x = q
        · subst hx
          simpa using hs
        · simp [hx]
      refine ⟨fun x y hx hy => ?_, ?_⟩
      · rw [hqs] at hx hy
        exact h.unique x y hx hy
      · simp only [he, h.flag, hqs]
    | take hf _ hnew =>
      have hn : ∀ x, (s.queries x).holds ≠ true := fun x hx =>
        absurd (h.flag.mpr ⟨x, hx⟩) (by simp [hf])
      refine ⟨fun x y hx hy => ?_, ?_⟩
      · rw [hh] at hx hy
        rcases hx with ⟨rfl, -⟩ | ⟨-, hx⟩
        · rcases hy with ⟨rfl, -⟩ | ⟨-, hy⟩
          · rfl
          · exact absurd hy (hn y)
        · exact absurd hx (hn x)
      · exact iff_of_true he ⟨q, (hh q).mpr (Or.inl ⟨rfl, hnew⟩)⟩
    | release ho hnew =>
      have hn : ∀ x, (Function.update s.queries q query x).holds ≠ true := by
        intro x hx
        rcases (hh x).mp hx with ⟨-, hx⟩ | ⟨hne, hx⟩
        · exact absurd hx (by simp [hnew])
        · exact hne (h.unique x q hx ho)
      refine ⟨fun x y hx _ => absurd hx (hn x), ?_⟩
      exact iff_of_false (by simp [he]) fun ⟨x, hx⟩ => hn x hx

theorem exec_elects (cfg : Config) (events : ℕ → Event) (n : ℕ) : (exec cfg events n).Elects :=
  run_invariant (P := State.Elects)
    ⟨fun _ _ h => absurd h (by simp [holds]), by simp [holds]⟩
    (fun _ event h => step_elects cfg event h) n

end SingBox.DNS.Group
