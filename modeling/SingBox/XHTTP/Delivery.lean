import SingBox.XHTTP.PacketUp

/-!
# What XHTTP packet-up delivers

One caller writes to the stream, write after write, and then closes it. The server answers every
POST with 200 once it has received it completely; a POST fails only after its context is dead, and
the context is cancelled by `Close`. `Write` returns when the bytes are in the batch buffer. While
the stream is open, the upload loop does not come to rest before everything that was written is
sent. `Close` is abortive: it neither sends what is in the buffer nor waits for the POSTs.
-/

namespace SingBox.XHTTP

open Foundation PacketConn List

variable {α ε : Type}

/-- The stream of one caller, with the numbers of the POSTs that the server has received. -/
structure Delivery (α ε : Type) where
  conn : PacketConn Unit α ε := {}
  received : List ℕ := []

/-- The steps. -/
inductive DeliveryEvent (α ε : Type) where
  | upload (e : UploadEvent Unit α ε)
  /-- The server has received a POST completely. -/
  | receive (k : ℕ)
deriving DecidableEq

namespace Delivery

/-- What the server and the context allow. -/
def allows (s : Delivery α ε) : UploadEvent Unit α ε → Bool
  | .respond k none => k ∈ s.received
  | .respond _ (some _) => s.conn.ctxDone
  | .cancel => s.conn.closed
  | .downloadFail _ => false
  | _ => true

/-- A step. -/
def step (maxPost maxInflight : ℕ) (s : Delivery α ε) : DeliveryEvent α ε → Delivery α ε
  | .upload e => if s.allows e then { s with conn := s.conn.step maxPost maxInflight e } else s
  | .receive k => if (s.conn.post? k).isSome then { s with received := k :: s.received } else s

/-- What the server has received completely, in the order of the numbers. -/
def delivered (s : Delivery α ε) : List α :=
  ((s.conn.posts.filter fun p => p.seq ∈ s.received).map Post.payload).flatten

/-- What was written. -/
def written (s : Delivery α ε) : List α := (s.conn.results.map WriteResult.bytes).flatten

/-- All writes have returned, with success. -/
def AllWritten (s : Delivery α ε) : Prop :=
  s.conn.writers () = .idle ∧ ∀ r ∈ s.conn.results, r.err = none

/-- Nothing is left to send: the buffer is empty, the upload loop has no batch, and the server has
received every POST. -/
def NothingLeft (s : Delivery α ε) : Prop :=
  s.conn.pending = [] ∧ s.conn.held = none ∧ ∀ p ∈ s.conn.posts, p.seq ∈ s.received

/-- The steps of the upload loop and of its POSTs. -/
def works : UploadEvent Unit α ε → Bool
  | .take | .issue | .proceed | .wrote _ | .respond _ none | .finish _ => true
  | _ => false

/-- The server has received every POST, and neither the upload loop nor a POST has anything left to
do. -/
structure AtRest (maxPost maxInflight : ℕ) (s : Delivery α ε) : Prop where
  received : ∀ p ∈ s.conn.posts, p.seq ∈ s.received
  works : ∀ e, works e = true → s.step maxPost maxInflight (.upload e) = s

/-- The condition on a step: `Close` is called when the stream is at rest. -/
def ClosesAtRest (maxPost maxInflight : ℕ) (s : Delivery α ε) (e : DeliveryEvent α ε) : Prop :=
  e = .upload .close → s.AtRest maxPost maxInflight

/-! ### The books of the stream -/

/-- The same bytes are in the buffer, in the batch and in the POSTs, the same writes have returned,
and the stream is closed if it was. -/
def SameBooks (s s' : PacketConn Unit α ε) : Prop :=
  s'.pending = s.pending ∧ s'.held = s.held ∧ s'.accepted = s.accepted ∧ s'.results = s.results ∧
    s'.writers = s.writers ∧ s'.closed = s.closed ∧ s'.posts.map Post.seq = s.posts.map Post.seq

theorem sameBooks_refl (s : PacketConn Unit α ε) : SameBooks s s :=
  ⟨rfl, rfl, rfl, rfl, rfl, rfl, rfl⟩

theorem sameBooks_setPost (s : PacketConn Unit α ε) (k : ℕ) {f : Post α ε → Post α ε}
    (hf : ∀ p, (f p).seq = p.seq) : SameBooks s (s.setPost k f) := by
  refine ⟨rfl, rfl, rfl, rfl, rfl, rfl, ?_⟩
  simp only [setPost, map_map]
  refine map_congr_left fun p _ => ?_
  simp only [Function.comp_apply]
  split_ifs
  · exact hf p
  · rfl

theorem sameBooks_recordError (s : PacketConn Unit α ε) (e : ε) :
    SameBooks s (s.recordError e) := by
  unfold recordError
  split_ifs <;> exact sameBooks_refl s

/-- The steps that move bytes, or close the stream. -/
def moves : UploadEvent Unit α ε → Bool
  | .write _ _ | .writeRound _ | .take | .issue | .close => true
  | _ => false

variable {e : UploadEvent Unit α ε}

theorem sameBooks_step (maxPost maxInflight : ℕ) (s : PacketConn Unit α ε) (he : moves e = false) :
    SameBooks s (s.step maxPost maxInflight e) := by
  cases e with
  | write _ _ | writeRound _ | take | issue | close => cases he
  | loopCancel ctxErr =>
    simp only [PacketConn.step]
    split
    case h_3 => exact sameBooks_refl s
    all_goals
      split_ifs
      · exact sameBooks_recordError s ctxErr
      · exact sameBooks_refl s
  | proceed =>
    simp only [PacketConn.step]
    split
    · split_ifs <;> exact sameBooks_refl s
    · exact sameBooks_refl s
  | wrote k => exact sameBooks_setPost s k fun _ => rfl
  | abort k =>
    simp only [PacketConn.step]
    split
    · next e _ =>
      obtain ⟨hpe, hh, ha, hr, hw, hcl, hp⟩ := sameBooks_recordError s e
      obtain ⟨-, -, -, -, -, -, hs⟩ := sameBooks_setPost (s.recordError e) k
        (f := fun p => { p with state := .ending }) fun _ => rfl
      exact ⟨hpe, hh, ha, hr, hw, hcl, hs.trans hp⟩
    · exact sameBooks_refl s
  | respond | finish =>
    simp only [PacketConn.step]
    split
    · exact sameBooks_setPost s _ fun _ => rfl
    · exact sameBooks_refl s
  | downloadFail _ | cancel => exact sameBooks_refl s

theorem closed_step (maxPost maxInflight : ℕ) (s : PacketConn Unit α ε) (he : e ≠ .close) :
    (s.step maxPost maxInflight e).closed = s.closed := by
  cases hm : moves e with
  | false => exact (sameBooks_step maxPost maxInflight s hm).2.2.2.2.2.1
  | true =>
    cases e with
    | write _ b =>
      simp only [PacketConn.step]
      split <;> rfl
    | writeRound _ =>
      simp only [PacketConn.step]
      split
      · exact writeRound_cases (P := fun s' => s'.closed = s.closed) (fun _ _ => rfl) rfl
          fun _ _ _ _ => rfl
      · rfl
    | take =>
      simp only [PacketConn.step, PacketConn.take]
      split
      · split_ifs <;> rfl
      · rfl
    | issue =>
      simp only [PacketConn.step]
      split
      · split_ifs <;> rfl
      · rfl
    | close => exact absurd rfl he
    | _ => cases hm

/-! ### The bytes of the writes -/

/-- What a writer has got into the buffer. -/
def accepted : Writer α ε → List α
  | .idle => []
  | .writing b w _ => b.take w

/-- The bytes that were accepted are those of the writes, and a write that succeeds has them all. -/
structure Wrote (s : PacketConn Unit α ε) : Prop where
  accepted : s.accepted =
    (s.results.map fun r => r.bytes.take r.written).flatten ++ accepted (s.writers ())
  complete : ∀ r ∈ s.results, r.err = none → r.bytes.length ≤ r.written

section

variable {s : PacketConn Unit α ε} {b : List α} {w : ℕ} {before : Option ε} (h : Wrote s)
  (hwriter : s.writers () = .writing b w before)

include h hwriter

theorem Wrote.returnWrite {err : Option (WriteError ε)} (he : err = none → b.length ≤ w) :
    Wrote (s.returnWrite () b w before err) := by
  refine ⟨?_, fun r hr hn => ?_⟩
  · simp [PacketConn.returnWrite, h.accepted, hwriter, Delivery.accepted]
  · rcases mem_append.mp hr with hr | hr
    · exact h.complete r hr hn
    · obtain rfl := mem_singleton.mp hr
      exact he hn

theorem Wrote.writeRound {maxPost : ℕ} : Wrote (s.writeRound maxPost () b w before) := by
  refine writeRound_cases (fun err he => h.returnWrite hwriter he) h ?_
  intro piece hp _ _
  refine ⟨?_, h.complete⟩
  -- The piece follows what the write had got into the buffer before.
  have hs : b.take (w + piece.length) = b.take w ++ piece := by
    rw [take_add, hp, length_take, take_eq_take_min (i := maxPost - _)]
  simp [h.accepted, hwriter, Delivery.accepted, hs]

end

variable {maxPost maxInflight : ℕ} {s : Delivery α ε}

theorem Wrote.step {s : PacketConn Unit α ε} (h : Wrote s) (e : UploadEvent Unit α ε) :
    Wrote (s.step maxPost maxInflight e) := by
  cases hm : moves e with
  | false =>
    obtain ⟨-, -, ha, hr, hw, -, -⟩ :=
      sameBooks_step maxPost maxInflight s hm
    refine ⟨?_, ?_⟩
    · rw [ha, hr, hw]
      exact h.accepted
    · rw [hr]
      exact h.complete
  | true =>
    cases e with
    | write _ b =>
      simp only [PacketConn.step]
      split
      · next hi => exact ⟨by simp [h.accepted, hi, Delivery.accepted], h.complete⟩
      · exact h
    | writeRound _ =>
      simp only [PacketConn.step]
      split
      · next hwriter => exact h.writeRound hwriter
      · exact h
    | take =>
      simp only [PacketConn.step, PacketConn.take]
      split
      · split_ifs <;> exact ⟨h.accepted, h.complete⟩
      · exact h
    | issue =>
      simp only [PacketConn.step]
      split
      · split_ifs <;> exact ⟨h.accepted, h.complete⟩
      · exact h
    | close => exact ⟨h.accepted, h.complete⟩
    | _ => cases hm

/-- What the calls of `Write` report as written is what is in the POSTs, in the batch that waits and
in the buffer, in the order of the calls; and a call that reports no error has written it all. -/
theorem wrote_run (events : ℕ → UploadEvent Unit α ε) (n : ℕ) :
    let s := run (PacketConn.step maxPost mi) {} events n
    (s.results.map fun r => r.bytes.take r.written).flatten ++ accepted (s.writers ()) =
      (s.posts.map Post.payload).flatten ++ s.held.getD [] ++ s.pending ∧
    ∀ r ∈ s.results, r.err = none → r.bytes.length ≤ r.written := by
  intro s
  have hi : PacketConn.Inv maxPost mi s :=
    run_invariant (PacketConn.inv_initial maxPost mi) (fun _ e h => h.step e) n
  have hw : Wrote s := run_invariant (P := Wrote) ⟨rfl, by simp⟩ (fun _ e h => h.step e) n
  exact ⟨hw.accepted.symm.trans hi.stream, hw.complete⟩

theorem Wrote.eq_written (h : Wrote s.conn) (ha : s.AllWritten) : s.conn.accepted = s.written := by
  rw [h.accepted, ha.1, Delivery.accepted, append_nil, written]
  refine congrArg flatten (map_congr_left fun r hr => ?_)
  exact take_of_length_le (h.complete r hr (ha.2 r hr))

/-! ### While the stream is open -/

/-- The upload loop of an open stream: nothing has failed, and it holds a batch or has issued a POST
as it should. -/
structure Live (s : PacketConn Unit α ε) : Prop where
  uploadErr : s.uploadErr = none
  ctxDone : s.ctxDone = false
  loop : match s.loop with
    | .ready => True
    | .taken => s.held.isSome = true
    | .posted k => ∃ p ∈ s.posts, p.seq = k
    | .exited => False
  failed : ∀ p ∈ s.posts, ∀ e, p.state ≠ .failed e
  slots : s.inflight = s.outstanding

/-- A change of one POST changes the outstanding ones by its own difference. -/
theorem outstanding_setPost {s : PacketConn Unit α ε} (h : s.Inv maxPost maxInflight) {p : Post α ε}
    (hp : p ∈ s.posts) (f : Post α ε → Post α ε) :
    (s.setPost p.seq f).outstanding + (if p.ended then 0 else 1) =
      s.outstanding + if (f p).ended then 0 else 1 := by
  obtain ⟨before, after, hposts⟩ := append_of_mem hp
  have hnodup : ((before ++ p :: after).map Post.seq).Nodup := by
    rw [← hposts, h.numbers]
    exact nodup_range
  have hothers : ∀ q, q ∈ before ∨ q ∈ after → q.seq ≠ p.seq := by
    rw [map_append, map_cons, nodup_middle, nodup_cons, ← map_append] at hnodup
    intro q hq heq
    exact hnodup.1 (heq ▸ mem_map_of_mem (mem_append.mpr hq))
  have hkeep : ∀ l : List (Post α ε), (∀ q ∈ l, q.seq ≠ p.seq) →
      l.map (fun q => if q.seq = p.seq then f q else q) = l := by
    intro l hl
    exact (map_congr_left fun q hq => if_neg (hl q hq)).trans (map_id l)
  simp only [setPost, outstanding, hposts, map_append, map_cons, if_true, countP_append,
    countP_cons, hkeep before fun q hq => hothers q (.inl hq),
    hkeep after fun q hq => hothers q (.inr hq)]
  cases p.ended <;> cases (f p).ended <;> simp <;> omega

section Live

variable {s : PacketConn Unit α ε} (h : Live s)

include h

/-- The POSTs are changed, and none of them fails. -/
theorem Live.setPost {k : ℕ} {f : Post α ε → Post α ε} (hseq : ∀ p, (f p).seq = p.seq)
    (hstate : ∀ p ∈ s.posts, ∀ e, (f p).state ≠ .failed e) {inflight : ℕ}
    (hslots : inflight = (s.setPost k f).outstanding) :
    Live { s.setPost k f with inflight := inflight } := by
  refine ⟨h.uploadErr, h.ctxDone, ?_, fun p hp e => ?_, hslots⟩
  · have hloop := h.loop
    change match s.loop with
      | .ready => True
      | .taken => s.held.isSome = true
      | .posted k' => ∃ p ∈ (s.setPost k f).posts, p.seq = k'
      | .exited => False
    cases hl : s.loop with
    | ready => trivial
    | taken => simpa only [hl] using hloop
    | exited => simp only [hl] at hloop
    | posted k' =>
      simp only [hl] at hloop
      obtain ⟨p, hp, hk⟩ := hloop
      refine ⟨_, mem_map_of_mem hp, ?_⟩
      split_ifs
      · exact (hseq p).trans hk
      · exact hk
  · obtain ⟨q, hq, rfl⟩ := mem_map.mp hp
    split_ifs
    · exact hstate q hq e
    · exact h.failed q hq e

theorem Live.take (hclosed : s.closed = false) : Live s.take := by
  unfold PacketConn.take
  rw [if_neg (by simp [hclosed, h.uploadErr, h.ctxDone])]
  split_ifs
  · exact h
  · exact ⟨h.uploadErr, h.ctxDone, rfl, h.failed, h.slots⟩

theorem Live.issue (payload : List α) : Live (s.issue payload) := by
  refine ⟨h.uploadErr, h.ctxDone, ?_, fun p hp e => ?_, ?_⟩
  · exact ⟨_, mem_append_right _ (mem_singleton_self _), rfl⟩
  · rcases mem_append.mp hp with hp | hp
    · exact h.failed p hp e
    · rw [mem_singleton.mp hp]
      exact nofun
  · simp [PacketConn.issue, outstanding, h.slots, Post.ended]

/-- A response of the server, or the end of a POST. -/
theorem Live.setState (hi : s.Inv maxPost maxInflight) {k : ℕ} {p : Post α ε} (hp : p ∈ s.posts)
    (hk : p.seq = k) {x : PostState ε} (hx : ∀ e, x ≠ .failed e) {inflight : ℕ}
    (hslots : inflight + (if p.ended then 0 else 1) =
      s.inflight + if ({ p with state := x } : Post α ε).ended then 0 else 1) :
    Live { s.setPost k (fun p => { p with state := x }) with inflight := inflight } := by
  subst hk
  refine h.setPost (f := fun p => { p with state := x }) (fun _ => rfl) (fun _ _ => hx) ?_
  have ho := outstanding_setPost hi hp fun p => { p with state := x }
  rw [← h.slots] at ho
  omega

end Live

theorem Live.step (h : Live s.conn) (hi : s.conn.Inv maxPost maxInflight)
    (hopen : s.conn.closed = false)
    {e : UploadEvent Unit α ε} (hallows : s.allows e = true) (he : e ≠ .close) :
    Live (s.conn.step maxPost maxInflight e) := by
  cases e with
  | close => exact absurd rfl he
  | write _ b =>
    simp only [PacketConn.step]
    split <;> exact ⟨h.uploadErr, h.ctxDone, h.loop, h.failed, h.slots⟩
  | writeRound _ =>
    simp only [PacketConn.step]
    split
    · exact writeRound_cases (P := Live)
        (fun _ _ => ⟨h.uploadErr, h.ctxDone, h.loop, h.failed, h.slots⟩) h
        fun _ _ _ _ => ⟨h.uploadErr, h.ctxDone, h.loop, h.failed, h.slots⟩
    · exact h
  | take =>
    simp only [PacketConn.step]
    split
    · exact h.take hopen
    · exact h
  | issue =>
    simp only [PacketConn.step]
    split
    · split_ifs
      · exact h.issue _
      · exact h
    · exact h
  | loopCancel ctxErr =>
    simp only [PacketConn.step, h.ctxDone]
    split <;> exact h
  | proceed =>
    simp only [PacketConn.step]
    split
    · split_ifs
      · exact ⟨h.uploadErr, h.ctxDone, trivial, h.failed, h.slots⟩
      · exact h
    · exact h
  | wrote k =>
    refine h.setPost (k := k) (f := fun p => { p with wrote := true }) (fun _ => rfl)
      (fun p hp => h.failed p hp) ?_
    rw [h.slots, outstanding, outstanding, PacketConn.setPost, countP_map]
    refine countP_congr fun p _ => ?_
    simp only [Function.comp_apply]
    split_ifs <;> rfl
  | respond k err =>
    cases err with
    | some e => exact absurd (hallows.symm.trans h.ctxDone) (by simp)
    | none =>
      simp only [PacketConn.step]
      split
      · next hstate =>
        obtain ⟨p, hp, hk, hs⟩ := post?_state hstate
        exact h.setState hi hp hk (by simp) (by simp [Post.ended, hs])
      · exact h
  | abort k =>
    simp only [PacketConn.step]
    split
    · next e hstate =>
      obtain ⟨p, hp, -, hs⟩ := post?_state hstate
      exact absurd hs (h.failed p hp e)
    · exact h
  | finish k =>
    simp only [PacketConn.step]
    split
    · next hstate =>
      obtain ⟨p, hp, hk, hs⟩ := post?_state hstate
      refine h.setState hi hp hk (by simp) ?_
      have hpos : 0 < s.conn.outstanding := countP_pos_iff.mpr ⟨p, hp, by simp [Post.ended, hs]⟩
      rw [← h.slots] at hpos
      simp [Post.ended, hs]
      omega
    · exact h
  | downloadFail e => exact absurd hallows (by simp [allows])
  | cancel => exact absurd (hallows.symm.trans hopen) (by simp)

section AtRest

variable (hrest : s.AtRest maxPost maxInflight) (h : Live s.conn)
  (hi : s.conn.Inv maxPost maxInflight)

include hrest h hi

/-- Every POST has ended: its response has come, and it would give its slot back. -/
theorem AtRest.ended {p : Post α ε} (hp : p ∈ s.conn.posts) : p.ended = true := by
  have hfind : s.conn.post? p.seq = some p := by
    obtain ⟨q, hq⟩ := Option.ne_none_iff_exists'.mp
      (mt find?_eq_none.mp fun hn => hn p hp (by simp) : s.conn.post? p.seq ≠ none)
    have hseq : q.seq = p.seq := by simpa using find?_some hq
    rwa [hi.eq_of_seq (mem_of_find?_eq_some hq) hp hseq] at hq
  -- A step that changes the POST would change the state.
  have hfix : ∀ {x : PostState ε} {inflight : ℕ},
      ({ s.conn.setPost p.seq (fun p => { p with state := x }) with inflight := inflight } :
        PacketConn Unit α ε) = s.conn → x = p.state := by
    intro x inflight heq
    have hmap := congrArg PacketConn.posts heq
    have hself := (map_inj_left.mp (hmap.trans (map_id _).symm)) p hp
    rw [if_pos rfl] at hself
    exact congrArg Post.state hself
  cases hs : p.state with
  | ended => simp [Post.ended, hs]
  | failed e => exact absurd hs (h.failed p hp e)
  | running =>
    have hw := congrArg Delivery.conn (hrest.works (.respond p.seq none) rfl)
    simp only [Delivery.step, allows, hrest.received p hp, decide_true, if_true, PacketConn.step,
      hfind, Option.map_some, hs] at hw
    cases (hfix hw).trans hs
  | ending =>
    have hw := congrArg Delivery.conn (hrest.works (.finish p.seq) rfl)
    simp only [Delivery.step, allows, if_true, PacketConn.step, hfind, Option.map_some, hs] at hw
    cases (hfix hw).trans hs

/-- An open stream at rest has nothing left to send: the upload loop would take what is in the
buffer and issue the batch that it holds. -/
theorem AtRest.nothingLeft (hopen : s.conn.closed = false) (hslots : 0 < maxInflight) :
    s.NothingLeft := by
  have hended : ∀ p ∈ s.conn.posts, p.ended = true := fun p hp => hrest.ended h hi hp
  have hfree : s.conn.inflight = 0 := by
    rw [h.slots, outstanding, countP_eq_zero]
    exact fun p hp => by simp [hended p hp]
  have hloop := h.loop
  cases hl : s.conn.loop with
  | ready =>
    have hw := congrArg (fun s => s.conn.loop) (hrest.works .take rfl)
    simp only [Delivery.step, allows, if_true, PacketConn.step, hl, PacketConn.take] at hw
    rw [if_neg (by simp [hopen, h.uploadErr, h.ctxDone])] at hw
    split_ifs at hw with hpending
    refine ⟨hpending, ?_, hrest.received⟩
    by_contra hheld
    rcases hi.held_loop (Option.isSome_iff_ne_none.mpr hheld) with ht | ht <;>
      cases hl.symm.trans ht
  | taken =>
    simp only [hl] at hloop
    obtain ⟨payload, hheld⟩ := Option.isSome_iff_exists.mp hloop
    have hw := congrArg (fun s => s.conn.loop) (hrest.works .issue rfl)
    simp only [Delivery.step, allows, if_true, PacketConn.step, hl, hheld, hfree, hslots,
      PacketConn.issue] at hw
    cases hw
  | posted k =>
    simp only [hl] at hloop
    obtain ⟨p, hp, hk⟩ := hloop
    have hmay : s.conn.mayProceed maxInflight k = true := by
      obtain ⟨q, hq⟩ := Option.ne_none_iff_exists'.mp
        (mt find?_eq_none.mp fun hn => hn p hp (by simp [hk]) : s.conn.post? k ≠ none)
      simp [mayProceed, hq, hended q (mem_of_find?_eq_some hq)]
    have hw := congrArg (fun s => s.conn.loop) (hrest.works .proceed rfl)
    simp only [Delivery.step, allows, if_true, PacketConn.step, hl, hmay] at hw
    cases hw
  | exited => simp only [hl] at hloop

end AtRest

/-! ### After the close -/

theorem NothingLeft.step (h : s.NothingLeft) (hcl : s.conn.closed)
    (e : UploadEvent Unit α ε) :
    NothingLeft { s with conn := s.conn.step maxPost maxInflight e } := by
  obtain ⟨hpe, hh, hr⟩ := h
  cases hm : moves e with
  | false =>
    obtain ⟨hp', hh', -, -, -, -, hpo⟩ := sameBooks_step maxPost maxInflight s.conn hm
    refine ⟨hp'.trans hpe, hh'.trans hh, fun p hp => ?_⟩
    have hse : p.seq ∈ s.conn.posts.map Post.seq := hpo ▸ mem_map_of_mem hp
    obtain ⟨q, hq, heq⟩ := mem_map.mp hse
    exact heq ▸ hr q hq
  | true =>
    cases e with
    | write _ b =>
      simp only [PacketConn.step]
      split <;> exact ⟨hpe, hh, hr⟩
    | writeRound _ =>
      simp only [PacketConn.step]
      split
      · refine writeRound_cases (P := fun s' => NothingLeft { s with conn := s' })
          (fun _ _ => ⟨hpe, hh, hr⟩) ⟨hpe, hh, hr⟩ ?_
        intro _ _ ho
        cases hcl.symm.trans ho
      · exact ⟨hpe, hh, hr⟩
    | take =>
      simp only [PacketConn.step, PacketConn.take, hcl, true_or, if_true]
      split <;> exact ⟨hpe, hh, hr⟩
    | issue =>
      simp only [PacketConn.step]
      split
      · next hs => cases hh.symm.trans hs
      · exact ⟨hpe, hh, hr⟩
    | close => exact ⟨hpe, hh, hr⟩
    | _ => cases hm

theorem NothingLeft.delivered_eq (h : s.NothingLeft) (hi : s.conn.Inv maxPost maxInflight) :
    s.delivered = s.conn.accepted := by
  obtain ⟨hpe, hh, hr⟩ := h
  have ha : s.conn.posts.filter (fun p => p.seq ∈ s.received) = s.conn.posts :=
    filter_eq_self.mpr fun p hp => decide_eq_true (hr p hp)
  rw [delivered, ha, hi.stream, hpe, hh, Option.getD_none, append_nil, append_nil]

/-- The books of the stream and of the server. -/
structure Inv (maxPost maxInflight : ℕ) (s : Delivery α ε) : Prop where
  upload : s.conn.Inv maxPost maxInflight
  wrote : Wrote s.conn
  live : s.conn.closed = false → Live s.conn
  closed : s.conn.closed = true → s.NothingLeft

theorem Inv.step (hslots : 0 < maxInflight) (h : Inv maxPost maxInflight s) {e : DeliveryEvent α ε}
    (hclose : s.ClosesAtRest maxPost maxInflight e) :
    Inv maxPost maxInflight (s.step maxPost maxInflight e) := by
  cases e with
  | upload e =>
    simp only [Delivery.step]
    split_ifs with hallows
    · by_cases hc : e = .close
      · subst hc
        refine ⟨h.upload.step .close, ⟨h.wrote.accepted, h.wrote.complete⟩, nofun, fun _ => ?_⟩
        cases hcl : s.conn.closed with
        | true => exact h.closed hcl
        | false => exact (hclose rfl).nothingLeft (h.live hcl) h.upload hcl hslots
      · have hsame := closed_step maxPost maxInflight s.conn hc
        refine ⟨h.upload.step e, h.wrote.step e, fun hcl => ?_, fun hcl => ?_⟩
        · exact (h.live (hsame ▸ hcl)).step h.upload (hsame ▸ hcl) hallows hc
        · exact (h.closed (hsame ▸ hcl)).step (hsame ▸ hcl) e
    · exact h
  | receive k =>
    simp only [Delivery.step]
    split_ifs
    · refine ⟨h.upload, h.wrote, h.live, fun hcl => ?_⟩
      obtain ⟨hpe, hh, hr⟩ := h.closed hcl
      exact ⟨hpe, hh, fun p hp => mem_cons_of_mem k (hr p hp)⟩
    · exact h

/-- **An open stream delivers what it accepted.** When all writes have succeeded and the stream has
come to rest, the server has received what was written; and if `Close` is called only then, that
remains so. -/
theorem run_delivers (maxPost : ℕ) {maxInflight : ℕ} (hslots : 0 < maxInflight)
    (events : ℕ → DeliveryEvent α ε) (n : ℕ)
    (hclose : ∀ t < n, ClosesAtRest maxPost maxInflight (run (step maxPost maxInflight) {} events t)
      (events t)) :
    let s := run (step maxPost maxInflight) {} events n
    s.AllWritten → (s.conn.closed = true ∨ s.AtRest maxPost maxInflight) →
      s.delivered = s.written := by
  intro s ha hend
  have hinit : Inv maxPost maxInflight ({} : Delivery α ε) :=
    ⟨inv_initial maxPost maxInflight, ⟨rfl, nofun⟩, fun _ => ⟨rfl, rfl, trivial, nofun, rfl⟩, nofun⟩
  have hi : Inv maxPost maxInflight s :=
    run_preserved (P := fun _ s => Inv maxPost maxInflight s) (Nat.zero_le n) hinit
      fun t _ ht h => h.step hslots (hclose t ht)
  have hleft : s.NothingLeft := by
    cases hcl : s.conn.closed with
    | true => exact hi.closed hcl
    | false =>
      have hrest := hend.resolve_left (by simp [hcl])
      exact hrest.nothingLeft (hi.live hcl) hi.upload hcl hslots
  rw [hleft.delivered_eq hi.upload, hi.wrote.eq_written ha]

section Example

/-- The state after a trace, with batches of two bytes and two slots. -/
def deliveryRun (trace : List (DeliveryEvent ℕ String)) : Delivery ℕ String :=
  run (step 2 2) {} (fun n => trace.getD n (.receive 0)) trace.length

/-- Two bytes are written and sent, and the stream is closed when it is at rest. -/
def sentTrace : List (DeliveryEvent ℕ String) :=
  [.upload (.write () [1, 2]), .upload (.writeRound ()), .upload (.writeRound ()), .upload .take,
    .upload .issue, .upload (.wrote 0), .upload .proceed, .receive 0, .upload (.respond 0 none),
    .upload (.finish 0), .upload .close]

/-- Two bytes are written, and the stream is closed before the upload loop takes them. -/
def lostTrace : List (DeliveryEvent ℕ String) :=
  [.upload (.write () [1, 2]), .upload (.writeRound ()), .upload (.writeRound ()), .upload .close,
    .upload .take, .upload .cancel]

/-- The stream before it is closed. -/
def sentState : Delivery ℕ String where
  conn := {
    seq := 1
    posts := [⟨0, [1, 2], true, .ended⟩]
    accepted := [1, 2]
    results := [⟨[1, 2], 2, none, none, false⟩] }
  received := [0]

theorem atRest_sentState : sentState.AtRest 2 2 := by
  refine ⟨by decide, fun e he => ?_⟩
  cases e with
  | take | issue | proceed => rfl
  | wrote k => cases k <;> rfl
  | finish k => cases k <;> rfl
  | respond k err =>
    cases err with
    | none => cases k <;> rfl
    | some e => cases he
  | _ => cases he

theorem run_delivers_example :
    let s := deliveryRun sentTrace
    s.AllWritten ∧ s.conn.closed = true ∧ s.delivered = [1, 2] := by
  have ha : (deliveryRun sentTrace).AllWritten := ⟨rfl, by decide⟩
  refine ⟨ha, rfl, run_delivers 2 (by decide) (fun n => sentTrace.getD n (.receive 0))
    sentTrace.length ?_ ha (.inl rfl)⟩
  intro t ht hc
  have hclose : ∀ t < 11, sentTrace.getD t (.receive 0) = .upload .close → t = 10 := by decide
  obtain rfl := hclose t ht hc
  exact atRest_sentState

/-- Both bytes are lost, although the write has succeeded and the stream is over. -/
theorem not_delivers :
    let s := deliveryRun lostTrace
    s.AllWritten ∧ s.conn.closed = true ∧ s.conn.loop = .exited ∧ s.conn.posts = [] ∧
      s.delivered ≠ s.written :=
  ⟨⟨rfl, by decide⟩, rfl, rfl, rfl, by decide⟩

end Example

end Delivery

end SingBox.XHTTP
