import SingBox.Foundation.Count
import SingBox.Foundation.Run

/-!
# The upload stream of XHTTP packet-up

`Write` appends to a batch buffer. The upload loop takes the buffer, gives it the next sequence
number and issues a POST in a goroutine of its own; a semaphore bounds the POSTs whose response is
outstanding. The first failure is recorded and ends the stream.

The writers are an arbitrary type `ι`, the bytes and the errors arbitrary types too. One round of
the loop of `Write`, each locked section and each channel operation of the upload loop and of a POST
is a step of its own. The context may be cancelled at any time.
-/

namespace SingBox.XHTTP

open Foundation List Function

variable {ι α ε : Type} [DecidableEq ι]

/-- Where the upload loop is. -/
inductive Loop where
  /-- At its head, or waiting for the buffer. -/
  | ready
  /-- A batch is taken; the loop waits for the interval and for a slot. -/
  | taken
  /-- The POST of this number is issued; the loop waits for its body to be written or its end. -/
  | posted (seq : ℕ)
  | exited
deriving DecidableEq

/-- Where the goroutine of a POST is. -/
inductive PostState (ε : Type) where
  | running
  /-- The POST has failed; `abort` has not run yet. -/
  | failed (e : ε)
  /-- The POST is over; the slot is not given back yet. -/
  | ending
  | ended
deriving DecidableEq

/-- An upload POST that was issued. -/
structure Post (α ε : Type) where
  seq : ℕ
  payload : List α
  /-- The request body has been written. -/
  wrote : Bool := false
  state : PostState ε := .running
deriving DecidableEq

/-- The goroutine of a POST has returned. -/
def Post.ended (p : Post α ε) : Bool :=
  match p.state with
  | .ended => true
  | _ => false

/-- What a `Write` can return. -/
inductive WriteError (ε : Type) where
  /-- `net.ErrClosed`. -/
  | closed
  | upload (e : ε)
  | context
deriving DecidableEq

/-- Where a writer is. -/
inductive Writer (α ε : Type) where
  | idle
  /-- In the loop of `Write(b)`; `before` is the failure that was recorded when it was called. -/
  | writing (b : List α) (written : ℕ) (before : Option ε)
deriving DecidableEq

/-- A `Write` that has returned, with what was recorded when it was called and whether the stream
was closed when it returned. -/
structure WriteResult (α ε : Type) where
  bytes : List α
  written : ℕ
  err : Option (WriteError ε)
  before : Option ε
  closed : Bool
deriving DecidableEq

/-- `packetConn`, with the goroutines that use it. -/
structure PacketConn (ι α ε : Type) where
  pending : List α := []
  uploadErr : Option ε := none
  closed : Bool := false
  ctxDone : Bool := false
  seq : ℕ := 0
  inflight : ℕ := 0
  loop : Loop := .ready
  /-- The batch that was taken and not issued. -/
  held : Option (List α) := none
  posts : List (Post α ε) := []
  writers : ι → Writer α ε := fun _ => .idle
  /-- The bytes that were accepted, in their order. -/
  accepted : List α := []
  results : List (WriteResult α ε) := []

/-- The steps. -/
inductive UploadEvent (ι α ε : Type) where
  | write (i : ι) (b : List α)
  | writeRound (i : ι)
  /-- The locked section of the upload loop. -/
  | take
  /-- The upload loop has a slot, and issues the POST. -/
  | issue
  /-- The upload loop sees that the context is dead. -/
  | loopCancel (ctxErr : ε)
  /-- The upload loop goes on after the POST was written or has ended. -/
  | proceed
  /-- The body of a POST has been written. -/
  | wrote (k : ℕ)
  /-- A POST succeeds, or fails. -/
  | respond (k : ℕ) (err : Option ε)
  /-- `abort` of a failed POST. -/
  | abort (k : ℕ)
  /-- A POST gives its slot back. -/
  | finish (k : ℕ)
  /-- `fail`: the download could not be raised. -/
  | downloadFail (e : ε)
  | cancel
  | close
deriving DecidableEq

namespace PacketConn

/-- The locked section of `abort`. -/
def recordError (s : PacketConn ι α ε) (e : ε) : PacketConn ι α ε :=
  if s.closed ∨ s.uploadErr.isSome then s else { s with uploadErr := some e }

/-- The POST with a number. -/
def post? (s : PacketConn ι α ε) (k : ℕ) : Option (Post α ε) := s.posts.find? fun p => p.seq == k

/-- The POST with a number is changed. -/
def setPost (s : PacketConn ι α ε) (k : ℕ) (f : Post α ε → Post α ε) : PacketConn ι α ε :=
  { s with posts := s.posts.map fun p => if p.seq = k then f p else p }

/-- A `Write` returns. -/
def returnWrite (s : PacketConn ι α ε) (i : ι) (b : List α) (written : ℕ) (before : Option ε)
    (err : Option (WriteError ε)) : PacketConn ι α ε :=
  { s with
    writers := Function.update s.writers i .idle
    results := s.results ++ [⟨b, written, err, before, s.closed⟩] }

/-- One round of the loop of `Write`. -/
def writeRound (maxPost : ℕ) (s : PacketConn ι α ε) (i : ι) (b : List α) (written : ℕ)
    (before : Option ε) : PacketConn ι α ε :=
  if b.length ≤ written then s.returnWrite i b written before none
  else if s.closed then s.returnWrite i b written before (some .closed)
  else match s.uploadErr with
    | some e => s.returnWrite i b written before (some (.upload e))
    | none =>
      if s.ctxDone then s.returnWrite i b written before (some .context)
      else
        let room := maxPost - s.pending.length
        -- A full buffer blocks: the round is tried again.
        if room = 0 then s
        else
          let piece := (b.drop written).take room
          { s with
            pending := s.pending ++ piece
            accepted := s.accepted ++ piece
            writers := Function.update s.writers i (.writing b (written + piece.length) before) }

/-- The locked section of the upload loop. -/
def take (s : PacketConn ι α ε) : PacketConn ι α ε :=
  if s.closed ∨ s.uploadErr.isSome ∨ s.ctxDone then { s with loop := .exited }
  else if s.pending = [] then s
  else { s with pending := [], held := some s.pending, seq := s.seq + 1, loop := .taken }

/-- A POST is issued with the number that was drawn for its batch. -/
def issue (s : PacketConn ι α ε) (payload : List α) : PacketConn ι α ε :=
  { s with
    inflight := s.inflight + 1
    held := none
    posts := s.posts ++ [{ seq := s.seq - 1, payload }]
    loop := .posted (s.seq - 1) }

/-- The upload loop may go on after the POST `k`: its body is written and there is more than one
slot, or it has ended. -/
def mayProceed (maxInflight : ℕ) (s : PacketConn ι α ε) (k : ℕ) : Bool :=
  match s.post? k with
  | none => false
  | some p => (maxInflight ≠ 1 && p.wrote) || p.ended

/-- A step. -/
def step (maxPost maxInflight : ℕ) (s : PacketConn ι α ε) :
    UploadEvent ι α ε → PacketConn ι α ε
  | .write i b => match s.writers i with
    | .idle => { s with writers := Function.update s.writers i (.writing b 0 s.uploadErr) }
    | _ => s
  | .writeRound i => match s.writers i with
    | .writing b written before => s.writeRound maxPost i b written before
    | .idle => s
  | .take => match s.loop with
    | .ready => s.take
    | _ => s
  | .issue => match s.loop, s.held with
    | .taken, some payload => if s.inflight < maxInflight then s.issue payload else s
    | _, _ => s
  | .loopCancel ctxErr => match s.loop with
    | .taken | .posted _ =>
      if s.ctxDone then { s.recordError ctxErr with loop := .exited } else s
    | _ => s
  | .proceed => match s.loop with
    | .posted k => if s.mayProceed maxInflight k then { s with loop := .ready } else s
    | _ => s
  | .wrote k => s.setPost k fun p => { p with wrote := true }
  | .respond k err => match (s.post? k).map Post.state with
    | some .running => s.setPost k fun p =>
        { p with state := match err with
            | none => .ending
            | some e => .failed e }
    | _ => s
  | .abort k => match (s.post? k).map Post.state with
    | some (.failed e) => (s.recordError e).setPost k fun p => { p with state := .ending }
    | _ => s
  | .finish k => match (s.post? k).map Post.state with
    | some .ending =>
      { s.setPost k (fun p => { p with state := .ended }) with inflight := s.inflight - 1 }
    | _ => s
  | .downloadFail e => { s with uploadErr := s.uploadErr.or (some e) }
  | .cancel => { s with ctxDone := true }
  | .close => { s with closed := true }

variable {s : PacketConn ι α ε} {maxPost maxInflight : ℕ} {before : Option ε} {b : List α}

variable {w : ℕ} {i : ι}

open PacketConn Post

/-- The case rule of a round of `Write`. -/
theorem writeRound_cases {P : PacketConn ι α ε → Prop}
    (ret : ∀ err, (err = none → b.length ≤ w) → P (s.returnWrite i b w before err)) (full : P s)
    (appended : ∀ piece, piece = (b.drop w).take (maxPost - s.pending.length) → s.closed = false →
      s.uploadErr = none → P { s with
        pending := s.pending ++ piece
        accepted := s.accepted ++ piece
        writers := update s.writers i (.writing b (w + piece.length) before) }) :
    P (s.writeRound maxPost i b w before) := by
  unfold writeRound
  by_cases hd : b.length ≤ w
  · rw [if_pos hd]
    exact ret none fun _ => hd
  rw [if_neg hd]
  by_cases hcl : s.closed = true
  · rw [if_pos hcl]
    exact ret _ nofun
  rw [if_neg hcl]
  cases he : s.uploadErr with
  | some e => exact ret _ nofun
  | none =>
    dsimp only
    split_ifs
    · exact ret _ nofun
    · exact full
    · simpa only [he] using appended _ rfl (by simpa using hcl) he

/-! ### The invariant -/

/-- The POSTs whose response is outstanding. -/
def outstanding (s : PacketConn ι α ε) : ℕ := s.posts.countP fun p => !p.ended

/-- The result of a `Write` that was called after the failure `e` was recorded. -/
def WriteResult.After (r : WriteResult α ε) (e : ε) : Prop :=
  r.written = 0 ∧
    (r.bytes = [] ∧ r.err = none ∨
      r.bytes ≠ [] ∧ r.err = if r.closed then some .closed else some (.upload e))

/-- The invariant of an upload stream. -/
structure Inv (maxPost maxInflight : ℕ) (s : PacketConn ι α ε) : Prop where
  numbers : s.posts.map Post.seq = List.range s.posts.length
  drawn : s.seq = s.posts.length + if s.held.isSome then 1 else 0
  stream : s.accepted = (s.posts.map Post.payload).flatten ++ s.held.getD [] ++ s.pending
  sizes : ∀ p ∈ s.posts, p.payload ≠ [] ∧ p.payload.length ≤ maxPost
  held_size : ∀ b, s.held = some b → b ≠ [] ∧ b.length ≤ maxPost
  pending_size : s.pending.length ≤ maxPost
  held_loop : s.held.isSome → s.loop = .taken ∨ s.loop = .exited
  slots : s.outstanding ≤ s.inflight ∧ s.inflight ≤ maxInflight
  writing : ∀ i b w e, s.writers i = .writing b w (some e) → s.uploadErr = some e ∧ w = 0
  results : ∀ r ∈ s.results, ∀ e, r.before = some e → WriteResult.After r e

variable {f : Post α ε → Post α ε}

omit [DecidableEq ι] in
theorem Inv.posts {s s' : PacketConn ι α ε} (h : Inv maxPost maxInflight s)
    (hf : ∀ p, (f p).seq = p.seq ∧ (f p).payload = p.payload) (hpo : s'.posts = s.posts.map f)
    (hs : s'.outstanding ≤ s'.inflight ∧ s'.inflight ≤ maxInflight)
    (hre : s'.seq = s.seq ∧ s'.held = s.held ∧ s'.accepted = s.accepted ∧
      s'.pending = s.pending ∧ s'.loop = s.loop ∧ s'.writers = s.writers ∧ s'.results = s.results)
    (he : ∀ e, s.uploadErr = some e → s'.uploadErr = some e) : Inv maxPost maxInflight s' := by
  obtain ⟨hseq, hh, ha, hpe, hlo, hwr, hr⟩ := hre
  have hn : s'.posts.map Post.seq = s.posts.map Post.seq := by
    rw [hpo, map_map]
    exact map_congr_left fun p _ => (hf p).1
  have hpa : s'.posts.map Post.payload = s.posts.map Post.payload := by
    rw [hpo, map_map]
    exact map_congr_left fun p _ => (hf p).2
  have hl : s'.posts.length = s.posts.length := by rw [hpo, length_map]
  refine ⟨?_, ?_, ?_, ?_, ?_, ?_, ?_, hs, ?_, ?_⟩
  · rw [hn, hl]
    exact h.numbers
  · rw [hseq, hl, hh]
    exact h.drawn
  · rw [ha, hpa, hh, hpe]
    exact h.stream
  · intro p hp
    rw [hpo] at hp
    obtain ⟨q, hq, rfl⟩ := mem_map.mp hp
    rw [(hf q).2]
    exact h.sizes q hq
  · rw [hh]
    exact h.held_size
  · rw [hpe]
    exact h.pending_size
  · rw [hh, hlo]
    exact h.held_loop
  · intro i b w e hw
    rw [hwr] at hw
    exact ⟨he e (h.writing i b w e hw).1, (h.writing i b w e hw).2⟩
  · rw [hr]
    exact h.results

section

variable (h : Inv maxPost maxInflight s)

include h

omit [DecidableEq ι] in
/-- The POST with the number `k` is changed, and no POST begins anew. -/
theorem Inv.setPost (k : ℕ) (hf : ∀ p, (f p).seq = p.seq ∧ (f p).payload = p.payload)
    (hen : ∀ p, (f p).ended = false → p.ended = false) :
    Inv maxPost maxInflight (s.setPost k f) := by
  refine h.posts (f := fun p => if p.seq = k then f p else p) (fun p => ?_) rfl ⟨?_, h.slots.2⟩
    ⟨rfl, rfl, rfl, rfl, rfl, rfl, rfl⟩ fun _ he => he
  · split_ifs
    · exact hf p
    · exact ⟨rfl, rfl⟩
  · refine (countP_map_le fun p _ hp => ?_).trans h.slots.1
    simp only [Bool.not_eq_true'] at hp ⊢
    split_ifs at hp
    · exact hen p hp
    · exact hp

omit [DecidableEq ι] in
/-- `abort` records the failure. -/
theorem Inv.recordError (e : ε) : Inv maxPost maxInflight (s.recordError e) := by
  unfold PacketConn.recordError
  split_ifs with hk
  · exact h
  · refine { h with writing := fun i b w e' hw => ?_ }
    have hn : s.uploadErr = some e' := (h.writing i b w e' hw).1
    exact absurd (.inr (by simp [hn])) hk

/-- A `Write` returns. -/
theorem Inv.returnWrite {err : Option (WriteError ε)}
    (hre : ∀ e, before = some e → WriteResult.After ⟨b, w, err, before, s.closed⟩ e) :
    Inv maxPost maxInflight (s.returnWrite i b w before err) := by
  refine { h with writing := fun j b' w' e hw => ?_, results := fun r hr e he => ?_ }
  · rcases eq_or_ne j i with rfl | hne
    · simp [returnWrite] at hw
    · refine h.writing j b' w' e ?_
      simpa [PacketConn.returnWrite, update_of_ne hne] using hw
  · rcases mem_append.mp hr with hr | hr
    · exact h.results r hr e he
    · rw [mem_singleton.mp hr] at he ⊢
      exact hre e he

theorem Inv.writeRound (hi : s.writers i = .writing b w before) :
    Inv maxPost maxInflight (s.writeRound maxPost i b w before) := by
  have hp : ∀ e, before = some e → s.uploadErr = some e ∧ w = 0 := by
    rintro e rfl
    exact h.writing i b w e hi
  unfold PacketConn.writeRound
  by_cases hd : b.length ≤ w
  · rw [if_pos hd]
    refine h.returnWrite fun e he => ⟨(hp e he).2, .inl ⟨?_, rfl⟩⟩
    have hw := (hp e he).2
    exact length_eq_zero_iff.mp (Nat.le_zero.mp (hw ▸ hd))
  have hbs : b ≠ [] := by
    rintro rfl
    simp at hd
  rw [if_neg hd]
  cases hcl : s.closed with
  | true => exact h.returnWrite fun e he => ⟨(hp e he).2, .inr ⟨hbs, by simp [hcl]⟩⟩
  | false =>
    rw [if_neg (by simp)]
    cases her : s.uploadErr with
    | some e' =>
      refine h.returnWrite fun e he => ⟨(hp e he).2, .inr ⟨hbs, ?_⟩⟩
      have heq : e' = e := Option.some.inj (her.symm.trans (hp e he).1)
      simp [hcl, heq]
    | none =>
      -- Nothing is recorded, so nothing was recorded when the write was called.
      have hno : ∀ e, before ≠ some e := fun e he => by
        have hs := (hp e he).1
        rw [her] at hs
        cases hs
      dsimp only
      by_cases hc : s.ctxDone = true
      · rw [if_pos hc]
        exact h.returnWrite fun e he => absurd he (hno e)
      rw [if_neg hc]
      split_ifs with hr
      · exact h
      · refine ⟨h.numbers, h.drawn, ?_, h.sizes, h.held_size, ?_, h.held_loop, h.slots,
          fun j b' w' e hw => ?_, h.results⟩
        · simp [h.stream]
        · simp only [length_append, length_take]
          have := h.pending_size
          omega
        · rcases eq_or_ne j i with rfl | hne
          · simp only [update_self, Writer.writing.injEq] at hw
            exact absurd hw.2.2 (hno e)
          · dsimp only at hw
            rw [update_of_ne hne] at hw
            have hs := (h.writing j b' w' e hw).1
            rw [her] at hs
            cases hs

omit [DecidableEq ι] in
theorem Inv.take (hl : s.loop = .ready) : Inv maxPost maxInflight s.take := by
  have hh : s.held = none := by
    by_contra hs
    have := h.held_loop (Option.isSome_iff_ne_none.mpr hs)
    simp [hl] at this
  unfold PacketConn.take
  split_ifs with hst he
  · exact { h with held_loop := fun _ => .inr rfl }
  · exact h
  · refine ⟨h.numbers, ?_, ?_, h.sizes, ?_, Nat.zero_le _, fun _ => .inl rfl, h.slots, h.writing,
      h.results⟩
    · simp [h.drawn, hh]
    · simp [h.stream, hh]
    · rintro b ⟨⟩
      exact ⟨he, h.pending_size⟩

omit [DecidableEq ι] in
theorem Inv.issue {payload : List α} (hh : s.held = some payload)
    (hs : s.inflight < maxInflight) : Inv maxPost maxInflight (s.issue payload) := by
  have hseq : s.seq = s.posts.length + 1 := by simp [h.drawn, hh]
  refine ⟨?_, ?_, ?_, fun p hp => ?_, by simp [PacketConn.issue], h.pending_size,
    by simp [PacketConn.issue], ⟨?_, hs⟩, h.writing, h.results⟩
  · simp [PacketConn.issue, h.numbers, range_succ, hseq]
  · simp [PacketConn.issue, hseq]
  · simp [PacketConn.issue, h.stream, hh]
  · rcases mem_append.mp hp with hp | hp
    · exact h.sizes p hp
    · rw [mem_singleton.mp hp]
      exact h.held_size payload hh
  · have hsl := h.slots.1
    simp only [PacketConn.issue, outstanding, countP_append, countP_singleton] at hsl ⊢
    split_ifs <;> omega

omit [DecidableEq ι] in
theorem Inv.eq_of_seq {p q : Post α ε} (hp : p ∈ s.posts) (hq : q ∈ s.posts) (heq : p.seq = q.seq) :
    p = q := by
  have hnd : (s.posts.map Post.seq).Nodup := by
    rw [h.numbers]
    exact nodup_range
  exact inj_on_of_nodup_map hnd hp hq heq

end

variable {k : ℕ} {x : PostState ε}

omit [DecidableEq ι] in
theorem post?_state (h : (s.post? k).map state = some x) :
    ∃ p ∈ s.posts, p.seq = k ∧ p.state = x := by
  obtain ⟨p, hp, hx⟩ := Option.map_eq_some_iff.mp h
  exact ⟨p, mem_of_find?_eq_some hp, by simpa using find?_some hp, hx⟩

section

variable (h : Inv maxPost maxInflight s)

include h

omit [DecidableEq ι] in
theorem Inv.setPost_state (hpo : (s.post? k).map state = some x)
    (hx : (⟨0, [], false, x⟩ : Post α ε).ended = false) (y : PostState ε) :
    Inv maxPost maxInflight (s.setPost k fun p => { p with state := y }) := by
  obtain ⟨p, hp, rfl, rfl⟩ := post?_state hpo
  refine h.posts (f := fun q => if q.seq = p.seq then { q with state := y } else q) (fun q => ?_)
    rfl ⟨?_, h.slots.2⟩ ⟨rfl, rfl, rfl, rfl, rfl, rfl, rfl⟩ fun _ he => he
  · split_ifs <;> exact ⟨rfl, rfl⟩
  · refine (countP_map_le fun q hq hc => ?_).trans h.slots.1
    by_cases heq : q.seq = p.seq
    · rw [h.eq_of_seq hq hp heq]
      simpa [ended] using hx
    · rwa [if_neg heq] at hc

omit [DecidableEq ι] in
theorem Inv.finishPost (hpo : (s.post? k).map state = some .ending) :
    Inv maxPost maxInflight
      { s.setPost k (fun p => { p with state := .ended }) with inflight := s.inflight - 1 } := by
  obtain ⟨p, hp, rfl, hs⟩ := post?_state hpo
  refine h.posts (f := fun q => if q.seq = p.seq then { q with state := .ended } else q)
    (fun q => ?_) rfl ⟨?_, (Nat.sub_le _ _).trans h.slots.2⟩ ⟨rfl, rfl, rfl, rfl, rfl, rfl, rfl⟩
    fun _ he => he
  · split_ifs <;> exact ⟨rfl, rfl⟩
  · refine Nat.le_sub_one_of_lt (lt_of_lt_of_le
      (countP_map_lt (b := p) (fun q _ hc => ?_) hp ?_ ?_) h.slots.1)
    · split_ifs at hc
      · simp [ended] at hc
      · exact hc
    · simp [ended, hs]
    · simp [ended]

theorem Inv.step (e : UploadEvent ι α ε) :
    Inv maxPost maxInflight (s.step maxPost maxInflight e) := by
  cases e with
  | write i b =>
    simp only [PacketConn.step]
    split
    · refine { h with writing := fun j b' w' e hw => ?_ }
      rcases eq_or_ne j i with rfl | hne
      · simp only [update_self, Writer.writing.injEq] at hw
        exact ⟨hw.2.2, hw.2.1.symm⟩
      · exact h.writing j b' w' e (by simpa [update_of_ne hne] using hw)
    · exact h
  | writeRound i =>
    simp only [PacketConn.step]
    split
    · next b w before hi => exact h.writeRound hi
    · exact h
  | take =>
    simp only [PacketConn.step]
    split
    · next hl => exact h.take hl
    · exact h
  | issue =>
    simp only [PacketConn.step]
    split
    · next payload _ hh =>
      split_ifs with hsl
      · exact h.issue hh hsl
      · exact h
    · exact h
  | loopCancel ctxErr =>
    have he : ∀ s : PacketConn ι α ε, Inv maxPost maxInflight s →
        Inv maxPost maxInflight { s with loop := .exited } := fun s h =>
      { h with held_loop := fun _ => .inr rfl }
    simp only [PacketConn.step]
    split
    case h_3 => exact h
    all_goals
      split_ifs
      · exact he _ (h.recordError ctxErr)
      · exact h
  | proceed =>
    simp only [PacketConn.step]
    split
    · next k hl =>
      split_ifs
      · refine { h with held_loop := fun hs => ?_ }
        have := h.held_loop hs
        simp [hl] at this
      · exact h
    · exact h
  | wrote k => exact h.setPost k (fun _ => ⟨rfl, rfl⟩) fun _ hp => hp
  | respond k err =>
    simp only [PacketConn.step]
    split
    · next hpo => exact h.setPost_state hpo rfl _
    · exact h
  | abort k =>
    simp only [PacketConn.step]
    split
    · next e hpo =>
      have hp' : ((s.recordError e).post? k).map Post.state = some (.failed e) := by
        unfold PacketConn.recordError
        split_ifs <;> exact hpo
      exact (h.recordError e).setPost_state hp' rfl _
    · exact h
  | finish k =>
    simp only [PacketConn.step]
    split
    · next hpo => exact h.finishPost hpo
    · exact h
  | downloadFail e =>
    refine { h with writing := fun i b w e' hw => ?_ }
    obtain ⟨herr, h0⟩ := h.writing i b w e' hw
    exact ⟨by simp [PacketConn.step, herr], h0⟩
  | cancel | close => exact { h with }

end

/-! ### Runs -/

omit [DecidableEq ι] in
theorem recordError_failed {e : ε} (h : s.uploadErr = some e) (e' : ε) : s.recordError e' = s := by
  unfold recordError
  exact if_pos (.inr (by simp [h]))

theorem step_failed {e : ε} (h : s.uploadErr = some e) (ev : UploadEvent ι α ε) :
    (s.step maxPost maxInflight ev).uploadErr = some e ∧
      (s.step maxPost maxInflight ev).seq = s.seq := by
  have hwr : ∀ i b w before, (s.writeRound maxPost i b w before).uploadErr = some e ∧
      (s.writeRound maxPost i b w before).seq = s.seq := by
    intro i b w before
    refine writeRound_cases (P := fun s' => s'.uploadErr = some e ∧ s'.seq = s.seq)
      (fun _ _ => ⟨h, rfl⟩) ⟨h, rfl⟩ fun _ _ _ hn => ?_
    cases h.symm.trans hn
  have ht : s.take.uploadErr = some e ∧ s.take.seq = s.seq := by
    have hs : s.closed = true ∨ s.uploadErr.isSome = true ∨ s.ctxDone = true :=
      .inr (.inl (by simp [h]))
    rw [take, if_pos hs]
    exact ⟨h, rfl⟩
  cases ev with
  | writeRound i =>
    simp only [step]
    split
    · exact hwr _ _ _ _
    · exact ⟨h, rfl⟩
  | take =>
    simp only [step]
    split
    · exact ht
    · exact ⟨h, rfl⟩
  | loopCancel ctxErr =>
    simp only [step, recordError_failed h]
    split <;> first | exact ⟨h, rfl⟩ | (split_ifs <;> exact ⟨h, rfl⟩)
  | issue | proceed =>
    simp only [step]
    split
    · split_ifs <;> exact ⟨h, rfl⟩
    · exact ⟨h, rfl⟩
  | abort k =>
    simp only [step, recordError_failed h]
    split <;> exact ⟨h, rfl⟩
  | downloadFail e' => exact ⟨by simp [step, h], rfl⟩
  | write | respond | finish =>
    simp only [step]
    split <;> exact ⟨h, rfl⟩
  | wrote k | cancel | close => exact ⟨h, rfl⟩

omit [DecidableEq ι] in
theorem inv_initial (maxPost maxInflight : ℕ) :
    Inv maxPost maxInflight ({} : PacketConn ι α ε) := by
  constructor <;> simp [outstanding]

/-- In every run: the POSTs carry the numbers `0, 1, 2, …`, each once and in this order; no payload
is empty or longer than `maxPost`; at most `maxInflight` POSTs are outstanding; the payloads are a
prefix of the accepted bytes; once a failure is recorded it stays and no further number is drawn;
and a `Write` that is called afterwards accepts nothing and returns the failure, unless it is empty,
which returns no error, or the stream is closed before it returns. -/
theorem upload_stream (maxPost maxInflight : ℕ) (events : ℕ → UploadEvent ι α ε) (n : ℕ) :
    let s := run (step maxPost maxInflight) {} events n
    s.posts.map Post.seq = List.range s.posts.length ∧
    (∀ p ∈ s.posts, p.payload ≠ [] ∧ p.payload.length ≤ maxPost) ∧
    s.outstanding ≤ maxInflight ∧
    (s.posts.map Post.payload).flatten <+: s.accepted ∧
    (∀ t ≤ n, ∀ e, (run (step maxPost maxInflight) {} events t).uploadErr = some e →
      s.uploadErr = some e ∧ s.seq = (run (step maxPost maxInflight) {} events t).seq) ∧
    ∀ r ∈ s.results, ∀ e, r.before = some e → WriteResult.After r e := by
  intro s
  have hi : Inv maxPost maxInflight s :=
    run_invariant (inv_initial maxPost maxInflight) (fun s e h => h.step e) n
  refine ⟨hi.numbers, hi.sizes, hi.slots.1.trans hi.slots.2, ?_, fun t ht e he => ?_, hi.results⟩
  · exact ⟨s.held.getD [] ++ s.pending, by rw [hi.stream, append_assoc]⟩
  · refine run_preserved (P := fun _ (s' : PacketConn ι α ε) => s'.uploadErr = some e ∧
      s'.seq = (run (step maxPost maxInflight) {} events t).seq) ht ⟨he, rfl⟩ ?_
    intro t' _ _ ⟨her, hs⟩
    obtain ⟨he', hs'⟩ := step_failed her (events t')
    exact ⟨he', hs'.trans hs⟩

/-- No accepted byte is lost or sent twice, whoever writes it: it is in a POST, in the batch that
waits for a slot or in the buffer, in this order. A number is drawn for nothing else, the buffer
stays within `maxPost`, and every POST that has not ended has its slot. -/
theorem accepted_run (maxPost maxInflight : ℕ) (events : ℕ → UploadEvent ι α ε) (n : ℕ) :
    let s := run (step maxPost maxInflight) {} events n
    s.accepted = (s.posts.map Post.payload).flatten ++ s.held.getD [] ++ s.pending ∧
    s.seq = s.posts.length + (if s.held.isSome then 1 else 0) ∧
    s.pending.length ≤ maxPost ∧ s.outstanding ≤ s.inflight ∧ s.inflight ≤ maxInflight := by
  intro s
  have h : Inv maxPost maxInflight s :=
    run_invariant (inv_initial maxPost maxInflight) (fun _ e h => h.step e) n
  exact ⟨h.stream, h.drawn, h.pending_size, h.slots⟩

section Example

/-- The events of a finite trace, and then nothing. -/
def uploadEvents (trace : List (UploadEvent Unit ℕ String)) (n : ℕ) : UploadEvent Unit ℕ String :=
  trace.getD n (.wrote 0)

/-- Three bytes are written in batches of two; the POST of the first batch fails. -/
def failingTrace : List (UploadEvent Unit ℕ String) :=
  [.write () [1, 2, 3], .writeRound (), .take, .issue, .writeRound (), .writeRound (), .wrote 0,
    .respond 0 (some "refused"), .abort 0, .finish 0]

/-- The second batch is taken before the POST of the first one fails, and issued afterwards. -/
def takenTrace : List (UploadEvent Unit ℕ String) :=
  [.write () [1, 2, 3], .writeRound (), .take, .issue, .writeRound (), .wrote 0, .proceed, .take,
    .respond 0 (some "refused"), .abort 0, .issue]

/-- The state after a trace, with batches of two bytes and two slots. -/
def uploadRun (trace : List (UploadEvent Unit ℕ String)) : PacketConn Unit ℕ String :=
  run (step 2 2) {} (uploadEvents trace) trace.length

theorem upload_stream_example :
    let s := uploadRun (failingTrace ++ [.write () [4], .writeRound ()])
    s.posts.map Post.payload = [[1, 2]] ∧ s.uploadErr = some "refused" ∧
      s.seq = (uploadRun failingTrace).seq ∧
      (s.posts.map Post.payload).flatten <+: s.accepted := by
  have h := upload_stream 2 2 (uploadEvents (failingTrace ++ [.write () [4], .writeRound ()])) 12
  exact ⟨by decide, by decide, (h.2.2.2.2.1 10 (by decide) "refused" (by decide)).2, h.2.2.2.1⟩

/-- After the failure is recorded, an empty `Write` returns no error, and after `Close` a `Write`
returns `net.ErrClosed`. A batch that was taken before is still posted. -/
theorem write_after_failure :
    (uploadRun failingTrace).uploadErr = some "refused" ∧
    (uploadRun (failingTrace ++ [.write () [], .writeRound ()])).results.getLast? =
      some ⟨[], 0, none, some "refused", false⟩ ∧
    (uploadRun (failingTrace ++ [.close, .write () [4], .writeRound ()])).results.getLast? =
      some ⟨[4], 0, some .closed, some "refused", true⟩ ∧
    (uploadRun (takenTrace.take 10)).uploadErr = some "refused" ∧
    (uploadRun (takenTrace.take 10)).posts.length = 1 ∧
    (uploadRun takenTrace).posts.map Post.payload = [[1, 2], [3]] := by
  decide

end Example

end PacketConn

end SingBox.XHTTP
