import SingBox.Foundation.Reader
import SingBox.Foundation.Run

/-!
# Connections over gRPC messages

`Write` makes a message with one field of its bytes: a flag and the length of the message, the tag
of the field, the length of the bytes in groups of seven bits, and the bytes. `Read` skips the first
six of these and returns what it gets of the field. This is one direction of a connection, from
`Write` at one end to `Read` at the other. The stream between them may end anywhere.
-/

namespace SingBox.GRPCLite

open Foundation List

/-- The reading end, with what is on the way to it. -/
structure GunConn where
  /-- The bytes that the buffered reader can still get. -/
  unread : List UInt8 := []
  /-- No further bytes will come. -/
  ended : Bool := false
  readRemaining : ℕ := 0
  /-- The bytes of all calls of `Write`, and those that `Read` has returned. -/
  written : List UInt8 := []
  delivered : List UInt8 := []

inductive GunEvent
  | write (b : List UInt8)
  /-- `Read` with a buffer of `size` bytes; at most `k` bytes have come behind the next one. -/
  | read (size k : ℕ)
  /-- The stream ends behind the next `n` bytes. -/
  | cut (n : ℕ)

/-- What `Write` sends; `binary.PutUint32` drops the higher bytes of the length. -/
def message (b : List UInt8) : List UInt8 :=
  0x00 :: bigEndian 4 (1 + (putUvarint b.length).length + b.length) ++
    0x0A :: (putUvarint b.length ++ b)

/-- `Discard(6)` and `binary.ReadUvarint`. -/
def readHeader : Reader ℕ := do
  let _ ← mapError (fun _ => "EOF") (readFull 6)
  readUvarint

namespace GunConn

/-- `Read` of the buffered reader; no result if it waits. -/
def readBuffered (c : GunConn) (size k : ℕ) : Option (Except String (List UInt8)) × GunConn :=
  let bytes := c.unread.take (min size (k + 1))
  if size ≠ 0 ∧ c.unread = [] then (if c.ended then some (.error "EOF") else none, c)
  else
    (some (.ok bytes), { c with
      unread := c.unread.drop bytes.length
      readRemaining := c.readRemaining - bytes.length
      delivered := c.delivered ++ bytes })

def read (c : GunConn) (size k : ℕ) : Option (Except String (List UInt8)) × GunConn :=
  if 0 < c.readRemaining then c.readBuffered (min size c.readRemaining) k
  else
    match readHeader c.unread with
    | .ok (dataLen, rest) =>
      readBuffered { c with unread := rest, readRemaining := dataLen } (min size dataLen) k
    | .error err => if c.ended then (some (.error err), { c with unread := [] }) else (none, c)

def step (c : GunConn) : GunEvent → GunConn
  | .write b =>
    if c.ended then c else { c with unread := c.unread ++ message b, written := c.written ++ b }
  | .read size k => (c.read size k).2
  | .cut n => { c with unread := c.unread.take n, ended := true }

/-- The bytes on the way are the rest of a field and messages, of which the end may be lost. -/
structure Holds (c : GunConn) (current : List UInt8) (later : List (List UInt8))
    (lost : List UInt8) : Prop where
  unread : c.unread ++ lost = current ++ (later.map message).flatten
  remaining : current.length = c.readRemaining
  written : c.delivered ++ current ++ later.flatten = c.written
  ended : c.ended = false → lost = []

def Sound (c : GunConn) : Prop := ∃ current later lost, c.Holds current later lost

end GunConn

/-! ### The header of a message -/

variable {s rest : List UInt8} {n : ℕ}

theorem reads_readHeader (b rest : List UInt8) :
    readHeader (message b ++ rest) = .ok (b.length, b ++ rest) := by
  have h : Reads readHeader (0x00 :: bigEndian 4 (1 + (putUvarint b.length).length + b.length) ++
      [0x0A] ++ putUvarint b.length) b.length :=
    (Reads.mapError _ (reads_full (by simp))).bind (reads_uvarint _)
  simpa [message] using h (b ++ rest)

theorem readUvarintFrom_append {i x : ℕ} (t : List UInt8)
    (h : readUvarintFrom i x s = .ok (n, rest)) :
    readUvarintFrom i x (s ++ t) = .ok (n, rest ++ t) := by
  induction s generalizing i x with
  | nil => simp [readUvarintFrom] at h
  | cons b s ih =>
    simp only [readUvarintFrom, cons_append] at h ⊢
    split_ifs at h ⊢
    · simp_all
    · exact ih h

/-- A header that has come is the same in a longer stream. -/
theorem readHeader_append (t : List UInt8) (h : readHeader s = .ok (n, rest)) :
    readHeader (s ++ t) = .ok (n, rest ++ t) := by
  have hr (s : List UInt8) : readHeader s =
      if 6 ≤ s.length then readUvarintFrom 0 0 (s.drop 6) else .error "EOF" := by
    by_cases h6 : 6 ≤ s.length <;>
      simp [readHeader, mapError, readFull, h6, readUvarint, bind, Except.bind, Except.mapError,
        StateT.bind]
  rw [hr] at h ⊢
  split_ifs at h with h6
  rw [if_pos (by simp; omega), drop_append_of_le_length h6]
  exact readUvarintFrom_append t h

/-! ### Runs -/

namespace GunConn

variable {c : GunConn} {current lost : List UInt8} {later : List (List UInt8)}

theorem Holds.readBuffered (h : c.Holds current later lost) {size : ℕ}
    (hs : size ≤ c.readRemaining) (k : ℕ) : (c.readBuffered size k).2.Sound := by
  simp only [GunConn.readBuffered]
  split
  · exact ⟨current, later, lost, h⟩
  · generalize hb : c.unread.take (min size (k + 1)) = bytes
    have hp : bytes <+: c.unread := hb ▸ take_prefix _ _
    have hc : current <+: c.unread ++ lost := h.unread ▸ prefix_append _ _
    obtain ⟨rest, rfl⟩ : bytes <+: current := by
      refine prefix_of_prefix_length_le (hp.trans (prefix_append _ lost)) hc ?_
      rw [← hb, length_take, h.remaining]
      omega
    have hu := congrArg (drop bytes.length) h.unread
    rw [drop_append_of_le_length hp.length_le, append_assoc, drop_left] at hu
    exact ⟨rest, later, lost, hu, by simp [← h.remaining], by simpa using h.written, h.ended⟩

/-- Between two messages the header that is read is that of the next one. -/
theorem Holds.exists_next (h : c.Holds [] later lost) (hr : readHeader c.unread = .ok (n, rest)) :
    ∃ b others, later = b :: others ∧ b.length = n ∧
      rest ++ lost = b ++ (others.map message).flatten := by
  have ha := readHeader_append lost hr
  rw [h.unread, nil_append] at ha
  cases later with
  | nil => cases ha
  | cons b others =>
    rw [map_cons, flatten_cons, reads_readHeader, Except.ok.injEq, Prod.mk.injEq] at ha
    exact ⟨b, others, rfl, ha.1, ha.2.symm⟩

theorem Holds.read (h : c.Holds current later lost) (size k : ℕ) : (c.read size k).2.Sound := by
  unfold GunConn.read
  split
  · exact h.readBuffered (min_le_right _ _) k
  next h0 =>
  obtain rfl : current = [] := length_eq_zero_iff.mp (h.remaining.trans (by omega))
  split
  · next dataLen rest hr =>
    obtain ⟨b, others, rfl, rfl, hrest⟩ := h.exists_next hr
    have hn : Holds { c with unread := rest, readRemaining := b.length } b others lost :=
      ⟨hrest, rfl, by simpa using h.written, h.ended⟩
    exact hn.readBuffered (min_le_right _ _) k
  · split
    · next he => exact ⟨[], later, _, rfl, h.remaining, h.written, by simp [he]⟩
    · exact ⟨[], later, lost, h⟩

theorem Sound.step (h : c.Sound) (e : GunEvent) : (c.step e).Sound := by
  obtain ⟨current, later, lost, h⟩ := h
  cases e with
  | write b =>
    simp only [GunConn.step]
    split
    · exact ⟨current, later, lost, h⟩
    · next he =>
      obtain rfl := h.ended (by simpa using he)
      have hu : c.unread = _ := (append_nil _).symm.trans h.unread
      exact ⟨current, later ++ [b], [], by simp [hu], h.remaining, by simp [← h.written], by simp⟩
  | read size k => exact h.read size k
  | cut n =>
    refine ⟨current, later, c.unread.drop n ++ lost, ?_, h.remaining, h.written,
      by simp [GunConn.step]⟩
    rw [← h.unread, ← append_assoc]
    exact congrArg (· ++ lost) (take_append_drop n c.unread)

theorem length_readBuffered_le (c : GunConn) (size k : ℕ) :
    (c.readBuffered size k).2.unread.length ≤ c.unread.length := by
  simp only [GunConn.readBuffered]
  split
  · exact le_rfl
  · simp

/-- A `Read` takes something from the stream: of the field, or at least the header. -/
theorem Holds.length_read_lt (h : c.Holds current later lost) {size : ℕ} (hs : size ≠ 0) (k : ℕ)
    (hu : c.unread ≠ []) : (c.read size k).2.unread.length < c.unread.length := by
  have hpos : 0 < c.unread.length := length_pos_iff.mpr hu
  unfold GunConn.read
  split
  · simp only [GunConn.readBuffered, hu, and_false, if_false, length_drop, length_take]
    omega
  next h0 =>
  obtain rfl : current = [] := length_eq_zero_iff.mp (h.remaining.trans (by omega))
  split
  · next dataLen rest hr =>
    refine (length_readBuffered_le _ _ _).trans_lt ?_
    obtain ⟨b, others, rfl, -, hrest⟩ := h.exists_next hr
    have hl := congrArg length h.unread
    have hl' := congrArg length hrest
    simp [message] at hl hl'
    change rest.length < _
    omega
  · next err hr =>
    split
    · exact hpos
    · next he =>
      -- nothing is lost, so that the header of the next message is there
      have hm := h.unread
      rw [h.ended (by simpa using he), append_nil, nil_append] at hm
      cases later with
      | nil => exact absurd hm hu
      | cons b others =>
        rw [hm, map_cons, flatten_cons, reads_readHeader] at hr
        cases hr

/-- **What is written arrives, in order and once.** `Read` has returned a beginning of what was
written, also if the stream is cut off; otherwise it has returned all of it when nothing is left to
read, and each call with a buffer leaves less. -/
theorem delivered_run (events : ℕ → GunEvent) (n : ℕ) :
    let c := run step {} events n
    c.delivered <+: c.written ∧ (c.ended = false → c.unread = [] → c.delivered = c.written) ∧
    ∀ size k, size ≠ 0 → c.unread ≠ [] → (c.read size k).2.unread.length < c.unread.length := by
  intro c
  obtain ⟨current, later, lost, h⟩ : c.Sound :=
    run_invariant (P := Sound) ⟨[], [], [], rfl, rfl, rfl, fun _ => rfl⟩ (fun _ e h => h.step e) n
  refine ⟨⟨current ++ later.flatten, by rw [← append_assoc, h.written]⟩, fun he hu => ?_,
    fun size k h0 => h.length_read_lt h0 k⟩
  have hn : current = [] ∧ later = [] := by
    have hm := h.unread
    rw [hu, h.ended he] at hm
    cases later <;> simp_all [message]
  simpa [hn] using h.written

end GunConn

end SingBox.GRPCLite
