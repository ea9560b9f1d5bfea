import Mathlib

/-!
# Readers of byte streams

A reader takes a value off the front of a byte stream, or fails with a message. The relation
`Reads r bytes a` says that `r` returns `a` from any stream that starts with `bytes`, and leaves
exactly what follows them; it composes along the structure of a reader, so that a decoder is
checked against its encoder part by part.

## Main results

* `Reads.bind`, `Reads.bind_pure`, `Reads.map`, `Reads.many`: the composition rules.
* `reads_uvarint`, `ofBigEndian_bigEndian`: the codings of numbers.
-/

namespace SingBox.Foundation

open List

/-- A reader returns a value and the rest of the stream, or an error. -/
abbrev Reader := StateT (List UInt8) (Except String)

variable {α β : Type}

/-- One byte. -/
def readByte : Reader UInt8 := fun input => match input with
  | [] => .error "EOF"
  | b :: rest => .ok (b, rest)

/-- Exactly `n` bytes. -/
def readFull (n : ℕ) : Reader (List UInt8) := fun input =>
  if n ≤ input.length then .ok (input.take n, input.drop n)
  else .error (if input.isEmpty then "EOF" else "unexpected EOF")

/-- A reader with another text for its errors. -/
def mapError (f : String → String) (r : Reader α) : Reader α := fun input =>
  (r input).mapError f

/-- `n` rounds of a reader; the error of round `i` is passed through `wrap i`. -/
def readMany (wrap : ℕ → String → String) (r : Reader α) : (n : ℕ) → (i : ℕ) → Reader (List α)
  | 0, _ => pure []
  | n + 1, i => do
    let a ← mapError (wrap i) r
    let as ← readMany wrap r n (i + 1)
    pure (a :: as)

/-- A natural in groups of seven bits, the lowest first. -/
def putUvarint (n : ℕ) : List UInt8 :=
  if n < 128 then [UInt8.ofNat n] else UInt8.ofNat (n % 128 + 128) :: putUvarint (n / 128)

/-- The loop of `readUvarint`: `i` groups have been read, with the value `x`. -/
def readUvarintFrom (i x : ℕ) : Reader ℕ := fun input => match input with
  | [] => .error (if i = 0 then "EOF" else "unexpected EOF")
  | b :: rest =>
    if b.toNat < 128 then .ok (x + b.toNat * 128 ^ i, rest)
    else readUvarintFrom (i + 1) (x + (b.toNat - 128) * 128 ^ i) rest

/-- The natural that `putUvarint` writes. -/
def readUvarint : Reader ℕ := readUvarintFrom 0 0

/-- The lowest `w` bytes of a natural, the highest first. -/
def bigEndian : (w : ℕ) → ℕ → List UInt8
  | 0, _ => []
  | w + 1, n => bigEndian w (n / 256) ++ [UInt8.ofNat n]

/-- The natural with the given bytes, the highest first. -/
def ofBigEndian (bytes : List UInt8) : ℕ := bytes.foldl (fun n b => n * 256 + b.toNat) 0

/-- The output of writers that run one after the other, up to the first error. -/
def concatAll : List (Except String (List UInt8)) → Except String (List UInt8)
  | [] => .ok []
  | .error e :: _ => .error e
  | .ok bytes :: parts => (concatAll parts).map (bytes ++ ·)

/-! ### What a reader makes of given bytes -/

/-- `r` returns `a` from every stream that starts with `bytes`, and leaves what follows them. -/
def Reads (r : Reader α) (bytes : List UInt8) (a : α) : Prop :=
  ∀ rest, r (bytes ++ rest) = .ok (a, rest)

namespace Reads

variable {r : Reader α} {bytes : List UInt8} {a : α}

theorem pure (a : α) : Reads (Pure.pure a : Reader α) [] a := fun _ => rfl

/-- The reader after `r` is run with what `r` returns, on what `r` leaves. -/
theorem run_bind (h : Reads r bytes a) (f : α → Reader β) (rest : List UInt8) :
    (r >>= f) (bytes ++ rest) = f a rest := by
  change (r (bytes ++ rest)).bind _ = _
  rw [h]
  rfl

theorem bind {f : α → Reader β} {bytes' : List UInt8} {b : β} (h : Reads r bytes a)
    (h' : Reads (f a) bytes' b) : Reads (r >>= f) (bytes ++ bytes') b := by
  intro rest
  rw [append_assoc, h.run_bind, h']

theorem bind_pure (f : α → β) (h : Reads r bytes a) :
    Reads (r >>= fun a => Pure.pure (f a)) bytes (f a) := by
  have := h.bind (f := fun a => Pure.pure (f a)) (Reads.pure (f a))
  rwa [append_nil] at this

theorem map (f : α → β) (h : Reads r bytes a) : Reads (f <$> r) bytes (f a) := h.bind_pure f

theorem mapError (f : String → String) (h : Reads r bytes a) :
    Reads (Foundation.mapError f r) bytes a := by
  intro rest
  simp only [Foundation.mapError, h rest, Except.mapError]

/-- A loop reads what its rounds read. -/
theorem many (wrap : ℕ → String → String) {parts : List (List UInt8)} {as : List α}
    (h : List.Forall₂ (Reads r) parts as) (i : ℕ) :
    Reads (readMany wrap r as.length i) parts.flatten as := by
  induction h generalizing i with
  | nil => exact Reads.pure []
  | @cons part a parts as hp _ ih =>
    exact (hp.mapError (wrap i)).bind ((ih (i + 1)).bind_pure (a :: ·))

/-- A loop that reads back a list of values, each from its own coding. -/
theorem many_map (wrap : ℕ → String → String) {put : β → List UInt8} {get : β → α} {bs : List β}
    (h : ∀ b ∈ bs, Reads r (put b) (get b)) (i : ℕ) :
    Reads (readMany wrap r bs.length i) (bs.flatMap put) (bs.map get) := by
  have ha : List.Forall₂ (Reads r) (bs.map put) (bs.map get) := by
    rw [forall₂_map_left_iff, forall₂_map_right_iff, forall₂_same]
    exact h
  have := many wrap ha i
  rwa [length_map, ← flatMap_def] at this

end Reads

theorem reads_byte (b : UInt8) : Reads readByte [b] b := fun _ => rfl

theorem reads_full {n : ℕ} {bytes : List UInt8} (h : bytes.length = n) :
    Reads (readFull n) bytes bytes := by
  intro rest
  subst h
  simp [readFull]

/-! ### Numbers -/

open Nat UInt8

theorem reads_uvarintFrom (n i x : ℕ) :
    Reads (readUvarintFrom i x) (putUvarint n) (x + n * 128 ^ i) := by
  -- the induction follows the writer, which divides by 128
  induction n using putUvarint.induct generalizing i x with
  | case1 n h =>
    intro rest
    rw [putUvarint, if_pos h]
    have hn : (ofNat n).toNat = n := by simp only [toNat_ofNat']; omega
    simp only [singleton_append, readUvarintFrom, hn, if_pos h]
  | case2 n h ih =>
    intro rest
    rw [putUvarint, if_neg h]
    have hn : (ofNat (n % 128 + 128)).toNat = n % 128 + 128 := by
      simp only [toNat_ofNat']; omega
    have hv : x + n % 128 * 128 ^ i + n / 128 * 128 ^ (i + 1) = x + n * 128 ^ i := by
      rw [pow_succ', ← mul_assoc, add_assoc, ← add_mul, mul_comm (n / 128), mod_add_div]
    simp only [cons_append, readUvarintFrom, hn]
    rw [if_neg (by omega), Nat.add_sub_cancel, ih, hv]

theorem reads_uvarint (n : ℕ) : Reads readUvarint (putUvarint n) n := by
  have := reads_uvarintFrom n 0 0
  rwa [Nat.pow_zero, Nat.mul_one, Nat.zero_add] at this

@[simp] theorem length_bigEndian (w n : ℕ) : (bigEndian w n).length = w := by
  induction w generalizing n with
  | zero => rfl
  | succ w ih => rw [bigEndian, length_append, ih, length_singleton]

@[simp] theorem ofBigEndian_bigEndian (w n : ℕ) : ofBigEndian (bigEndian w n) = n % 256 ^ w := by
  induction w generalizing n with
  | zero => simp [bigEndian, ofBigEndian, mod_one]
  | succ w ih =>
    simp only [ofBigEndian] at ih
    simp only [ofBigEndian, bigEndian, foldl_append, foldl_cons, foldl_nil, ih, toNat_ofNat']
    have hp : 256 ^ (w + 1) = 256 * 256 ^ w := pow_succ'
    rw [hp, mod_mul (x := n) (a := 256) (b := 256 ^ w)]
    omega

/-- A number that fits is read back. -/
theorem ofBigEndian_bigEndian_of_lt {n x : ℕ} (h : x < 256 ^ n) :
    ofBigEndian (bigEndian n x) = x := by
  rw [ofBigEndian_bigEndian, mod_eq_of_lt h]

/-- The high bytes are those of the quotient. -/
theorem bigEndian_add (w k n : ℕ) :
    bigEndian (w + k) n = bigEndian w (n / 256 ^ k) ++ bigEndian k n := by
  induction k generalizing n with
  | zero => rw [Nat.pow_zero, Nat.div_one, bigEndian, append_nil, Nat.add_zero]
  | succ k ih =>
    rw [← Nat.add_assoc, bigEndian, ih, bigEndian, append_assoc, Nat.pow_succ',
      Nat.div_div_eq_div_mul]

theorem foldl_bytes_lt (bytes : List UInt8) (n : ℕ) :
    bytes.foldl (fun n b => n * 256 + b.toNat) n < (n + 1) * 256 ^ bytes.length := by
  induction bytes generalizing n with
  | nil => simp
  | cons b bytes ih =>
    have hb : b.toNat < 256 := b.toNat_lt
    have hstep : n * 256 + b.toNat + 1 ≤ (n + 1) * 256 := by omega
    rw [foldl_cons, length_cons, pow_succ', ← mul_assoc]
    exact lt_of_lt_of_le (ih _) (mul_le_mul_right _ hstep)

theorem ofBigEndian_lt (bytes : List UInt8) : ofBigEndian bytes < 256 ^ bytes.length := by
  have h := foldl_bytes_lt bytes 0
  rwa [Nat.zero_add, Nat.one_mul] at h

theorem ofBigEndian_eq_zero {bytes : List UInt8} (h : ∀ b ∈ bytes, b = 0) :
    ofBigEndian bytes = 0 := by
  rw [eq_replicate_of_mem h]
  generalize bytes.length = n
  induction n with
  | zero => rfl
  | succ n ih => exact ih

/-! ### Writers -/

theorem concatAll_cons_eq_ok {part : Except String (List UInt8)}
    {parts : List (Except String (List UInt8))} {out : List UInt8}
    (h : concatAll (part :: parts) = .ok out) :
    ∃ bytes rest, part = .ok bytes ∧ concatAll parts = .ok rest ∧ bytes ++ rest = out := by
  cases part with
  | error e => simp [concatAll] at h
  | ok bytes =>
    rw [concatAll] at h
    cases hps : concatAll parts with
    | error e => simp [hps, Except.map] at h
    | ok rest =>
      rw [hps] at h
      exact ⟨bytes, rest, rfl, rfl, Except.ok.inj h⟩

end SingBox.Foundation
