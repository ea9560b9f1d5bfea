import SingBox.Foundation.Reader

/-!
# Streams that are left somewhere

A `Source` reads from a byte stream like a `Reader`, but what a failed read has consumed is gone
from the stream as well. `Outcome r s P Q` says what `r` does on the stream `s`: it returns a value
and leaves a rest that satisfy `P`, or fails with a text and a rest that satisfy `Q`.

## Main results

* `Source.Outcome.bind`, `Source.outcome_readFull`: the rules for sources in sequence.
-/

namespace SingBox.Foundation

/-- A source returns a value or an error, and the rest of the stream in either case. -/
abbrev Source := ExceptT String (StateM (List UInt8))

namespace Source

variable {α β : Type}

/-- A failure that reads nothing. -/
def fail (err : String) : Source α := fun s => (.error err, s)

/-- Exactly `n` bytes; a stream that is too short is read to its end. -/
def readFull (n : ℕ) : Source (List UInt8) := fun s =>
  if n ≤ s.length then (.ok (s.take n), s.drop n)
  else (.error (if s.isEmpty then "EOF" else "unexpected EOF"), [])

/-- A source with another text for its errors. -/
def mapError (f : String → String) (r : Source α) : Source α := fun s =>
  match r s with
  | (.ok a, rest) => (.ok a, rest)
  | (.error err, rest) => (.error (f err), rest)

/-- What `r` does on the stream `s`. -/
def Outcome (r : Source α) (s : List UInt8) (P : α → List UInt8 → Prop)
    (Q : String → List UInt8 → Prop) : Prop :=
  match r s with
  | (.ok a, rest) => P a rest
  | (.error err, rest) => Q err rest

variable {r : Source α} {s : List UInt8} {P P' : α → List UInt8 → Prop}
  {Q Q' : String → List UInt8 → Prop}

theorem outcome_pure {a : α} (h : P a s) : Outcome (pure a : Source α) s P Q := h

theorem outcome_fail {err : String} (h : Q err s) : Outcome (fail err : Source α) s P Q := h

theorem outcome_readFull {n : ℕ} {P : List UInt8 → List UInt8 → Prop}
    (hok : n ≤ s.length → P (s.take n) (s.drop n))
    (he : s.length < n → Q (if s.isEmpty then "EOF" else "unexpected EOF") []) :
    Outcome (readFull n) s P Q := by
  rw [Outcome, readFull]
  by_cases h : n ≤ s.length
  · rw [if_pos h]
    exact hok h
  · rw [if_neg h]
    exact he (by omega)

/-- A read of the bytes that a stream starts with. -/
theorem outcome_readFull_append {bytes rest : List UInt8} {n : ℕ}
    {P : List UInt8 → List UInt8 → Prop} (hn : bytes.length = n) (h : P bytes rest) :
    Outcome (readFull n) (bytes ++ rest) P Q := by
  refine outcome_readFull (fun _ => ?_) fun hlt => ?_
  · rwa [List.take_left' hn, List.drop_left' hn]
  · rw [List.length_append] at hlt
    omega

theorem Outcome.mapError {f : String → String}
    (h : Outcome r s P fun err rest => Q (f err) rest) : Outcome (Source.mapError f r) s P Q := by
  rw [Outcome] at h
  rw [Outcome, Source.mapError]
  cases hr : r s with
  | mk res rest =>
    rw [hr] at h
    cases res with
    | ok a => exact h
    | error err => exact h

/-- In a sequence the second source goes on where the first has left the stream. -/
theorem Outcome.bind {f : α → Source β} {P : β → List UInt8 → Prop}
    (h : Outcome r s (fun a rest => Outcome (f a) rest P Q) Q) : Outcome (r >>= f) s P Q := by
  rw [Outcome] at h
  change match ((r >>= f : Source β) s : Except String β × List UInt8) with
    | (.ok a, rest) => P a rest
    | (.error err, rest) => Q err rest
  have hrun : (r >>= f : Source β) s = match r s with
      | (.ok a, rest) => f a rest
      | (.error err, rest) => (.error err, rest) := by
    change ExceptT.bindCont f (r s).1 (r s).2 = _
    cases hr : r s with
    | mk res rest => cases res <;> rfl
  rw [hrun]
  cases hr : r s with
  | mk res rest =>
    rw [hr] at h
    cases res with
    | ok a => exact h
    | error err => exact h

theorem Outcome.mono (h : Outcome r s P Q) (hP : ∀ a rest, P a rest → P' a rest)
    (hQ : ∀ err rest, Q err rest → Q' err rest) : Outcome r s P' Q' := by
  rw [Outcome] at h ⊢
  cases hr : r s with
  | mk res rest =>
    rw [hr] at h
    cases res with
    | ok a => exact hP a rest h
    | error err => exact hQ err rest h

/-- A source that cannot fail on a stream returns what the rules say. -/
theorem Outcome.eq_ok {a : α} {rest : List UInt8}
    (h : Outcome r s (fun a' rest' => a' = a ∧ rest' = rest) fun _ _ => False) :
    r s = (.ok a, rest) := by
  rw [Outcome] at h
  cases hr : r s with
  | mk res rest' =>
    rw [hr] at h
    cases res with
    | ok a' => rw [h.1, h.2]
    | error err => exact h.elim

end Source

end SingBox.Foundation
