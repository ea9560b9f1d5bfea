import Mathlib

/-!
# Picking a slot of the round-robin pool

A balancer has a pool of slots, each with the tag of a node. `pick` chooses a slot for a connection:
by the hash of a key if the group is sticky, and by a counter if it is not. Slots whose node failed
its last probe are skipped while there is a live one. Probes read the counter and do not move it.

The key is the string of `stickyKey`, as bytes. A slice has fewer than `2^64` elements, so the
number of live slots is a natural number.
-/

namespace SingBox.URLTest

open List

/-- `hashKey`: FNV-1a with 64 bits. -/
def hashKey (key : List UInt8) : UInt64 :=
  key.foldl (fun hash byte => (hash ^^^ byte.toUInt64) * 1099511628211) 14695981039346656037

/-- `balancer`. Of the components of `stickyHash` it matters here whether there are any. -/
structure Balancer (Tag : Type*) where
  slots : List Tag
  stickyHash : Bool
  counter : UInt64
  alive : Option (Tag → Bool)

variable {Tag Node : Type*}

/-- The second pass of `liveSlot` from the index `i` on. -/
def scanLive (alive : Tag → Bool) : List Tag → ℕ → ℕ → Option ℕ
  | [], _, _ => none
  | s :: slots, k, i =>
    if alive s then
      if k = 0 then some i else scanLive alive slots (k - 1) (i + 1)
    else scanLive alive slots k (i + 1)

def liveSlot (alive : Tag → Bool) (slots : List Tag) (k : UInt64) : Option ℕ :=
  let live := slots.countP alive
  if live = 0 then none else scanLive alive slots (k.toNat % live) 0

namespace Balancer

/-- `rotate`: the counter before it is incremented. A probe does not increment it. -/
def rotate (b : Balancer Tag) (isProbe : Bool) : UInt64 × Balancer Tag :=
  if isProbe then (b.counter, b) else (b.counter, { b with counter := b.counter + 1 })

/-- The slot that `pick` chooses for a hash. -/
def hashSlot (b : Balancer Tag) (hash : UInt64) : ℕ :=
  let n := b.slots.length
  let idx := hash.toNat % n
  match b.alive, b.slots[idx]? with
  | some alive, some tag =>
    if alive tag then idx else (liveSlot alive b.slots (hash / UInt64.ofNat n)).getD idx
  | _, _ => idx

/-- The slot that `pick` chooses for a counter. -/
def counterSlot (b : Balancer Tag) (counter : UInt64) : ℕ :=
  let idx := counter.toNat % b.slots.length
  match b.alive with
  | some alive => (liveSlot alive b.slots counter).getD idx
  | none => idx

/-- The slot that `pick` chooses, of a pool that is not empty. -/
def chooseSlot (b : Balancer Tag) (isProbe : Bool) (key : List UInt8) : ℕ × Balancer Tag :=
  if b.stickyHash then (b.hashSlot (hashKey key), b)
  else
    let (counter, b') := b.rotate isProbe
    (b.counterSlot counter, b')

def pick (b : Balancer Tag) (isProbe : Bool) (key : List UInt8) (fallback : Node)
    (resolve : Tag → Option Node) : Node × Balancer Tag :=
  if b.slots.length = 0 then (fallback, b)
  else
    let (idx, b') := b.chooseSlot isProbe key
    (((b.slots[idx]?).bind resolve).getD fallback, b')

end Balancer

/-! ### The live slots -/

/-- The indices of the live slots. -/
def liveSlots (alive : Tag → Bool) (slots : List Tag) : List ℕ :=
  (slots.zipIdx.filter fun s => alive s.1).map Prod.snd

open Balancer Nat

section

variable (alive : Tag → Bool) (slots : List Tag)

include alive slots

theorem scanLive_eq (k i : ℕ) :
    scanLive alive slots k i = (((slots.zipIdx i).filter fun s => alive s.1).map Prod.snd)[k]? := by
  induction slots generalizing k i with
  | nil => rfl
  | cons s slots ih =>
    rw [scanLive, zipIdx_cons]
    by_cases hs : alive s = true
    · rw [if_pos hs, filter_cons_of_pos (p := fun s : Tag × ℕ => alive s.1) hs, map_cons]
      cases k with
      | zero => rfl
      | succ k => rw [if_neg (Nat.succ_ne_zero k), Nat.add_sub_cancel, ih, getElem?_cons_succ]
    · rw [if_neg hs, filter_cons_of_neg (p := fun s : Tag × ℕ => alive s.1) hs, ih]

theorem length_liveSlots : (liveSlots alive slots).length = slots.countP alive := by
  have hf : slots = (slots.zipIdx).map Prod.fst := (zipIdx_map_fst 0 slots).symm
  rw [liveSlots, length_map, ← countP_eq_length_filter]
  conv_rhs => rw [hf, countP_map]
  rfl

/-- `liveSlot` indexes the list of live slots. -/
theorem liveSlot_eq (k : UInt64) : liveSlot alive slots k =
      (liveSlots alive slots)[k.toNat % (liveSlots alive slots).length]? := by
  rw [liveSlot, length_liveSlots]
  split_ifs with hl
  · rw [hl, mod_zero, getElem?_eq_none]
    rw [length_liveSlots, hl]
    exact zero_le _
  · rw [scanLive_eq]
    rfl

end

variable {alive : Tag → Bool} {slots : List Tag}

theorem mem_liveSlots {i : ℕ} :
    i ∈ liveSlots alive slots ↔ ∃ s, slots[i]? = some s ∧ alive s = true := by
  simp only [liveSlots, mem_map, mem_filter, Prod.exists, mem_zipIdx_iff_getElem?]
  constructor
  · rintro ⟨s, _, ⟨hs, ha⟩, rfl⟩
    exact ⟨s, hs, ha⟩
  · rintro ⟨s, hs, ha⟩
    exact ⟨s, i, ⟨hs, ha⟩, rfl⟩

/-- With a live slot, `liveSlot` gives one. -/
theorem liveSlot_mem (h : ∃ s ∈ slots, alive s = true) (k : UInt64) :
    ∃ i ∈ liveSlots alive slots, liveSlot alive slots k = some i := by
  obtain ⟨s, hs, ha⟩ := h
  have hpos : 0 < (liveSlots alive slots).length := by
    rw [length_liveSlots]
    exact countP_pos_iff.mpr ⟨s, hs, ha⟩
  have hlt := mod_lt k.toNat hpos
  refine ⟨(liveSlots alive slots)[k.toNat % (liveSlots alive slots).length], getElem_mem hlt, ?_⟩
  rw [liveSlot_eq, getElem?_eq_getElem hlt]

/-! ### The choice -/

namespace Balancer

variable {b : Balancer Tag} {alive : Tag → Bool}

theorem hashSlot_of_alive (hb : b.alive = some alive) {hash : UInt64} {tag : Tag}
    (hh : b.slots[hash.toNat % b.slots.length]? = some tag) (ha : alive tag) :
    b.hashSlot hash = hash.toNat % b.slots.length := by
  simp [hashSlot, hb, hh, ha]

section

variable (hb : b.alive = some alive) (h : ∃ s ∈ b.slots, alive s = true)

include hb h

theorem hashSlot_mem (hash : UInt64) : b.hashSlot hash ∈ liveSlots alive b.slots := by
  obtain ⟨s, hs, _⟩ := id h
  have hlt : hash.toNat % b.slots.length < b.slots.length := mod_lt _ (length_pos_of_mem hs)
  have hh := getElem?_eq_getElem hlt
  by_cases ha : alive (b.slots[hash.toNat % b.slots.length]) = true
  · rw [hashSlot_of_alive hb hh ha]
    exact mem_liveSlots.mpr ⟨_, hh, ha⟩
  · obtain ⟨i, hi, hl⟩ := liveSlot_mem h (hash / UInt64.ofNat b.slots.length)
    simpa only [hashSlot, hb, hh, ha, if_false, hl, Option.getD_some, Bool.false_eq_true] using hi

theorem counterSlot_mem (counter : UInt64) : b.counterSlot counter ∈ liveSlots alive b.slots := by
  obtain ⟨i, hi, hl⟩ := liveSlot_mem h counter
  simpa only [counterSlot, hb, hl, Option.getD_some] using hi

theorem chooseSlot_mem (isProbe : Bool) (key : List UInt8) :
    (b.chooseSlot isProbe key).1 ∈ liveSlots alive b.slots := by
  unfold chooseSlot
  split_ifs
  · exact hashSlot_mem hb h _
  · exact counterSlot_mem hb h _

end

/-- `pick` returns the node of the slot that was chosen. -/
theorem pick_eq {isProbe : Bool} {key : List UInt8} {fallback : Node}
    {resolve : Tag → Option Node} {tag : Tag}
    (h : b.slots[(b.chooseSlot isProbe key).1]? = some tag) :
    (b.pick isProbe key fallback resolve).1 = (resolve tag).getD fallback := by
  have hpos : b.slots.length ≠ 0 := by
    intro h0
    rw [getElem?_eq_none (by omega)] at h
    cases h
  rw [pick, if_neg hpos]
  simp [h]

/-! ### Rotation -/

/-- The slots of the production picks among picks one after the other; a pick is given by whether it
is a probe, and by its key. -/
def visited (b : Balancer Tag) : List (Bool × List UInt8) → List ℕ
  | [] => []
  | (isProbe, key) :: picks =>
    let (idx, b') := b.chooseSlot isProbe key
    if isProbe then b'.visited picks else idx :: b'.visited picks

/-- The `j`-th of the production picks goes to the live slot at the counter plus `j`, modulo the
number of live slots. -/
theorem visited_getElem? (hs : b.stickyHash = false) (hb : b.alive = some alive)
    (h : ∃ s ∈ b.slots, alive s = true) (picks : List (Bool × List UInt8))
    (hw : b.counter.toNat + picks.countP (fun p => !p.1) ≤ 2 ^ 64) (j : ℕ)
    (hj : j < picks.countP fun p => !p.1) :
    (b.visited picks)[j]? = (liveSlots alive b.slots)[(b.counter.toNat + j) %
      (liveSlots alive b.slots).length]? := by
  induction picks generalizing b j with
  | nil => simp at hj
  | cons p picks ih =>
    obtain ⟨isProbe, key⟩ := p
    cases isProbe with
    | true =>
      have hsk : b.visited ((true, key) :: picks) = b.visited picks := by
        simp [visited, chooseSlot, hs, rotate]
      rw [hsk]
      exact ih hs hb h (by simpa using hw) j (by simpa using hj)
    | false =>
      rw [countP_cons_of_pos rfl] at hw hj
      have hco : b.visited ((false, key) :: picks) = b.counterSlot b.counter ::
          visited { b with counter := b.counter + 1 } picks := by
        simp [visited, chooseSlot, hs, rotate]
      rw [hco]
      cases j with
      | zero =>
        obtain ⟨i, hi, hl⟩ := liveSlot_mem h b.counter
        rw [getElem?_cons_zero, counterSlot, hb]
        simp only [hl, Option.getD_some]
        rw [← hl, liveSlot_eq, add_zero]
      | succ j =>
        have hc : (b.counter + 1).toNat = b.counter.toNat + 1 := by
          rw [UInt64.toNat_add]
          exact mod_eq_of_lt (by simp only [UInt64.toNat_one]; omega)
        rw [getElem?_cons_succ, ih (b := { b with counter := b.counter + 1 }) hs hb h
          (by simp only [hc]; omega) j (by omega)]
        simp only [hc]
        rw [add_assoc, add_comm 1 j]

theorem length_visited (b : Balancer Tag) (picks : List (Bool × List UInt8)) :
    (b.visited picks).length = picks.countP fun p => !p.1 := by
  induction picks generalizing b with
  | nil => rfl
  | cons p picks ih =>
    obtain ⟨isProbe, key⟩ := p
    cases isProbe with
    | true => simpa [visited] using ih _
    | false => simpa [visited] using ih _

/-- As many production picks as there are live slots go once through all of them. -/
theorem visited_perm (hs : b.stickyHash = false) (hb : b.alive = some alive)
    (h : ∃ s ∈ b.slots, alive s = true) (picks : List (Bool × List UInt8))
    (hc : picks.countP (fun p => !p.1) = (liveSlots alive b.slots).length)
    (hw : b.counter.toNat + (liveSlots alive b.slots).length ≤ 2 ^ 64) :
    (b.visited picks).Perm (liveSlots alive b.slots) := by
  have hr : b.visited picks = (liveSlots alive b.slots).rotate b.counter.toNat := by
    refine ext_getElem? fun j => ?_
    by_cases hj : j < (liveSlots alive b.slots).length
    · rw [visited_getElem? hs hb h picks (by omega) j (by omega), getElem?_rotate hj, add_comm]
    · rw [getElem?_eq_none, getElem?_eq_none]
      · rw [length_rotate]
        omega
      · rw [length_visited]
        omega
  rw [hr]
  exact rotate_perm _ _

end Balancer

end SingBox.URLTest
