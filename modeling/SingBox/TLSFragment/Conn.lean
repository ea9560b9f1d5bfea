import SingBox.TLSFragment.Index

/-!
# Fragmenting connections

The first `Write` of a fragmenting connection looks for the server name of a ClientHello and cuts
the bytes inside its labels, one cut in every label, at a random place. The parts are written one by
one, or each as a record of its own, or both.
-/

namespace SingBox.TLSFragment

open Foundation List

/-- What is done to the underlying connection. -/
inductive Prog
  | returns (n : ℕ)
  | panics
  | diverges
  | setNoDelay (noDelay : Bool) (next : Prog)
  | write (bytes : List UInt8) (next : Prog)

/-- How a write ends, with the bytes that have been written. -/
inductive Outcome
  | returns (n : ℕ) (written : List UInt8)
  | fails (written : List UInt8)
  | panics
  | diverges
deriving DecidableEq, Repr

/-- The outcome, given which of the operations succeed. -/
def Prog.perform (ok : ℕ → Bool) : ℕ → Prog → List UInt8 → Outcome
  | _, .returns n, written => .returns n written
  | _, .panics, _ => .panics
  | _, .diverges, _ => .diverges
  | k, .setNoDelay _ next, written =>
    if ok k then perform ok (k + 1) next written else .fails written
  | k, .write bytes next, written =>
    if ok k then perform ok (k + 1) next (written ++ bytes) else .fails written

/-- A connection that fragments packets or records. -/
structure Conn where
  /-- The underlying connection is a TCP connection. -/
  tcpConn : Bool
  firstPacketWritten : Bool
  splitPacket : Bool
  splitRecord : Bool
  fragments : splitPacket ∨ splitRecord

/-- A new connection. The router makes one only to split packets or records. -/
def newConn (tcpConn splitPacket splitRecord : Bool) (h : splitPacket ∨ splitRecord) : Conn where
  tcpConn := tcpConn
  firstPacketWritten := false
  splitPacket := splitPacket
  splitRecord := splitRecord
  fragments := h

/-- `b[i:j]`. The upper bound is the capacity of the slice, with the `spare` bytes behind it. -/
def slice (b spare : List UInt8) (i j : ℕ) : Option (List UInt8) :=
  if i ≤ j ∧ j ≤ (b ++ spare).length then some (((b ++ spare).take j).drop i) else none

/-- `b[i:]`. -/
def sliceFrom (b : List UInt8) (i : ℕ) : Option (List UInt8) :=
  if i ≤ b.length then some (b.drop i) else none

/-- The labels that are cut, and the index of the first. With a public suffix only the first label
is. -/
def labels (publicSuffix : List UInt8 → List UInt8) (name : MyServerName) :
    ℕ × List (List UInt8) :=
  let all := name.serverName.splitOn 46
  let splits :=
    if publicSuffix name.serverName ≠ [] then
      all.take (all.length - name.serverName.count 46)
    else all
  if 1 < splits.length ∧ splits.head? = some [46, 46, 46] then
    (name.index + 3 + 1, splits.drop 1)
  else (name.index, splits)

/-- The cut indexes. `draws` are the random numbers: `rand.Intn` gives one below its argument, and
panics if that is zero. -/
def splitIndexes (draws : ℕ → ℕ) : ℕ → ℕ → List (List UInt8) → Option (List ℕ)
  | _, _, [] => some []
  | i, currentIndex, split :: splits =>
    if split = [] then none
    else
      let next := currentIndex + split.length + if splits = [] then 0 else 1
      (splitIndexes draws (i + 1) next splits).map ((currentIndex + draws i % split.length) :: ·)

/-- The parts behind a cut. -/
def partsFrom (b spare : List UInt8) : ℕ → List ℕ → List (Option (List UInt8))
  | last, [] => [sliceFrom b last]
  | last, i :: indexes => slice b spare last i :: partsFrom b spare i indexes

/-- The payloads: the parts, the first without the record header if records are split. -/
def payloads (c : Conn) (b spare : List UInt8) : List ℕ → List (Option (List UInt8))
  | [] => [none]
  | i :: indexes =>
    (slice b spare 0 i).bind (fun payload => if c.splitRecord then sliceFrom payload 5 else payload)
      :: partsFrom b spare i indexes

/-- A record with the header of the record that is split. -/
def recordOf (b payload : List UInt8) : List UInt8 :=
  b.take 3 ++ bigEndian 2 payload.length ++ payload

/-- The loop over the payloads. -/
def emit (c : Conn) (b : List UInt8) : List (Option (List UInt8)) → List UInt8 → Prog
  | [], buffer =>
    let done := if c.tcpConn then Prog.setNoDelay false (.returns b.length) else .returns b.length
    if c.splitRecord ∧ ¬ c.splitPacket then .write buffer done else done
  | none :: _, _ => .panics
  | some payload :: rest, buffer =>
    let buffer :=
      if c.splitRecord then (if c.splitPacket then [] else buffer) ++ recordOf b payload
      else buffer
    let payload := if c.splitRecord ∧ c.splitPacket then buffer else payload
    if c.splitPacket then .write payload (emit c b rest buffer) else emit c b rest buffer

/-- The split of a ClientHello. -/
def splitHello (publicSuffix : List UInt8 → List UInt8) (draws : ℕ → ℕ) (c : Conn)
    (b spare : List UInt8) (name : MyServerName) : Prog :=
  let (currentIndex, splits) := labels publicSuffix name
  let body := match splitIndexes draws 0 currentIndex splits with
    | none => .panics
    | some indexes => emit c b (payloads c b spare indexes) []
  if c.splitPacket ∧ c.tcpConn then .setNoDelay true body else body

/-- A write. -/
def Conn.write (publicSuffix : List UInt8 → List UInt8) (draws : ℕ → ℕ) (c : Conn)
    (b spare : List UInt8) : Prog :=
  if c.firstPacketWritten ∨ b = [] then .write b (.returns b.length)
  else match indexTLSServerName b with
    | .notFound => .write b (.returns b.length)
    | .diverges => .diverges
    | .found name => splitHello publicSuffix draws c b spare name

/-- The packets that are written if nothing fails. -/
def Prog.writes : Prog → List (List UInt8)
  | .setNoDelay _ next => next.writes
  | .write bytes next => bytes :: next.writes
  | _ => []

/-- Whether one of the parts has all the bytes from `start` to `stop` of their sequence. -/
def Whole : List (List UInt8) → ℕ → ℕ → Prop
  | [], _, _ => False
  | part :: parts, start, stop =>
    stop ≤ part.length ∨
      part.length ≤ start ∧ Whole parts (start - part.length) (stop - part.length)

/-- The bytes behind a write: those given, or, if records are split and one record was given,
records of the same type and version with the same payload. -/
def PreservesStream (splitRecord : Bool) (b written : List UInt8) : Prop :=
  written = b ∨
    splitRecord ∧ SingleRecord b ∧ ∃ records : List (List UInt8),
      written = records.flatten ∧
      (∀ record ∈ records, SingleRecord record ∧ record.take 3 = b.take 3) ∧
      (records.map (List.drop 5)).flatten = b.drop 5

/-- The write ends without a panic whatever fails, and if nothing fails it returns the length and
keeps the stream. -/
def CorrectWrite (splitRecord : Bool) (b : List UInt8) (prog : Prog) : Prop :=
  (∀ ok, prog.perform ok 0 [] ≠ .panics ∧ prog.perform ok 0 [] ≠ .diverges) ∧
    ∃ written, prog.perform (fun _ => true) 0 [] = .returns b.length written ∧
      PreservesStream splitRecord b written

/-! ### Programs -/

theorem Prog.perform_of_returns {prog : Prog} {k n : ℕ} {written out : List UInt8}
    (h : prog.perform (fun _ => true) k written = .returns n out) (ok : ℕ → Bool) (k' : ℕ)
    (w' : List UInt8) :
    prog.perform ok k' w' ≠ .panics ∧ prog.perform ok k' w' ≠ .diverges := by
  induction prog generalizing k k' written w' with
  | returns n => exact ⟨by simp [perform], by simp [perform]⟩
  | panics | diverges => cases h
  | setNoDelay noDelay next ih =>
    rw [perform]
    split_ifs
    · exact ih h (k' + 1) w'
    · exact ⟨by simp, by simp⟩
  | write bytes next ih =>
    rw [perform]
    split_ifs
    · exact ih h (k' + 1) (w' ++ bytes)
    · exact ⟨by simp, by simp⟩

theorem Prog.perform_true_congr (prog : Prog) (k k' : ℕ) (written : List UInt8) :
    prog.perform (fun _ => true) k written = prog.perform (fun _ => true) k' written := by
  induction prog generalizing k k' written with
  | returns | panics | diverges => rfl
  | setNoDelay noDelay next ih => exact ih (k + 1) (k' + 1) written
  | write bytes next ih => exact ih (k + 1) (k' + 1) (written ++ bytes)

open Nat Prog

theorem correctWrite_iff {sr : Bool} {b : List UInt8} {prog : Prog} : CorrectWrite sr b prog ↔
      ∃ written, prog.perform (fun _ => true) 0 [] = .returns b.length written ∧
        PreservesStream sr b written := by
  constructor
  · exact fun h => h.2
  · rintro ⟨written, hp, hs⟩
    exact ⟨fun ok => perform_of_returns hp ok 0 [], written, hp, hs⟩

/-! ### The cuts -/

variable {splits : List (List UInt8)} {indexes ix : List ℕ} {i currentIndex : ℕ} {draws : ℕ → ℕ}

theorem splitIndexes_eq_none_iff :
    splitIndexes draws i currentIndex splits = none ↔ [] ∈ splits := by
  induction splits generalizing i currentIndex with
  | nil => simp [splitIndexes]
  | cons split splits ih =>
    rw [splitIndexes, mem_cons]
    by_cases he : split = []
    · simp [he]
    · rw [if_neg he]
      simp [ih, Ne.symm he]

/-- The length of labels with a dot between them. -/
def span (splits : List (List UInt8)) : ℕ := (splits.map List.length).sum + (splits.length - 1)

theorem span_cons (split : List UInt8) (splits : List (List UInt8)) :
    span (split :: splits) = split.length + (if splits = [] then 0 else 1) + span splits := by
  simp only [span, map_cons, sum_cons, length_cons]
  split_ifs with hl
  · rw [hl]
    simp
  · have := length_pos_iff.mpr hl
    omega

theorem splitIndexes_spec (h : splitIndexes draws i currentIndex splits = some ix) :
    ix.length = splits.length ∧ ix.Pairwise (· ≤ ·) ∧
      ∀ index ∈ ix, currentIndex ≤ index ∧ index < currentIndex + span splits := by
  induction splits generalizing i currentIndex ix with
  | nil =>
    obtain rfl := Option.some.inj h
    simp
  | cons split splits ih =>
    rw [splitIndexes] at h
    by_cases he : split = []
    · rw [if_pos he] at h
      cases h
    rw [if_neg he] at h
    obtain ⟨rest, hr, rfl⟩ := Option.map_eq_some_iff.mp h
    obtain ⟨hl, hs, hw⟩ := ih hr
    have hd : draws i % split.length < split.length := mod_lt _ (length_pos_iff.mpr he)
    rw [span_cons]
    refine ⟨by simp [hl], pairwise_cons.mpr ⟨?_, hs⟩, ?_⟩
    · intro index hi
      have := hw index hi
      omega
    · intro index hi
      rcases mem_cons.mp hi with rfl | hi
      · omega
      · have := hw index hi
        omega

theorem lengths_splitOn (sep : UInt8) (name : List UInt8) :
    ((name.splitOn sep).map length).sum + name.count sep = name.length ∧
      (name.splitOn sep).length = name.count sep + 1 := by
  induction name with
  | nil => simp
  | cons byte name ih =>
    obtain ⟨hs, hlen⟩ := ih
    rw [splitOn_cons_eq_if_modifyHead, count_cons, length_cons]
    split_ifs with h
    · rw [map_cons, sum_cons, length_nil, length_cons]
      omega
    · obtain ⟨lab, labels, hl⟩ :=
        exists_cons_of_ne_nil (splitOn_ne_nil sep name)
      rw [hl] at hs hlen ⊢
      simp only [modifyHead_cons, map_cons, sum_cons, length_cons]
        at hs hlen ⊢
      omega

theorem span_splitOn (name : List UInt8) : span (name.splitOn 46) = name.length := by
  obtain ⟨hs, hl⟩ := lengths_splitOn 46 name
  rw [span, hl, Nat.add_sub_cancel, hs]

/-- The labels of a name that are cut: the first one if the name has a public suffix, and else
all of them. -/
def cutLabels (publicSuffix : List UInt8 → List UInt8) (serverName : List UInt8) :
    List (List UInt8) :=
  if publicSuffix serverName ≠ [] then (serverName.splitOn 46).take 1
  else serverName.splitOn 46

section

variable (publicSuffix : List UInt8 → List UInt8) (name : MyServerName)

include publicSuffix name

/-- No label has a dot in it, and with a public suffix the first label is all that is kept. -/
theorem labels_eq : labels publicSuffix name = (name.index,
      if publicSuffix name.serverName ≠ [] then (name.serverName.splitOn 46).take 1
      else name.serverName.splitOn 46) := by
  have ho : (name.serverName.splitOn 46).length - name.serverName.count 46 = 1 := by
    have := (lengths_splitOn 46 name.serverName).2
    omega
  have hh : (name.serverName.splitOn 46).head? ≠ some [46, 46, 46] := by
    cases name.serverName with
    | nil => simp
    | cons byte rest =>
      rw [splitOn_cons_eq_if_modifyHead]
      split_ifs with hdot
      · simp
      · obtain ⟨lab, labels, hl⟩ :=
          exists_cons_of_ne_nil (splitOn_ne_nil 46 rest)
        rw [hl]
        simp_all
  simp only [labels, ho]
  rw [if_neg]
  rintro ⟨-, hd⟩
  split_ifs at hd
  · rw [head?_take, if_neg (by decide)] at hd
    exact hh hd
  · exact hh hd

theorem labels_snd : (labels publicSuffix name).2 = cutLabels publicSuffix name.serverName := by
  rw [labels_eq, cutLabels]

theorem labels_ne_nil : (labels publicSuffix name).2 ≠ [] := by
  rw [labels_eq]
  split_ifs <;> simp

theorem span_labels_le : span (labels publicSuffix name).2 ≤ name.serverName.length := by
  rw [labels_eq, ← span_splitOn]
  split_ifs
  · obtain ⟨lab, labels, hl⟩ := exists_cons_of_ne_nil (splitOn_ne_nil 46 name.serverName)
    rw [hl, span_cons, take_succ_cons, take_zero, span_cons]
    simp [span]
    omega
  · exact le_refl _

end

/-! ### The parts -/

section Parts

variable {b spare : List UInt8}

theorem slice_of_le {i j : ℕ} (hi : i ≤ j) (hj : j ≤ b.length) :
    slice b spare i j = some ((b.take j).drop i) := by
  rw [slice, if_pos ⟨hi, by rw [length_append]; omega⟩, take_append_of_le_length hj]

/-- The parts are those of the bytes, and a stretch of bytes is in one of them if and only if no cut
is inside it. -/
theorem partsFrom_of_le (spare : List UInt8) {last : ℕ}
    (hso : (last :: ix).Pairwise (· ≤ ·)) (hle : ∀ i ∈ last :: ix, i ≤ b.length) :
    ∃ parts : List (List UInt8), partsFrom b spare last ix = parts.map some ∧
      parts.flatten = b.drop last ∧ parts.length = ix.length + 1 ∧
      ∀ start stop, last ≤ start → start < stop → stop ≤ b.length →
        (Whole parts (start - last) (stop - last) ↔ ∀ i ∈ ix, i ≤ start ∨ stop ≤ i) := by
  induction ix generalizing last with
  | nil =>
    refine ⟨[b.drop last], ?_, by simp, rfl, fun start stop _ _ hs => ?_⟩
    · rw [partsFrom, sliceFrom, if_pos (hle last mem_cons_self)]
      rfl
    · simp only [Whole, length_drop, not_mem_nil, false_imp_iff, implies_true, iff_true]
      omega
  | cons i ix ih =>
    obtain ⟨hfs, hr⟩ := pairwise_cons.mp hso
    have hi : last ≤ i := hfs i mem_cons_self
    have hib : i ≤ b.length := hle i (by simp)
    obtain ⟨parts, hps, hf, hl, hw⟩ := ih hr fun j hj => hle j (mem_cons_of_mem _ hj)
    refine ⟨(b.take i).drop last :: parts, ?_, ?_, by simp [hl], ?_⟩
    · rw [partsFrom, slice_of_le hi hib, hps]
      rfl
    · rw [flatten_cons, hf]
      have hsp := congrArg (drop last) (take_append_drop i b)
      rwa [drop_append_of_le_length] at hsp
      rw [length_take]
      omega
    · intro start stop hst hlt hs
      have hln : ((b.take i).drop last).length = i - last := by
        rw [length_drop, length_take, min_eq_left hib]
      rw [Whole, hln, forall_mem_cons]
      rcases lt_or_ge i stop with hp | hbe
      · -- The first part ends inside or before the stretch.
        have he : i - last ≤ start - last ↔ i ≤ start := by omega
        rw [or_iff_right (by omega), or_iff_left (by omega : ¬ stop ≤ i), he]
        refine and_congr_right fun hin => ?_
        rw [← hw start stop hin hlt hs, (by omega : start - last - (i - last) = start - i),
          (by omega : stop - last - (i - last) = stop - i)]
      · refine iff_of_true (.inl (by omega)) ⟨.inr hbe, fun j hj => ?_⟩
        exact .inr (le_trans hbe ((pairwise_cons.mp hr).1 j hj))

theorem none_mem_partsFrom {last : ℕ} (hs : (last :: indexes).Pairwise (· ≤ ·)) {i : ℕ}
    (hi : i ∈ last :: indexes) (hbe : b.length < i) : none ∈ partsFrom b spare last indexes := by
  induction indexes generalizing last i with
  | nil =>
    obtain rfl := mem_singleton.mp hi
    rw [partsFrom, sliceFrom, if_neg (by omega)]
    exact mem_singleton_self _
  | cons j indexes ih =>
    obtain ⟨hf, hr⟩ := pairwise_cons.mp hs
    rw [partsFrom]
    refine mem_cons_of_mem _ ?_
    rcases mem_cons.mp hi with rfl | hm
    · exact ih hr mem_cons_self (lt_of_lt_of_le hbe (hf j mem_cons_self))
    · exact ih hr hm hbe

end Parts

/-! ### The loop -/

section Emit

variable {c : Conn} {b : List UInt8}

theorem perform_emit_of_none_mem {parts : List (Option (List UInt8))} (h : none ∈ parts)
    (buffer : List UInt8) (k : ℕ) (written : List UInt8) :
    (emit c b parts buffer).perform (fun _ => true) k written = .panics := by
  induction parts generalizing buffer k written with
  | nil => cases h
  | cons part parts ih =>
    cases part with
    | none => rfl
    | some payload =>
      have hr : none ∈ parts := by simpa using h
      rw [emit]
      by_cases hp : c.splitPacket = true
      · rw [if_pos hp]
        exact ih hr _ _ _
      · rw [if_neg hp]
        exact ih hr _ _ _

/-- What is written for a payload. -/
def framed (c : Conn) (b payload : List UInt8) : List UInt8 :=
  if c.splitRecord then recordOf b payload else payload

theorem perform_emit (parts : List (List UInt8)) (buffer : List UInt8) (k : ℕ)
    (written : List UInt8) : (emit c b (parts.map some) buffer).perform (fun _ => true) k written =
      .returns b.length (written ++ (if c.splitPacket then [] else buffer) ++
        (parts.map (framed c b)).flatten) := by
  have hf := c.fragments
  induction parts generalizing buffer k written with
  | nil =>
    cases hp : c.splitPacket <;> cases hrc : c.splitRecord <;> cases ht : c.tcpConn <;>
      simp_all [emit, perform]
  | cons payload parts ih =>
    rw [map_cons, emit]
    cases hp : c.splitPacket with
    | false =>
      have hrc : c.splitRecord = true := by simpa [hp] using hf
      simp [hrc, hp, ih, framed]
    | true =>
      cases hrc : c.splitRecord <;> simp [hrc, hp, ih, framed, perform]

end Emit

/-! ### Records -/

section Records

variable {b : List UInt8}

section

variable (hb : 3 ≤ b.length)

include hb

theorem length_recordOf (payload : List UInt8) :
    (recordOf b payload).length = 5 + payload.length := by
  simp only [recordOf, length_append, length_take, length_bigEndian]
  omega

theorem drop_recordOf (payload : List UInt8) : (recordOf b payload).drop 5 = payload := by
  have hl : (b.take 3 ++ bigEndian 2 payload.length).length = 5 := by
    simp [length_bigEndian, hb]
  rw [recordOf, ← hl, drop_left]

theorem take_recordOf (payload : List UInt8) : (recordOf b payload).take 3 = b.take 3 := by
  have hl : (b.take 3).length = 3 := by simp [hb]
  rw [recordOf, append_assoc, take_left' hl]

theorem singleRecord_recordOf {payload : List UInt8} (hs : payload.length < 65536) :
    SingleRecord (recordOf b payload) := by
  have hl : (b.take 3).length = 3 := by simp [hb]
  have hd : (recordOf b payload).drop 3 = bigEndian 2 payload.length ++ payload := by
    rw [recordOf, append_assoc, drop_left' hl]
  rw [SingleRecord, length_recordOf hb, uint16At, hd]
  have ht : (bigEndian 2 payload.length ++ payload).take 2 = bigEndian 2 payload.length :=
    take_left' (length_bigEndian 2 _)
  rw [ht, ofBigEndian_bigEndian_of_lt (by simpa using hs)]

theorem length_flatten_recordOf (parts : List (List UInt8)) :
    (parts.map (recordOf b)).flatten.length = 5 * parts.length + parts.flatten.length := by
  induction parts with
  | nil => rfl
  | cons payload parts ih =>
    simp only [map_cons, flatten_cons, length_append, length_cons, ih, length_recordOf hb]
    omega

end

theorem preservesStream_recordOf (hb : 5 ≤ b.length) (ho : SingleRecord b)
    {parts : List (List UInt8)} (hps : parts.flatten = b.drop 5) :
    PreservesStream true b (parts.map (recordOf b)).flatten := by
  have hs : ∀ payload ∈ parts, payload.length < 65536 := by
    intro payload hp
    have hle : payload.length ≤ parts.flatten.length :=
      (sublist_flatten_of_mem hp).length_le
    have hlt := uint16At_lt b 3
    rw [hps, length_drop, ho] at hle
    omega
  refine .inr ⟨rfl, ho, parts.map (recordOf b), rfl, ?_, ?_⟩
  · intro record hrecord
    obtain ⟨payload, hp, rfl⟩ := mem_map.mp hrecord
    exact ⟨singleRecord_recordOf (by omega) (hs payload hp), take_recordOf (by omega) payload⟩
  · have hd : drop 5 ∘ recordOf b = id := by
      funext payload
      exact drop_recordOf (by omega) payload
    rw [map_map, hd, map_id, hps]

end Records

/-! ### The first write -/

section Write

variable (publicSuffix : List UInt8 → List UInt8) (draws : ℕ → ℕ)

/-- A ClientHello that can be cut: no label is empty, no cut is behind the end, and one record is
given if records are split. -/
def Cuttable (splitRecord : Bool) (b : List UInt8) (name : MyServerName) : Prop :=
  let (currentIndex, splits) := labels publicSuffix name
  [] ∉ splits ∧
    (∀ i ∈ (splitIndexes draws 0 currentIndex splits).getD [], i ≤ b.length) ∧
    (splitRecord → SingleRecord b)

variable {b : List UInt8} {name : MyServerName} (hsizes : ¬ Oversized b)
  (hname : indexTLSServerName b = .found name)

include hsizes hname

theorem labels_end_le :
    (labels publicSuffix name).1 + span (labels publicSuffix name).2 ≤ b.length := by
  obtain ⟨hi, rest, hr⟩ := ((indexTLSServerName_spec hsizes).2 name hname).2
  have hs := span_labels_le publicSuffix name
  have hl := congrArg length hr
  rw [length_drop, length_append] at hl
  rw [labels_eq] at hs ⊢
  simp only at hs ⊢
  omega

theorem cuttable_iff {splitRecord : Bool} :
    Cuttable publicSuffix draws splitRecord b name ↔
      [] ∉ cutLabels publicSuffix name.serverName ∧ (splitRecord → SingleRecord b) := by
  have hc : ∀ i ∈ (splitIndexes draws 0 (labels publicSuffix name).1
      (labels publicSuffix name).2).getD [], i ≤ b.length := by
    intro i hi
    cases hid : splitIndexes draws 0 (labels publicSuffix name).1 (labels publicSuffix name).2 with
    | none =>
      rw [hid] at hi
      cases hi
    | some ix =>
      rw [hid] at hi
      have hlt := ((splitIndexes_spec hid).2.2 i hi).2
      exact le_trans (le_of_lt hlt) (labels_end_le publicSuffix hsizes hname)
  rw [← labels_snd]
  exact ⟨fun h => ⟨h.1, h.2.2⟩, fun h => ⟨h.1, hc, h.2⟩⟩

end Write

variable {publicSuffix : List UInt8 → List UInt8} {draws : ℕ → ℕ} {c : Conn} {b spare : List UInt8}

/-- How many bytes are left out before the first payload. -/
def headerLen (splitRecord : Bool) : ℕ := if splitRecord then 5 else 0

theorem payloads_eq (spare : List UInt8) (hne : indexes ≠ []) (hf : ∀ i ∈ indexes, 5 ≤ i)
    (hle : ∀ i ∈ indexes, i ≤ b.length) :
    payloads c b spare indexes = partsFrom b spare (headerLen c.splitRecord) indexes := by
  cases indexes with
  | nil => exact absurd rfl hne
  | cons i indexes =>
    have hi := hle i mem_cons_self
    have hi' := hf i mem_cons_self
    rw [payloads, partsFrom, slice_of_le (zero_le i) hi]
    cases c.splitRecord with
    | false => rw [headerLen, if_neg Bool.false_ne_true, slice_of_le (zero_le i) hi]; rfl
    | true =>
      rw [headerLen, if_pos rfl, slice_of_le hi' hi]
      simp [sliceFrom, hi, hi']

theorem payloads_of_le (spare : List UInt8) (hne : ix ≠ [])
    (hs : ix.Pairwise (· ≤ ·)) (hf : ∀ i ∈ ix, 5 ≤ i)
    (hle : ∀ i ∈ ix, i ≤ b.length) (hb : 5 ≤ b.length) :
    ∃ parts : List (List UInt8), payloads c b spare ix = parts.map some ∧
      parts.flatten = b.drop (headerLen c.splitRecord) ∧ parts.length = ix.length + 1 ∧
      ∀ st stop, headerLen c.splitRecord ≤ st → st < stop → stop ≤ b.length →
        (Whole parts (st - headerLen c.splitRecord) (stop - headerLen c.splitRecord) ↔
          ∀ i ∈ ix, i ≤ st ∨ stop ≤ i) := by
  have hh : headerLen c.splitRecord ≤ 5 := by
    rw [headerLen]
    split_ifs <;> decide
  rw [payloads_eq spare hne hf hle]
  refine partsFrom_of_le spare (pairwise_cons.mpr ⟨fun i hi => ?_, hs⟩)
    (forall_mem_cons.mpr ⟨by omega, hle⟩)
  exact le_trans hh (hf i hi)

theorem none_mem_payloads (hs : indexes.Pairwise (· ≤ ·)) {i : ℕ} (hi : i ∈ indexes)
    (hbeh : b.length < i) : none ∈ payloads c b spare indexes := by
  cases indexes with
  | nil => cases hi
  | cons j indexes => exact mem_cons_of_mem _ (none_mem_partsFrom hs hi hbeh)

/-- The frames keep the stream if nothing is framed, or one record was given: otherwise their
headers are added. -/
theorem preservesStream_framed_iff (hb : 5 ≤ b.length) {parts : List (List UInt8)}
    (hfl : parts.flatten = b.drop (headerLen c.splitRecord)) (hm : 2 ≤ parts.length) :
    PreservesStream c.splitRecord b (parts.map (framed c b)).flatten ↔
      (c.splitRecord → SingleRecord b) := by
  cases hrecord : c.splitRecord with
  | false =>
    have hf : framed c b = id := by
      funext payload
      simp [framed, hrecord]
    rw [hrecord, headerLen, if_neg (by simp), drop_zero] at hfl
    rw [hf, map_id, hfl]
    simp [PreservesStream]
  | true =>
    have hf : framed c b = recordOf b := by
      funext payload
      simp [framed, hrecord]
    rw [hrecord, headerLen, if_pos rfl] at hfl
    rw [hf]
    constructor
    · rintro (heq | ⟨-, ho, -⟩) -
      · have hl := length_flatten_recordOf (by omega : 3 ≤ b.length) parts
        rw [heq, hfl, length_drop] at hl
        omega
      · exact ho
    · exact fun ho => preservesStream_recordOf hb (ho rfl) hfl

variable {name : MyServerName}

theorem perform_splitHello {body : Prog}
    (hbo : (match splitIndexes draws 0 (labels publicSuffix name).1
        (labels publicSuffix name).2 with
      | none => .panics
      | some ix => emit c b (payloads c b spare ix) []) = body) :
    (splitHello publicSuffix draws c b spare name).perform (fun _ => true) 0 [] =
      body.perform (fun _ => true) 0 [] := by
  rw [splitHello]
  simp only [hbo]
  split_ifs
  · exact perform_true_congr body 1 0 []
  · rfl

theorem indexes_spec (hf : 5 ≤ name.index)
    (h : splitIndexes draws 0 (labels publicSuffix name).1 (labels publicSuffix name).2 =
      some ix) : ix ≠ [] ∧ ix.Pairwise (· ≤ ·) ∧ ∀ i ∈ ix, 5 ≤ i := by
  obtain ⟨hl, hs, hw⟩ := splitIndexes_spec h
  refine ⟨?_, hs, fun i hi => ?_⟩
  · rintro rfl
    exact labels_ne_nil publicSuffix name (length_eq_zero_iff.mp hl.symm)
  · have hle := (hw i hi).1
    rw [labels_eq] at hle
    exact le_trans hf hle

theorem splitHello_keeps_iff (hfi : 5 ≤ name.index) (hb : 5 ≤ b.length) :
    (∃ written, (splitHello publicSuffix draws c b spare name).perform (fun _ => true) 0 [] =
        .returns b.length written ∧ PreservesStream c.splitRecord b written) ↔
      Cuttable publicSuffix draws c.splitRecord b name := by
  rw [Cuttable]
  simp only
  cases hid : splitIndexes draws 0 (labels publicSuffix name).1 (labels publicSuffix name).2 with
  | none =>
    rw [perform_splitHello (by rw [hid])]
    constructor
    · rintro ⟨written, hp, -⟩
      cases hp
    · rintro ⟨hl, -⟩
      exact absurd (splitIndexes_eq_none_iff.mp hid) hl
  | some ix =>
    rw [perform_splitHello (by rw [hid])]
    have hl : [] ∉ (labels publicSuffix name).2 := by
      rw [← splitIndexes_eq_none_iff, hid]
      simp
    obtain ⟨hne, hs, hge'⟩ := indexes_spec hfi hid
    simp only [hl, not_false_eq_true, true_and, Option.getD_some]
    by_cases hle : ∀ i ∈ ix, i ≤ b.length
    · obtain ⟨parts, hps, hf, hc, -⟩ :=
        payloads_of_le (c := c) spare hne hs hge' hle hb
      rw [hps, perform_emit]
      simp only [ite_self, append_nil, nil_append, Outcome.returns.injEq, true_and, exists_eq_left']
      rw [and_iff_right hle]
      have hm : 2 ≤ parts.length := by
        have := length_pos_iff.mpr hne
        omega
      exact preservesStream_framed_iff hb hf hm
    · simp only [not_forall, not_le] at hle
      obtain ⟨i, hi, hbe⟩ := hle
      rw [perform_emit_of_none_mem (none_mem_payloads hs hi hbe)]
      constructor
      · rintro ⟨written, hp, -⟩
        cases hp
      · rintro ⟨ha, -⟩
        exact absurd (ha i hi) (by omega)

theorem writes_emit (parts : List (List UInt8)) (buffer : List UInt8) :
    (emit c b (parts.map some) buffer).writes = if c.splitPacket then parts.map (framed c b)
      else [buffer ++ (parts.map (framed c b)).flatten] := by
  have hf := c.fragments
  induction parts generalizing buffer with
  | nil =>
    cases hp : c.splitPacket <;> cases hrc : c.splitRecord <;> cases ht : c.tcpConn <;>
      simp_all [emit, writes]
  | cons payload parts ih =>
    rw [map_cons, emit]
    cases hp : c.splitPacket with
    | false =>
      have hrc : c.splitRecord = true := by simpa [hp] using hf
      simp [hrc, hp, ih, framed]
    | true =>
      cases hrc : c.splitRecord <;> simp [hrc, hp, ih, framed, writes]

/-- Cuts behind the first label are always inside the name. The one in the first label is not if it
is drawn at the beginning. -/
theorem no_cut_inside_iff (hla : [] ∉ name.serverName.splitOn 46)
    (h : splitIndexes draws 0 (labels publicSuffix name).1 (labels publicSuffix name).2 = some ix) :
    (∀ i ∈ ix, i ≤ name.index ∨ name.index + name.serverName.length ≤ i) ↔
      ¬ (publicSuffix name.serverName = [] ∧ 46 ∈ name.serverName) ∧
        draws 0 % ((name.serverName.splitOn 46).headD []).length = 0 := by
  have hspan := span_labels_le publicSuffix name
  obtain ⟨lab, others, hsp⟩ := exists_cons_of_ne_nil (splitOn_ne_nil 46 name.serverName)
  obtain ⟨kept, hk, hcu⟩ : ∃ kept, labels publicSuffix name = (name.index, lab :: kept) ∧
      (kept = [] ↔ ¬ (publicSuffix name.serverName = [] ∧ 46 ∈ name.serverName)) := by
    have hc := (lengths_splitOn 46 name.serverName).2
    rw [hsp, length_cons, add_right_cancel_iff] at hc
    rw [labels_eq, hsp, ← count_pos_iff, ← hc, length_pos_iff]
    by_cases hs : publicSuffix name.serverName = []
    · exact ⟨others, by simp [hs], by simp [hs]⟩
    · exact ⟨[], by simp [hs], by simp [hs]⟩
  have hl : lab ≠ [] := by
    rintro rfl
    exact hla (by simp [hsp])
  rw [hk, span_cons] at hspan
  rw [hk, splitIndexes, if_neg hl] at h
  obtain ⟨rest, hr, rfl⟩ := Option.map_eq_some_iff.mp h
  obtain ⟨hle, -, hw⟩ := splitIndexes_spec hr
  have hd : draws 0 % lab.length < lab.length := mod_lt _ (length_pos_iff.mpr hl)
  rw [← hcu, forall_mem_cons, hsp, headD_cons, and_comm]
  refine and_congr ⟨fun ha => ?_, ?_⟩ ⟨fun _ => by omega, fun _ => by omega⟩
  · by_contra hne
    obtain ⟨i, others', rfl⟩ := exists_cons_of_ne_nil
      (ne_nil_of_length_pos (hle ▸ length_pos_iff.mpr hne))
    have hi := hw i mem_cons_self
    have := ha i mem_cons_self
    rw [if_neg hne] at hi hspan
    omega
  · rintro rfl
    rw [length_eq_zero_iff.mp hle]
    simp

/-- The first write of a ClientHello sends its bytes in parts, as packets or as records, and the
server name is in none of them as a whole if and only if there is no public suffix and a second
label, or the cut in the first label is not drawn at its beginning. -/
theorem Conn.write_cuts_iff (publicSuffix : List UInt8 → List UInt8) (draws : ℕ → ℕ)
    (tcpConn splitPacket splitRecord : Bool) (h : splitPacket ∨ splitRecord) {b : List UInt8}
    (spare : List UInt8) {name : MyServerName} (hrecord : SingleRecord b)
    (hname : indexTLSServerName b = .found name) (hlength : 2 ≤ name.serverName.length)
    (hlabels : [] ∉ name.serverName.splitOn 46) :
    ∃ parts : List (List UInt8),
      ((newConn tcpConn splitPacket splitRecord h).write publicSuffix draws b spare).writes =
          (let sent := parts.map fun part => if splitRecord then recordOf b part else part
          if splitPacket then sent else [sent.flatten]) ∧
        parts.flatten = b.drop (headerLen splitRecord) ∧
        (b.drop name.index).take name.serverName.length = name.serverName ∧
        (¬ Whole parts (name.index - headerLen splitRecord)
            (name.index + name.serverName.length - headerLen splitRecord) ↔
          publicSuffix name.serverName = [] ∧ 46 ∈ name.serverName ∨
            draws 0 % ((name.serverName.splitOn 46).headD []).length ≠ 0) := by
  obtain ⟨hf, hb⟩ := five_le_index hname
  have hsizes := not_oversized_of_singleRecord hrecord
  obtain ⟨hidx, rest, hr⟩ := ((indexTLSServerName_spec hsizes).2 name hname).2
  have hen : name.index + name.serverName.length ≤ b.length := by
    have := congrArg length hr
    rw [length_drop, length_append] at this
    omega
  have hh : headerLen splitRecord ≤ name.index := by
    rw [headerLen]
    split_ifs <;> omega
  cases hid : splitIndexes draws 0 (labels publicSuffix name).1 (labels publicSuffix name).2 with
  | none =>
    have he := splitIndexes_eq_none_iff.mp hid
    rw [labels_eq] at he
    refine absurd ?_ hlabels
    split_ifs at he
    · exact mem_of_mem_take he
    · exact he
  | some indexes =>
    obtain ⟨hne, hs, hge⟩ := indexes_spec hf hid
    have hle : ∀ i ∈ indexes, i ≤ b.length := fun i hi =>
      le_trans (le_of_lt ((splitIndexes_spec hid).2.2 i hi).2)
        (labels_end_le publicSuffix hsizes hname)
    obtain ⟨parts, hps, hfl, -, hw⟩ := payloads_of_le
      (c := newConn tcpConn splitPacket splitRecord h) spare hne hs hge hle hb
    refine ⟨parts, ?_, hfl, by rw [hr, take_left], ?_⟩
    · have hne : b ≠ [] := ne_nil_of_length_pos (by omega)
      rw [Conn.write, if_neg (by simp [newConn, hne]), hname]
      simp only [splitHello, hid, hps]
      rw [apply_ite writes, writes, ite_self]
      exact writes_emit parts []
    · have hname := hw name.index _ hh (by omega) hen
      exact (not_congr (hname.trans (no_cut_inside_iff hlabels hid))).trans
        (by rw [not_and_or, not_not])

/-! ### A ClientHello -/

/-- A record with a ClientHello of TLS 1.2 that has no cipher suites and, of the extensions, only
the server name. -/
def clientHello (serverName : List UInt8) : List UInt8 :=
  let extension := [0, 0] ++ bigEndian 2 (5 + serverName.length) ++
    bigEndian 2 (3 + serverName.length) ++ [0] ++ bigEndian 2 serverName.length ++ serverName
  let body := [3, 3] ++ List.replicate 32 0 ++ [0, 0, 0, 0] ++ bigEndian 2 extension.length ++
    extension
  [22, 3, 1] ++ bigEndian 2 (4 + body.length) ++ [1] ++ bigEndian 3 body.length ++ body

theorem uint16At_of_drop {bytes : List UInt8} (rest : List UInt8) {i x : ℕ}
    (h : bytes.drop i = bigEndian 2 x ++ rest) (hx : x < 65536) : uint16At bytes i = x := by
  rw [uint16At, h, take_left' (length_bigEndian 2 x), ofBigEndian_bigEndian_of_lt hx]

/-- The walk finds the name of such a record. -/
theorem indexTLSServerName_clientHello {serverName : List UInt8} (h : serverName.length < 65000) :
    indexTLSServerName (clientHello serverName) =
      .found ⟨58, serverName.length, serverName, 47⟩ := by
  rw [clientHello]
  generalize he : [0, 0] ++ bigEndian 2 (5 + serverName.length) ++
    bigEndian 2 (3 + serverName.length) ++ [0] ++ bigEndian 2 serverName.length ++ serverName = e
  have hl : e.length = 9 + serverName.length := by
    rw [← he]
    simp only [length_append, length_bigEndian, length_cons, length_nil]
  have hext : IsExtension e := by
    have h2 : uint16At e 2 = 5 + serverName.length :=
      uint16At_of_drop (e.drop 4) (by rw [← he]; rfl) (by omega)
    rw [IsExtension, hl, h2]
    omega
  generalize hb : [3, 3] ++ List.replicate 32 0 ++ [0, 0, 0, 0] ++ bigEndian 2 e.length ++ e = body
  have hbl : body.length = 40 + e.length := by
    rw [← hb]
    simp only [length_append, length_bigEndian, length_cons, length_nil, length_replicate]
  generalize hr : [22, 3, 1] ++ bigEndian 2 (4 + body.length) ++ [1] ++ bigEndian 3 body.length ++
    body = b
  have hrl : b.length = 49 + e.length := by
    rw [← hr]
    simp only [length_append, length_bigEndian, length_cons, length_nil]
    omega
  have hat : extensionsAt (b.drop 5) = 44 := by
    rw [← hr, ← hb]
    rfl
  have hd : (b.drop 5).drop 44 = e := by
    rw [← hr, ← hb]
    rfl
  have hhello : IsHello b := by
    have hv : uint16At (b.drop 5) 4 = 0x0303 :=
      uint16At_of_drop (body.drop 2) (by rw [← hr, ← hb]; rfl) (by decide)
    refine ⟨by rw [← hr]; rfl, ?_, by rw [← hr]; rfl, ?_, by rw [hv]; rfl, ?_⟩
    · rw [uint16At_of_drop (b.drop 5) (x := 4 + body.length) (by rw [← hr]; rfl) (by omega)]
      omega
    · have ht : ((b.drop 5).drop 1).take 3 = bigEndian 3 body.length := by
        rw [← hr]
        rfl
      rw [ht, ofBigEndian_bigEndian_of_lt (by omega), length_drop]
      omega
    · rw [hat, uint16At_of_drop e (x := e.length) (by rw [← hr, ← hb]; rfl) (by omega), length_drop]
      omega
  rw [indexTLSServerName_of_isHello hhello,
    indexTLSServerNameFromHandshake_of_isClientHello hhello.hello, hat, hd,
    show e = e ++ [] from (append_nil e).symm, walkExtensions_append hext,
    if_pos (by rw [← he]; rfl), if_neg (by rw [← he]; simp [bigEndian, byteAt])]
  have hn : uint16At e 7 = serverName.length :=
    uint16At_of_drop serverName (by rw [← he]; rfl) (by omega)
  have hs : e.drop 9 = serverName := by
    rw [← he]
    rfl
  rw [hn, hs]
  rfl

/-- With a draw inside the label `ab`, the name `ab.c` is cut before its dot. -/
theorem write_cuts_iff_example : ∃ parts : List (List UInt8),
      ((newConn true true false (by decide)).write (fun _ => [99]) (fun _ => 1)
        (clientHello [97, 98, 46, 99]) []).writes = parts ∧ ¬ Whole parts 58 62 := by
  have hwa : indexTLSServerName (clientHello [97, 98, 46, 99]) =
      .found ⟨58, 4, [97, 98, 46, 99], 47⟩ := indexTLSServerName_clientHello (by decide)
  obtain ⟨parts, hw, -, -, hc⟩ := Conn.write_cuts_iff (fun _ => [99]) (fun _ => 1) true true
    false (by decide) [] (by decide +kernel) hwa (by decide) (by decide)
  exact ⟨parts, by simpa using hw, hc.mpr (by decide)⟩

/-- With a draw at the beginning of the label, the second of the two packets is the name `ab.c`. -/
theorem write_leaves_name : SingleRecord (clientHello [97, 98, 46, 99]) ∧
      indexTLSServerName (clientHello [97, 98, 46, 99]) = .found ⟨58, 4, [97, 98, 46, 99], 47⟩ ∧
      ((newConn true true false (by decide)).write (fun _ => [99]) (fun _ => 0)
          (clientHello [97, 98, 46, 99]) []).writes =
        [(clientHello [97, 98, 46, 99]).take 58, [97, 98, 46, 99]] := by
  decide +kernel

end SingBox.TLSFragment
