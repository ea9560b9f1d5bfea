import SingBox.Sniff.QUIC

/-!
# Reassembling the ClientHello

The sniffer on packets that carry a ClientHello: their CRYPTO frames hold parts of one message, in
any order and with any cuts, and a part may be sent again. The fragments are joined by equal
offsets, and the length of the record is the sum of the lengths of all fragments. A part that has
been seen twice makes that sum too large, and the message is never found although all of it is
there.
-/

namespace SingBox.Sniff

open Foundation List Fragment UInt8

/-! ### Packets -/

/-- A variable-length integer of QUIC: the two high bits of the first byte are the binary logarithm
of the number of bytes. -/
def Uvarint (n : ℕ) (bytes : List UInt8) : Prop :=
  ∃ k < 4, n < 64 * 256 ^ (2 ^ k - 1) ∧
    bytes = bigEndian (2 ^ k) (k * 64 * 256 ^ (2 ^ k - 1) + n)

/-- Several of them. -/
def Uvarints : ℕ → List UInt8 → Prop
  | 0, bytes => bytes = []
  | k + 1, bytes => ∃ n first rest, Uvarint n first ∧ Uvarints k rest ∧ bytes = first ++ rest

/-- The frames of the packets that carry a ClientHello. -/
inductive Frame
  | padding
  | ping
  | ack (ecn : Bool) (ranges : ℕ)
  | crypto (offset : ℕ) (data : List UInt8)
deriving DecidableEq, Repr

/-- The type of a frame. -/
def Frame.type : Frame → UInt8
  | .padding => 0
  | .ping => 1
  | .ack ecn _ => if ecn then 3 else 2
  | .crypto _ _ => 6

/-- The fields of a frame behind its type. -/
def Frame.Fields : Frame → List UInt8 → Prop
  | .padding, bytes => bytes = []
  | .ping, bytes => bytes = []
  | .ack ecn ranges, bytes => ∃ head count first rest counts,
      Uvarints 2 head ∧ Uvarint ranges count ∧ Uvarints 1 first ∧ Uvarints (2 * ranges) rest ∧
        Uvarints (if ecn then 3 else 0) counts ∧
        bytes = head ++ (count ++ (first ++ (rest ++ counts)))
  | .crypto offset data, bytes => ∃ start length,
      Uvarint offset start ∧ Uvarint data.length length ∧ bytes = start ++ (length ++ data)

/-- A payload made of the given frames. -/
def Encodes : List Frame → List UInt8 → Prop
  | [], bytes => bytes = []
  | frame :: frames, bytes => ∃ fields rest,
      frame.Fields fields ∧ Encodes frames rest ∧ bytes = frame.type :: (fields ++ rest)

/-- The fragments of the frames. -/
def fragmentsOf (frames : List Frame) : List Fragment :=
  frames.filterMap fun
    | .crypto offset data => some ⟨offset, data.length, data⟩
    | _ => none

/-- The data of a frame is the part of the message at its offset. -/
def Frame.PartOf (m : List UInt8) : Frame → Prop
  | .crypto offset data => data = (m.drop offset).take data.length ∧ offset + data.length ≤ m.length
  | _ => True

/-- The frames cover the message. -/
def Covered (m : List UInt8) (frames : List Frame) : Prop :=
  ∀ i < m.length, ∃ offset data, .crypto offset data ∈ frames ∧
    offset ≤ i ∧ i < offset + data.length

/-- Need-more-data until the message is covered, and success on the packet that covers it. -/
def CorrectFrom (m serverName : List UInt8) :
    List Frame → List (List Frame) → List SniffOutcome → Prop
  | _, [], _ => True
  | _, _ :: _, [] => False
  | seen, packet :: packets, outcome :: outcomes =>
    (¬ Covered m (seen ++ packet) → outcome = .needMoreData ∧
        CorrectFrom m serverName (seen ++ packet) packets outcomes) ∧
      (Covered m (seen ++ packet) → outcome = .success serverName)

/-- The first fragment with some data that starts at an index. -/
def startingAt (fragments : List Fragment) (index : ℕ) : Option Fragment :=
  fragments.find? fun fragment => fragment.offset = index ∧ 0 < fragment.length

/-- From one index the fragments lead to another: each time to the end of the first fragment that
starts there. -/
inductive Linked (fragments : List Fragment) : ℕ → ℕ → Prop
  | refl (index : ℕ) : Linked fragments index index
  | step {index last : ℕ} {fragment : Fragment} (h : startingAt fragments index = some fragment)
      (rest : Linked fragments (index + fragment.length) last) : Linked fragments index last

/-- When the message is first covered, the fragments lead from its start to its end, and the lengths
of all of them add up to its length in 16 bits. -/
def JoinsFrom (m : List UInt8) : List Frame → List Fragment → List (List Frame) → Prop
  | _, _, [] => True
  | seen, fragments, packet :: packets =>
    (¬ Covered m (seen ++ packet) →
        JoinsFrom m (seen ++ packet) (fragmentsOf packet ++ fragments) packets) ∧
      (Covered m (seen ++ packet) →
        Linked (fragmentsOf packet ++ fragments) 0 m.length ∧
          frameLen (fragmentsOf packet ++ fragments) = m.length)

/-! ### Reading the frames -/

variable {bytes : List UInt8} {n : ℕ}

open Nat

theorem Uvarint.read (h : Uvarint n bytes) (rest : List UInt8) :
    readUvarint (bytes ++ rest) = some (n, rest) := by
  obtain ⟨k, hk, hn, rfl⟩ := h
  have hl : 2 ^ k = 1 + (2 ^ k - 1) := by
    have := Nat.two_pow_pos k
    omega
  generalize hw : 2 ^ k - 1 = w at hn hl
  have hpos : 0 < 256 ^ w := Nat.pow_pos (by omega)
  have hdi : (k * 64 * 256 ^ w + n) / 256 ^ w = k * 64 + n / 256 ^ w := by
    rw [add_comm, add_mul_div_right _ _ hpos, add_comm]
  have hh : n / 256 ^ w < 64 := Nat.div_lt_of_lt_mul (by rwa [Nat.mul_comm])
  have hf (q : ℕ) (hq : q < 64) : (ofNat (k * 64 + q)).toNat = k * 64 + q := by
    rw [toNat_ofNat']
    omega
  have hbs : bigEndian (2 ^ k) (k * 64 * 256 ^ w + n) ++ rest =
      ofNat (k * 64 + n / 256 ^ w) :: (bigEndian w (k * 64 * 256 ^ w + n) ++ rest) := by
    rw [hl, bigEndian_add, hdi]
    rfl
  have hm (q : ℕ) (hq : q < 64) : (k * 64 + q) / 64 = k := by omega
  have hv (q : ℕ) (hq : q < 64) : (k * 64 + q) % 64 = q := by omega
  have ht : (bigEndian w (k * 64 * 256 ^ w + n) ++ rest).take w =
      bigEndian w (k * 64 * 256 ^ w + n) := by
    rw [take_append_of_le_length (length_bigEndian _ _).ge, take_of_length_le
      (length_bigEndian _ _).le]
  have hd : (bigEndian w (k * 64 * 256 ^ w + n) ++ rest).drop w = rest := by
    rw [drop_append_of_le_length (length_bigEndian _ _).ge, drop_of_length_le
      (length_bigEndian _ _).le, nil_append]
  have hmo : ofBigEndian (bigEndian w (k * 64 * 256 ^ w + n)) = n % 256 ^ w := by
    rw [ofBigEndian_bigEndian, mul_add_mod_self_right]
  have hs : ¬ (bigEndian w (k * 64 * 256 ^ w + n) ++ rest).length < w := by
    rw [length_append, length_bigEndian]
    omega
  rw [hbs, readUvarint]
  simp only [hf _ hh, hm _ hh, hv _ hh, hw, hs, if_false, ht, hd, hmo]
  rw [div_add_mod']

theorem Uvarints.skip {k : ℕ} (h : Uvarints k bytes) (rest : List UInt8) :
    skipUvarints k (bytes ++ rest) = some rest := by
  induction k generalizing bytes with
  | zero =>
    obtain rfl : bytes = [] := h
    rfl
  | succ k ih =>
    obtain ⟨n, fst, others, hf, ho, rfl⟩ := h
    rw [skipUvarints, append_assoc, hf.read, Option.bind_some]
    exact ih ho

variable {frame : Frame}

theorem readFrames_frame {fields : List UInt8} (h : frame.Fields fields) (fuel : ℕ)
    (rest ts : List UInt8) (fragments : List Fragment) :
    readFrames (fuel + 1) (frame.type :: (fields ++ rest)) ts fragments =
      readFrames fuel rest (ts ++ [frame.type]) (fragments ++ fragmentsOf [frame]) := by
  cases frame with
  | padding =>
    obtain rfl : fields = [] := h
    simp [readFrames, Frame.type, fragmentsOf]
  | ping =>
    obtain rfl : fields = [] := h
    simp [readFrames, Frame.type, fragmentsOf]
  | ack ecn ranges =>
    obtain ⟨head, count, fst, others, counts, hh, hc, hf, ho, hcn, rfl⟩ := h
    have hr : readAck ecn (head ++ (count ++ (fst ++ (others ++ (counts ++ rest))))) =
        some rest := by
      simp only [readAck, hh.skip, hc.read, hf.skip, ho.skip, Option.bind_some]
      cases ecn with
      | false =>
        obtain rfl : counts = [] := hcn
        rfl
      | true => exact hcn.skip rest
    cases ecn <;> simp [readFrames, Frame.type, fragmentsOf, hr]
  | crypto offset data =>
    obtain ⟨st, length, hst, hl, rfl⟩ := h
    have hr : readCrypto (st ++ (length ++ (data ++ rest))) =
        some (⟨offset, data.length, data⟩, rest) := by
      simp [readCrypto, hst.read, hl.read]
    simp [readFrames, Frame.type, fragmentsOf, hr]

variable {frames : List Frame} {seen : List Frame}

theorem Encodes.read {pay : List UInt8} (h : Encodes frames pay) {fuel : ℕ}
    (hf : pay.length < fuel) (ts : List UInt8) (fragments : List Fragment) :
    readFrames fuel pay ts fragments =
      .read (ts ++ frames.map Frame.type) (fragments ++ fragmentsOf frames) := by
  induction frames generalizing pay fuel ts fragments with
  | nil =>
    obtain rfl : pay = [] := h
    obtain ⟨fuel, rfl⟩ := exists_eq_succ_of_ne_zero (ne_of_gt (zero_lt_of_lt hf))
    simp [readFrames, fragmentsOf]
  | cons frame frames ih =>
    obtain ⟨fields, rest, hfi, hr, rfl⟩ := h
    obtain ⟨fuel, rfl⟩ := exists_eq_succ_of_ne_zero (ne_of_gt (zero_lt_of_lt hf))
    rw [length_cons, length_append] at hf
    rw [readFrames_frame hfi, ih hr (by omega), append_assoc, append_assoc]
    congr 1
    rw [fragmentsOf, fragmentsOf, fragmentsOf, ← filterMap_append]
    rfl

/-! ### Joining the fragments -/

/-- The fragments come from frames that were seen. -/
def From (seen : List Frame) (fragments : List Fragment) : Prop :=
  ∀ fragment ∈ fragments, fragment.length = fragment.payload.length ∧
    .crypto fragment.offset fragment.payload ∈ seen

variable {fragments : List Fragment}

theorem from_fragmentsOf (h : From seen fragments) (packet : List Frame) :
    From (seen ++ packet) (fragmentsOf packet ++ fragments) := by
  intro fragment hm
  rcases mem_append.mp hm with hn | ho
  · obtain ⟨frame, hfr, hs⟩ := mem_filterMap.mp hn
    cases frame with
    | crypto offset data =>
      cases hs
      exact ⟨rfl, mem_append_right seen hfr⟩
    | _ => cases hs
  · exact ⟨(h fragment ho).1, mem_append_left packet (h fragment ho).2⟩

section Message

variable {m : List UInt8} {seen : List Frame} {fragments : List Fragment}

theorem joinFrom_prefix (hps : ∀ frame ∈ seen, frame.PartOf m) (h : From seen fragments)
    (fuel index : ℕ) : (joinFrom fragments fuel index).1 <+: m.drop index := by
  induction fuel generalizing index with
  | zero => exact nil_prefix
  | succ fuel ih =>
    rw [joinFrom]
    split
    · exact nil_prefix
    · next fragment hfi =>
      obtain ⟨hl, hse⟩ := h fragment (mem_of_find?_eq_some hfi)
      have hf := find?_some hfi
      simp only [decide_eq_true_eq] at hf
      obtain ⟨rfl, -⟩ := hf
      have hp : fragment.payload = (m.drop fragment.offset).take fragment.length := by
        rw [hl]
        exact (hps _ hse).1
      have hs : m.drop fragment.offset =
          fragment.payload ++ m.drop (fragment.offset + fragment.length) := by
        rw [hp, ← drop_drop, take_append_drop]
      rw [hs]
      exact (prefix_append_right_inj fragment.payload).mpr (ih _)

theorem joinFrom_covered (h : From seen fragments) (fuel index i : ℕ)
    (hi : i < (joinFrom fragments fuel index).1.length) :
    ∃ offset data, .crypto offset data ∈ seen ∧ offset ≤ index + i ∧
      index + i < offset + data.length := by
  induction fuel generalizing index i with
  | zero => cases hi
  | succ fuel ih =>
    rw [joinFrom] at hi
    split at hi
    · cases hi
    · next fragment hfi =>
      obtain ⟨hl, hs⟩ := h fragment (mem_of_find?_eq_some hfi)
      have hf := find?_some hfi
      simp only [decide_eq_true_eq] at hf
      by_cases hhe : i < fragment.length
      · exact ⟨fragment.offset, fragment.payload, hs, by omega, by omega⟩
      · rw [length_append] at hi
        obtain ⟨offset, data, hm, hlow, hh⟩ :=
          ih (fragment.offset + fragment.length) (i - fragment.length) (by omega)
        exact ⟨offset, data, hm, by omega, by omega⟩

theorem linked_joinFrom (h : From seen fragments) (fuel index : ℕ) :
    Linked fragments index (index + (joinFrom fragments fuel index).1.length) := by
  induction fuel generalizing index with
  | zero => exact .refl index
  | succ fuel ih =>
    rw [joinFrom]
    split
    · exact .refl index
    · next fragment hfi =>
      have hf := find?_some hfi
      simp only [decide_eq_true_eq] at hf
      refine .step hfi ?_
      rw [length_append, ← (h fragment (mem_of_find?_eq_some hfi)).1, ← add_assoc, ← hf.1]
      exact ih _

theorem le_joinFrom_of_linked (h : From seen fragments) {index last : ℕ}
    (hl : Linked fragments index last) {fuel : ℕ} (he : (joinFrom fragments fuel index).2) :
    last ≤ index + (joinFrom fragments fuel index).1.length := by
  induction hl generalizing fuel with
  | refl index => exact le_add_right _ _
  | @step index last fragment hfi _ ih =>
    cases fuel with
    | zero => cases he
    | succ fuel =>
      have hf := find?_some hfi
      simp only [decide_eq_true_eq] at hf
      rw [startingAt] at hfi
      simp only [joinFrom, hfi, hf.1] at he ⊢
      rw [length_append, ← (h fragment (mem_of_find?_eq_some hfi)).1, ← add_assoc]
      exact ih he

/-- The fragments are joined to the message exactly if they lead from its start to its end. -/
theorem join_eq_iff (hps : ∀ frame ∈ seen, frame.PartOf m) (h : From seen fragments) :
    (join fragments).1 = m ↔ Linked fragments 0 m.length := by
  constructor
  · intro hj
    have hl := linked_joinFrom h (fragments.length + 1) 0
    rwa [zero_add, ← join, hj] at hl
  · intro hl
    have hp : (join fragments).1 <+: m := joinFrom_prefix hps h _ 0
    have hle := le_joinFrom_of_linked h hl (join_ends fragments)
    rw [zero_add, ← join] at hle
    exact hp.eq_of_length_le hle

theorem covered_of_join (h : From seen fragments)
    (hj : (join fragments).1 = m) : Covered m seen := by
  intro i hi
  rw [← hj] at hi
  obtain ⟨offset, data, hm, hl, hh⟩ := joinFrom_covered h _ 0 i hi
  rw [zero_add] at hl hh
  exact ⟨offset, data, hm, hl, hh⟩

end Message

/-! ### Parsing a prefix of the message -/

theorem handshakeLength_eq {p m : List UInt8} (h : p <+: m) (hl : 4 ≤ p.length) :
    handshakeLength p = handshakeLength m := by
  have hg (i : ℕ) (hi : i < 4) : p.getD i 0 = m.getD i 0 := by
    obtain ⟨rest, rfl⟩ := h
    rw [getD_eq_getElem?_getD, getD_eq_getElem?_getD, getElem?_append_left (by omega)]
  rw [handshakeLength, handshakeLength, hg 1 (by omega), hg 2 (by omega), hg 3 (by omega)]

variable {m : List UInt8}

variable {hello : ClientHello}

theorem length_eq_handshakeLength (hm : m.length < 65536)
    (h : compute (recordHeader m.length ++ m) = .ok hello) :
    39 ≤ m.length ∧ m.length = handshakeLength m := by
  rw [compute_recordHeader hm, if_pos le_rfl, take_length] at h
  exact parseHandshake_eq_ok h

/-- Of the prefixes of a ClientHello only the whole message is accepted, and only in a record of its
length. -/
theorem eq_of_compute_eq_ok {m p : List UInt8} {hello hello' : ClientHello} (hm : m.length < 65536)
    (hh : compute (recordHeader m.length ++ m) = .ok hello) (hp : p <+: m) (hn : n < 65536)
    (h : compute (recordHeader n ++ p) = .ok hello') : p = m ∧ n = m.length := by
  obtain ⟨-, hl⟩ := length_eq_handshakeLength hm hh
  rw [compute_recordHeader hn] at h
  split_ifs at h with hle
  obtain ⟨hlo, hs⟩ := parseHandshake_eq_ok h
  rw [handshakeLength_eq ((List.take_prefix n p).trans hp) (by omega), ← hl,
    length_take, min_eq_left hle] at hs
  have hpl := hp.length_le
  exact ⟨hp.eq_of_length (by omega), hs⟩

/-! ### The packets of a ClientHello -/

/-- No packet has been sniffed. -/
def SniffState.fresh : SniffState := ⟨none, none⟩

section Packets

variable {m : List UInt8} {hello : ClientHello}
  {seen packet pa : List Frame} {pay : List UInt8} {s : SniffState}

/-- The call succeeds exactly if the fragments are the message, and otherwise keeps them. -/
theorem quicClientHello_packet (isQUICGo : ClientHello → Bool) (hm : m.length < 65536)
    (hh : compute (recordHeader m.length ++ m) = .ok hello)
    (hps : ∀ frame ∈ seen ++ pa, frame.PartOf m)
    (hf : From seen (s.sniffContext.getD [])) (hs : ¬ Covered m seen)
    (he : Encodes pa pay) : let fragments := fragmentsOf pa ++ s.sniffContext.getD []
    (Linked fragments 0 m.length ∧ frameLen fragments = m.length →
      (quicClientHello isQUICGo s pay).1 = .success hello.serverName) ∧
    (¬ (Linked fragments 0 m.length ∧ frameLen fragments = m.length) →
      quicClientHello isQUICGo s pay =
        (.needMoreData, { s with sniffContext := some fragments })) := by
  have hr := he.read (lt_succ_self _) [] []
  rw [nil_append, nil_append] at hr
  have hf' := from_fragmentsOf hf pa
  intro fragments
  rw [quicClientHello_read hr, ← join_eq_iff hps hf']
  refine ⟨fun hj => ?_, fun hj => ?_⟩
  · have ht : pa.map Frame.type ≠ [] := by
      rw [Ne, map_eq_nil_iff]
      rintro rfl
      rw [append_nil] at hf'
      exact hs (covered_of_join hf' hj.1)
    obtain ⟨cli, hfi⟩ := finishSniff_eq isQUICGo s hello ht
    rw [hj.1, hj.2, hh]
    simp only [hfi]
  · have hp : (join fragments).1 <+: m := joinFrom_prefix hps hf' _ 0
    have hlt : frameLen fragments < 65536 := mod_lt _ (by omega)
    obtain ⟨hpa, hd⟩ := safe_compute (recordHeader (frameLen fragments) ++ (join fragments).1)
    split
    · next hello' h => exact absurd (eq_of_compute_eq_ok hm hh hp hlt h) hj
    · rfl
    · next h => exact absurd h hpa
    · next h => exact absurd h hd

end Packets

variable {packets : List (List Frame)}

theorem correctFrom_iff {isQUICGo : ClientHello → Bool} (hm : m.length < 65536)
    (hh : compute (recordHeader m.length ++ m) = .ok hello) {pls : List (List UInt8)}
    (he : List.Forall₂ Encodes packets pls) {s : SniffState}
    (hps : ∀ frame ∈ seen ++ packets.flatten, frame.PartOf m)
    (hf : From seen (s.sniffContext.getD [])) (hse : ¬ Covered m seen) :
    CorrectFrom m hello.serverName seen packets (sniffAll isQUICGo s pls) ↔
      JoinsFrom m seen (s.sniffContext.getD []) packets := by
  induction he generalizing seen s with
  | nil => exact Iff.rfl
  | @cons pa pay packets pls hp _ ih =>
    rw [flatten_cons, ← append_assoc] at hps
    have hps' : ∀ frame ∈ seen ++ pa, frame.PartOf m :=
      fun frame hfr => hps frame (mem_append_left _ hfr)
    have hc := quicClientHello_packet isQUICGo hm hh hps' hf hse hp
    have hf' := from_fragmentsOf hf pa
    rw [sniffAll, CorrectFrom, JoinsFrom]
    by_cases hco : Covered m (seen ++ pa)
    · simp only [hco, not_true_eq_false, false_imp_iff, true_imp_iff, true_and]
      refine ⟨fun hs => ?_, hc.1⟩
      by_contra hj
      rw [hc.2 hj] at hs
      cases hs
    · have hj : ¬ (Linked (fragmentsOf pa ++ s.sniffContext.getD []) 0 m.length ∧
          frameLen (fragmentsOf pa ++ s.sniffContext.getD []) = m.length) :=
        fun h => hco (covered_of_join hf' ((join_eq_iff hps' hf').mpr h.1))
      have hc := hc.2 hj
      simp only [hco, not_false_eq_true, true_imp_iff, false_imp_iff, and_true, hc, true_and]
      exact ih hps hf' hco

/-- The sniffer asks for more data until the message is covered and then finds its server name,
exactly if the fragments that cover it lead from its start to its end and have its length in sum.
No payload makes it panic or loop. -/
theorem reassembles_iff (isQUICGo : ClientHello → Bool) {m : List UInt8} {hello : ClientHello}
    (hm : m.length ≤ 16384) (hhello : compute (recordHeader m.length ++ m) = .ok hello)
    {packets : List (List Frame)} {payloads : List (List UInt8)}
    (hparts : ∀ packet ∈ packets, ∀ frame ∈ packet, frame.PartOf m)
    (hencodes : List.Forall₂ Encodes packets payloads) :
    (CorrectFrom m hello.serverName [] packets (sniffAll isQUICGo .fresh payloads) ↔
      JoinsFrom m [] [] packets) ∧ ∀ payloads, ∀ outcome ∈ sniffAll isQUICGo .fresh payloads,
      outcome ≠ .panics ∧ outcome ≠ .diverges := by
  refine ⟨?_, sniffAll_safe (incomplete_empty none)⟩
  obtain ⟨hl, -⟩ := length_eq_handshakeLength (by omega) hhello
  have hs : ¬ Covered m [] := by
    intro h
    obtain ⟨off, data, hme, -⟩ := h 0 (by omega)
    cases hme
  refine correctFrom_iff (s := .fresh) (by omega) hhello hencodes ?_ ?_ hs
  · intro frame hfr
    obtain ⟨packet, hp, hme⟩ := mem_flatten.mp hfr
    exact hparts packet hp frame hme
  · intro fragment hme
    cases hme

/-! ### Messages that are sent once -/

/-- The byte at an index of the message is in the fragment. -/
def Fragment.covers (i : ℕ) (fragment : Fragment) : Bool :=
  fragment.offset ≤ i ∧ i < fragment.offset + fragment.length

section Once

variable {fragments : List Fragment} {n : ℕ}

theorem sum_length_eq (hle : ∀ fragment ∈ fragments, fragment.offset + fragment.length ≤ n) :
    (fragments.map Fragment.length).sum = ∑ i ∈ Finset.range n, fragments.countP (covers i) := by
  induction fragments with
  | nil => simp
  | cons fragment fragments ih =>
    have hf : (Finset.range n).filter (fun i => fragment.covers i = true) =
        Finset.Ico fragment.offset (fragment.offset + fragment.length) := by
      have := hle fragment mem_cons_self
      ext i
      simp only [covers, Finset.mem_filter, Finset.mem_range, Finset.mem_Ico, decide_eq_true_eq]
      omega
    have hs : ∑ i ∈ Finset.range n, (if fragment.covers i = true then 1 else 0) =
        fragment.length := by
      rw [← Finset.card_filter, hf, Nat.card_Ico, Nat.add_sub_cancel_left]
    simp only [countP_cons, Finset.sum_add_distrib, hs]
    rw [map_cons, sum_cons, add_comm, ih fun other ho => hle other (mem_cons_of_mem _ ho)]

variable (hcovered : ∀ i < n, ∃ fragment ∈ fragments, fragment.covers i)
  (honce : ∀ i, fragments.countP (Fragment.covers i) ≤ 1)

include hcovered honce

theorem sum_length_of_once
    (hle : ∀ fragment ∈ fragments, fragment.offset + fragment.length ≤ n) :
    (fragments.map Fragment.length).sum = n := by
  have ho : ∀ i ∈ Finset.range n, fragments.countP (covers i) = 1 := by
    intro i hi
    obtain ⟨fragment, hm, hc⟩ := hcovered i (Finset.mem_range.mp hi)
    exact le_antisymm (honce i) (countP_pos_iff.mpr ⟨fragment, hm, hc⟩)
  rw [sum_length_eq hle, Finset.sum_congr rfl ho, ← Finset.card_eq_sum_ones, Finset.card_range]

theorem exists_startingAt {index : ℕ} (hi : index < n)
    (he : index = 0 ∨ ∃ fragment ∈ fragments, fragment.offset + fragment.length = index ∧
      0 < fragment.length) : ∃ fragment, startingAt fragments index = some fragment := by
  obtain ⟨next, hn, hc⟩ := hcovered index hi
  simp only [covers, decide_eq_true_eq] at hc
  have ho : next.offset = index := by
    by_contra hne
    obtain rfl | ⟨last, hl, hlen, hpos⟩ := he
    · omega
    -- both fragments have the byte before the index, and only one of them has the byte there
    have hb := countP_lt_of_imp
      (p := fun fragment => fragment.covers (index - 1) && fragment.covers index)
      (q := covers (index - 1)) (fun _ _ h => (Bool.and_eq_true_iff.mp h).1) hl
      (by simp only [covers, decide_eq_true_eq]; omega)
      (by simp only [covers, Bool.and_eq_false_iff, decide_eq_false_iff_not]; omega)
    have hp : 0 < fragments.countP
        fun fragment => fragment.covers (index - 1) && fragment.covers index :=
      countP_pos_iff.mpr ⟨next, hn, by
        simp only [covers, Bool.and_eq_true, decide_eq_true_eq]
        omega⟩
    have := honce (index - 1)
    omega
  have hs : (startingAt fragments index).isSome := by
    rw [startingAt, find?_isSome]
    exact ⟨next, hn, by
      simp only [decide_eq_true_eq]
      omega⟩
  exact Option.isSome_iff_exists.mp hs

theorem linked_of_once (hle : ∀ fragment ∈ fragments, fragment.offset + fragment.length ≤ n)
    {index : ℕ} (hi : index ≤ n)
    (he : index = 0 ∨ ∃ fragment ∈ fragments, fragment.offset + fragment.length = index ∧
      0 < fragment.length) : Linked fragments index n := by
  induction hr : n - index using Nat.strong_induction_on generalizing index with
  | _ remaining ih =>
    obtain rfl | hlt := eq_or_lt_of_le hi
    · exact .refl index
    · obtain ⟨fragment, hst⟩ := exists_startingAt hcovered honce hlt he
      have hm := mem_of_find?_eq_some hst
      have hf := find?_some hst
      simp only [decide_eq_true_eq] at hf
      have hfr := hle fragment hm
      refine .step hst (ih _ ?_ (by omega) (.inr ⟨fragment, hm, ?_, hf.2⟩) rfl)
      · omega
      · omega

end Once

variable {data : List UInt8}

theorem mem_fragmentsOf {offset : ℕ} (h : .crypto offset data ∈ frames) :
    ⟨offset, data.length, data⟩ ∈ fragmentsOf frames :=
  mem_filterMap.mpr ⟨_, h, rfl⟩

/-- If no byte of the message is sent twice, the fragments that cover it can be joined, whatever
their order, their cuts and the packets they are in. -/
theorem joinsFrom_of_once (hm : m.length < 65536)
    (hps : ∀ frame ∈ seen ++ packets.flatten, frame.PartOf m) (hf : From seen fragments)
    (ha : ∀ {off data}, .crypto off data ∈ seen → ⟨off, data.length, data⟩ ∈ fragments)
    (hon : ∀ i, (fragments ++ fragmentsOf packets.flatten).countP (covers i) ≤ 1) :
    JoinsFrom m seen fragments packets := by
  induction packets generalizing seen fragments with
  | nil => trivial
  | cons pa packets ih =>
    rw [flatten_cons, ← append_assoc] at hps
    have hf' := from_fragmentsOf hf pa
    have ha' {off : ℕ} {data : List UInt8} (h : .crypto off data ∈ seen ++ pa) :
        ⟨off, data.length, data⟩ ∈ fragmentsOf pa ++ fragments := by
      rcases mem_append.mp h with hol | hn
      · exact mem_append_right _ (ha hol)
      · exact mem_append_left _ (mem_fragmentsOf hn)
    have ho' : ∀ i, (fragmentsOf pa ++ fragments ++ fragmentsOf packets.flatten).countP
        (covers i) ≤ 1 := by
      intro i
      have := hon i
      rw [flatten_cons, fragmentsOf, filterMap_append, ← fragmentsOf, ← fragmentsOf] at this
      simp only [countP_append] at this ⊢
      omega
    refine ⟨fun _ => ih hps hf' ha' ho', fun hco => ?_⟩
    generalize fragmentsOf pa ++ fragments = fragments at hf' ha' ho' ⊢
    have hbs : ∀ i < m.length, ∃ fragment ∈ fragments, fragment.covers i := by
      intro i hi
      obtain ⟨off, data, hme, hlo, hh⟩ := hco i hi
      exact ⟨_, ha' hme, decide_eq_true ⟨hlo, hh⟩⟩
    have ho : ∀ i, fragments.countP (covers i) ≤ 1 := by
      intro i
      have := ho' i
      rw [countP_append] at this
      omega
    have hle : ∀ fragment ∈ fragments, fragment.offset + fragment.length ≤ m.length := by
      intro fragment hme
      obtain ⟨hl, hs⟩ := hf' fragment hme
      rw [hl]
      exact (hps _ (mem_append_left _ hs)).2
    refine ⟨linked_of_once hbs ho hle (zero_le _) (.inl rfl), ?_⟩
    rw [frameLen, sum_length_of_once hbs ho hle, mod_eq_of_lt hm]

/-- **A ClientHello of which no byte is sent twice is found**, in whatever order and packets its
parts come, and no earlier than with its last part. -/
theorem found_of_once (isQUICGo : ClientHello → Bool) {m : List UInt8} {hello : ClientHello}
    (hm : m.length ≤ 16384) (hhello : compute (recordHeader m.length ++ m) = .ok hello)
    {packets : List (List Frame)} {payloads : List (List UInt8)}
    (hparts : ∀ frame ∈ packets.flatten, frame.PartOf m)
    (hencodes : List.Forall₂ Encodes packets payloads)
    (honce : ∀ i, (fragmentsOf packets.flatten).countP (covers i) ≤ 1) :
    CorrectFrom m hello.serverName [] packets (sniffAll isQUICGo .fresh payloads) := by
  obtain ⟨hl, -⟩ := length_eq_handshakeLength (by omega) hhello
  have hs : ¬ Covered m [] := by
    intro h
    obtain ⟨off, data, hme, -⟩ := h 0 (by omega)
    cases hme
  refine (correctFrom_iff (s := .fresh) (by omega) hhello hencodes hparts ?_ hs).mpr ?_
  · rintro fragment ⟨⟩
  · exact joinsFrom_of_once (by omega) hparts (by rintro fragment ⟨⟩) (by simp) honce

/-! ### A message in two parts -/

/-- A ClientHello for the server name `a`. -/
def shortHello : List UInt8 :=
  [1, 0, 0, 50, 3, 3] ++ List.replicate 32 0 ++ [0, 0, 0, 0, 0, 10] ++
    [0, 0, 0, 6, 0, 4, 0, 0, 1, 97]

theorem compute_shortHello : ∃ hello, hello.serverName = [97] ∧
    compute (recordHeader shortHello.length ++ shortHello) = .ok hello :=
  ⟨⟨771, [], [0], [], [], [], [], [97]⟩, rfl, by decide⟩

theorem uvarint_small (h : n < 64) : Uvarint n [ofNat n] :=
  ⟨0, by omega, by simpa using h, by simp [bigEndian]⟩

theorem encodes_crypto {offset : ℕ} (ho : offset < 64) (hl : data.length < 64) {rest : List UInt8}
    (h : Encodes frames rest) :
    Encodes (.crypto offset data :: frames)
      (6 :: ofNat offset :: ofNat data.length :: (data ++ rest)) :=
  ⟨ofNat offset :: ofNat data.length :: data, rest,
    ⟨[ofNat offset], [ofNat data.length], uvarint_small ho, uvarint_small hl, rfl⟩, h, rfl⟩

/-- The first bytes of the message. -/
def firstPart : Frame := .crypto 0 (shortHello.take 20)

/-- The other bytes of the message. -/
def secondPart : Frame := .crypto 20 (shortHello.drop 20)

theorem covered_parts (hf : firstPart ∈ frames) (hs : secondPart ∈ frames) :
    Covered shortHello frames := by
  intro i hi
  by_cases hl : i < 20
  · exact ⟨0, shortHello.take 20, hf, by omega, by simpa [shortHello] using hl⟩
  · refine ⟨20, shortHello.drop 20, hs, by omega, ?_⟩
    rw [length_drop]
    omega

theorem partOf_parts (h : frame = firstPart ∨ frame = secondPart) : frame.PartOf shortHello := by
  rcases h with rfl | rfl <;> exact ⟨by decide, by decide⟩

/-- The second part comes first, in a packet of its own. -/
theorem found_of_once_example : CorrectFrom shortHello [97] [] [[secondPart], [firstPart]]
    (sniffAll (fun _ => false) .fresh [6 :: 20 :: 34 :: (shortHello.drop 20 ++ []),
      6 :: 0 :: 20 :: (shortHello.take 20 ++ [])]) := by
  obtain ⟨hello, hn, hh⟩ := compute_shortHello
  rw [← hn]
  refine found_of_once (fun _ => false) (by decide) hh (fun frame hfr => ?_) ?_ fun i => ?_
  · refine partOf_parts ?_
    simpa [or_comm] using hfr
  · refine .cons ?_ (.cons ?_ .nil)
    · exact encodes_crypto (by omega) (by decide) rfl
    · exact encodes_crypto (by omega) (by decide) rfl
  · have hf : fragmentsOf [[secondPart], [firstPart]].flatten =
        [⟨20, 34, shortHello.drop 20⟩, ⟨0, 20, shortHello.take 20⟩] := by decide
    rw [hf, countP_cons, countP_singleton]
    simp only [covers, decide_eq_true_eq]
    split_ifs <;> omega

/-- The parts in the other order, with padding and a PING. -/
theorem reassembles_iff_example :
    CorrectFrom shortHello [97] [] [[secondPart, .padding], [.ping, firstPart]]
      (sniffAll (fun _ => false) .fresh [6 :: 20 :: 34 :: (shortHello.drop 20 ++ [0]),
          1 :: 6 :: 0 :: 20 :: (shortHello.take 20 ++ [])]) := by
  obtain ⟨hello, hn, hh⟩ := compute_shortHello
  rw [← hn]
  refine (reassembles_iff (fun _ => false) (by decide) hh ?_ ?_).1.mpr ?_
  · intro packet hp frame hfr
    simp only [mem_cons, not_mem_nil, or_false] at hp
    rcases hp with rfl | rfl <;>
      simp only [mem_cons, not_mem_nil, or_false] at hfr <;>
      rcases hfr with rfl | rfl
    · exact partOf_parts (.inr rfl)
    · trivial
    · trivial
    · exact partOf_parts (.inl rfl)
  · refine .cons ?_ (.cons ?_ .nil)
    · exact encodes_crypto (by omega) (by decide) ⟨[], [], rfl, rfl, rfl⟩
    · exact ⟨[], _, rfl, encodes_crypto (by omega) (by decide) rfl, rfl⟩
  · have hf : ¬ Covered shortHello ([] ++ [secondPart, .padding]) := by
      intro h
      obtain ⟨off, data, hm, hle, -⟩ := h 0 (by decide)
      simp [secondPart] at hm
      omega
    have hb : Covered shortHello ([] ++ [secondPart, .padding] ++ [.ping, firstPart]) :=
      covered_parts (by decide) (by decide)
    refine ⟨fun _ => ⟨fun h => absurd hb h, fun _ => ?_⟩, fun h => absurd h hf⟩
    exact ⟨.step rfl (.step rfl (.refl _)), by decide⟩

/-- The first part is sent again together with the second. All of the message is there, and the
sniffer asks for more data. -/
theorem repeated_not_found : ∃ packets payloads,
    (∀ packet ∈ packets, ∀ frame ∈ packet, frame.PartOf shortHello) ∧
    List.Forall₂ Encodes packets payloads ∧ Covered shortHello packets.flatten ∧
    sniffAll (fun _ => false) .fresh payloads = [.needMoreData, .needMoreData] ∧
    ¬ CorrectFrom shortHello [97] [] packets (sniffAll (fun _ => false) .fresh payloads) := by
  have hb : Covered shortHello ([] ++ [firstPart] ++ [firstPart, secondPart]) :=
    covered_parts (by decide) (by decide)
  have hf : ¬ Covered shortHello ([] ++ [firstPart]) := by
    intro h
    obtain ⟨off, data, hm, -, hlt⟩ := h 20 (by decide)
    simp only [nil_append, mem_singleton, firstPart, Frame.crypto.injEq] at hm
    obtain ⟨rfl, rfl⟩ := hm
    exact absurd hlt (by decide)
  have ho : sniffAll (fun _ => false) .fresh
      [6 :: 0 :: 20 :: (shortHello.take 20 ++ []),
        6 :: 0 :: 20 :: (shortHello.take 20 ++ 6 :: 20 :: 34 :: (shortHello.drop 20 ++ []))] =
      [.needMoreData, .needMoreData] := by decide +kernel
  refine ⟨[[firstPart], [firstPart, secondPart]], _, ?_, ?_, hb, ho, ?_⟩
  · intro packet hp frame hfr
    refine partOf_parts ?_
    simp only [mem_cons, not_mem_nil, or_false] at hp
    rcases hp with rfl | rfl
    · exact .inl (mem_singleton.mp hfr)
    · simpa using hfr
  · refine .cons (encodes_crypto (by omega) (by decide) rfl) (.cons ?_ .nil)
    exact encodes_crypto (by omega) (by decide) (encodes_crypto (by omega) (by decide) rfl)
  · rw [ho]
    intro h
    have hs := (h.1 hf).2.2 hb
    cases hs

end SingBox.Sniff
