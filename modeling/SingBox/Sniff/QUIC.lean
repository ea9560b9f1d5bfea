import SingBox.Sniff.ClientHello
import SingBox.Foundation.Count

/-!
# Sniffing QUIC

The QUIC sniffer reads the frames of decrypted Initial packets. The parts of the ClientHello in the
CRYPTO frames are kept from packet to packet, newest packet first. After every packet they are
joined by following the offsets from zero, and the result is parsed as a TLS record whose length is
the sum of the lengths of all parts.
-/

namespace SingBox.Sniff

open Foundation Option List

/-- A part of the ClientHello. -/
structure Fragment where
  offset : ℕ
  length : ℕ
  payload : List UInt8
deriving DecidableEq, Repr

/-- `ReadUvarint`: the first two bits say how many bytes there are. -/
def readUvarint : List UInt8 → Option (ℕ × List UInt8)
  | [] => none
  | first :: bytes =>
    let more := 2 ^ (first.toNat / 64) - 1
    if bytes.length < more then none
    else some (first.toNat % 64 * 256 ^ more + ofBigEndian (bytes.take more), bytes.drop more)

/-- Numbers that are read and not used. -/
def skipUvarints : ℕ → List UInt8 → Option (List UInt8)
  | 0, bytes => some bytes
  | n + 1, bytes => (readUvarint bytes).bind fun read => skipUvarints n read.2

/-- An ACK frame. -/
def readAck (ecn : Bool) (bytes : List UInt8) : Option (List UInt8) :=
  (skipUvarints 2 bytes).bind fun bytes =>
    (readUvarint bytes).bind fun (ackRangeCount, bytes) =>
      (skipUvarints 1 bytes).bind fun bytes =>
        (skipUvarints (2 * ackRangeCount) bytes).bind fun bytes =>
          if ecn then skipUvarints 3 bytes else some bytes

/-- A CRYPTO frame. -/
def readCrypto (bytes : List UInt8) : Option (Fragment × List UInt8) :=
  (readUvarint bytes).bind fun (offset, bytes) =>
    (readUvarint bytes).bind fun (length, bytes) =>
      if bytes.length < length then none
      else some (⟨offset, length, bytes.take length⟩, bytes.drop length)

/-- A CONNECTION_CLOSE frame. The reason is skipped, beyond the end if it is too long. -/
def readClose (bytes : List UInt8) : Option (List UInt8) :=
  (skipUvarints 2 bytes).bind fun bytes =>
    (readUvarint bytes).map fun (length, bytes) => bytes.drop length

/-- How the frames of a payload are read. -/
inductive Frames
  | invalid
  | diverges
  | read (types : List UInt8) (fragments : List Fragment)
deriving DecidableEq, Repr

/-- The loop over the frames. -/
def readFrames : ℕ → List UInt8 → List UInt8 → List Fragment → Frames
  | 0, _, _, _ => .diverges
  | _ + 1, [], types, fragments => .read types fragments
  | fuel + 1, type :: bytes, types, fragments =>
    if type = 0 ∨ type = 1 then readFrames fuel bytes (types ++ [type]) fragments
    else if type = 2 ∨ type = 3 then
      match readAck (type == 3) bytes with
      | none => .invalid
      | some bytes => readFrames fuel bytes (types ++ [type]) fragments
    else if type = 6 then
      match readCrypto bytes with
      | none => .invalid
      | some (fragment, bytes) =>
        readFrames fuel bytes (types ++ [type]) (fragments ++ [fragment])
    else if type = 0x1c then
      match readClose bytes with
      | none => .invalid
      | some bytes => readFrames fuel bytes (types ++ [type]) fragments
    else .invalid

/-- The loop that joins the fragments from an index on, and whether it ends. -/
def joinFrom (fragments : List Fragment) : ℕ → ℕ → List UInt8 × Bool
  | 0, _ => ([], false)
  | fuel + 1, index =>
    match fragments.find? fun fragment => fragment.offset = index ∧ 0 < fragment.length with
    | none => ([], true)
    | some fragment =>
      let (bytes, ends) := joinFrom fragments fuel (fragment.offset + fragment.length)
      (fragment.payload ++ bytes, ends)

/-- All fragments joined. -/
def join (fragments : List Fragment) : List UInt8 × Bool :=
  joinFrom fragments (fragments.length + 1) 0

/-- The length in the record header: the sum of all lengths, in 16 bits. -/
def frameLen (fragments : List Fragment) : ℕ := (fragments.map Fragment.length).sum % 65536

/-- The clients that are told apart. -/
inductive Client
  | firefox
  | safari
  | quicGo
  | chromium
  | unknown
deriving DecidableEq, Repr

/-- The fingerprints of Safari. -/
def isSafari (hello : ClientHello) : Bool :=
  hello.versions.length == 2 && hello.versions.headD 0 &&& 0x0F0F == 0x0A0A &&
      hello.ellipticCurves.length == 5 && hello.ellipticCurves.headD 0 &&& 0x0F0F == 0x0A0A ||
    hello.cipherSuites == [0x1302] && hello.ellipticCurves == [29] &&
      hello.signatureAlgorithms == [0x0403]

/-- The client, from the types of the frames of the last packet and the ClientHello. Without any
frame the access to the first type panics. -/
def classify (isQUICGo : ClientHello → Bool) (types : List UInt8) (hello : ClientHello) :
    Option Client :=
  if types.length = 1 then some .firefox
  else
    match types.head?, types.getLast? with
    | some first, some last =>
      if first = 6 ∧ types.tail.all (· == 0) ∧ isSafari hello then some .safari
      else if last = 6 ∧ types.dropLast.all (· == 0) then some .quicGo
      else if 1 < types.count 6 ∨ 0 < types.count 1 then
        some (if isQUICGo hello then .quicGo else .chromium)
      else some .unknown
    | _, _ => none

/-- The part of the metadata that the sniffer keeps. -/
structure SniffState where
  sniffContext : Option (List Fragment)
  client : Option Client
deriving DecidableEq, Repr

/-- How a call ends. -/
inductive SniffOutcome
  | invalid
  | needMoreData
  | success (serverName : List UInt8)
  | panics
  | diverges
deriving DecidableEq, Repr

/-- The end of a call, after the ClientHello has been parsed. -/
def finishSniff (isQUICGo : ClientHello → Bool) (s : SniffState) (types : List UInt8)
    (hello : ClientHello) : SniffOutcome × SniffState :=
  match s.client with
  | some client => (.success hello.serverName, ⟨none, some client⟩)
  | none =>
    match classify isQUICGo types hello with
    | none => (.panics, ⟨none, none⟩)
    | some client => (.success hello.serverName, ⟨none, some client⟩)

/-- `QUICClientHello` on a decrypted payload. The buffer has room for all fragments. -/
def quicClientHello (isQUICGo : ClientHello → Bool) (s : SniffState) (decrypted : List UInt8) :
    SniffOutcome × SniffState :=
  match readFrames (decrypted.length + 1) decrypted [] [] with
  | .invalid => (.invalid, s)
  | .diverges => (.diverges, s)
  | .read types fragments =>
    let fragments := fragments ++ s.sniffContext.getD []
    let (bytes, ends) := join fragments
    if ends then
      match compute (recordHeader (frameLen fragments) ++ bytes) with
      | .ok hello => finishSniff isQUICGo s types hello
      | .error (.parse _) => (.needMoreData, { s with sniffContext := some fragments })
      | .error .panic => (.panics, { s with sniffContext := none })
      | .error .diverges => (.diverges, { s with sniffContext := none })
    else (.diverges, { s with sniffContext := none })

/-- The outcomes of the calls on several payloads with the same metadata. -/
def sniffAll (isQUICGo : ClientHello → Bool) : SniffState → List (List UInt8) → List SniffOutcome
  | _, [] => []
  | s, payload :: payloads =>
    (quicClientHello isQUICGo s payload).1 ::
      sniffAll isQUICGo (quicClientHello isQUICGo s payload).2 payloads

/-! ### The loops end -/

variable {bytes rest : List UInt8} {fragments : List Fragment} {isQUICGo : ClientHello → Bool}

theorem readUvarint_length {n : ℕ} (h : readUvarint bytes = some (n, rest)) :
    rest.length ≤ bytes.length := by
  cases bytes with
  | nil => cases h
  | cons first bytes =>
    simp only [readUvarint, ite_none_left_eq_some, some.injEq, Prod.mk.injEq] at h
    obtain ⟨-, -, rfl⟩ := h
    rw [length_drop, length_cons]
    omega

theorem skipUvarints_length {k : ℕ} (h : skipUvarints k bytes = some rest) :
    rest.length ≤ bytes.length := by
  induction k generalizing bytes with
  | zero =>
    cases h
    exact le_rfl
  | succ k ih =>
    obtain ⟨⟨n, bytes'⟩, hr, hs⟩ := bind_eq_some_iff.mp h
    exact (ih hs).trans (readUvarint_length hr)

theorem readAck_length {ecn : Bool} (h : readAck ecn bytes = some rest) :
    rest.length ≤ bytes.length := by
  obtain ⟨b₁, h₁, h⟩ := bind_eq_some_iff.mp h
  obtain ⟨⟨count, b₂⟩, h₂, h⟩ := bind_eq_some_iff.mp h
  obtain ⟨b₃, h₃, h⟩ := bind_eq_some_iff.mp h
  obtain ⟨b₄, h₄, h⟩ := bind_eq_some_iff.mp h
  have hl : rest.length ≤ b₄.length := by
    cases ecn with
    | false =>
      cases h
      exact le_rfl
    | true => exact skipUvarints_length h
  calc rest.length ≤ b₄.length := hl
    _ ≤ b₃.length := skipUvarints_length h₄
    _ ≤ b₂.length := skipUvarints_length h₃
    _ ≤ b₁.length := readUvarint_length h₂
    _ ≤ bytes.length := skipUvarints_length h₁

theorem readCrypto_length {fragment : Fragment} (h : readCrypto bytes = some (fragment, rest)) :
    rest.length ≤ bytes.length := by
  obtain ⟨⟨offset, b₁⟩, h₁, h⟩ := bind_eq_some_iff.mp h
  obtain ⟨⟨length, b₂⟩, h₂, h⟩ := bind_eq_some_iff.mp h
  simp only [ite_none_left_eq_some, some.injEq, Prod.mk.injEq] at h
  obtain ⟨-, -, rfl⟩ := h
  calc (b₂.drop length).length ≤ b₂.length := by rw [length_drop]; omega
    _ ≤ b₁.length := readUvarint_length h₂
    _ ≤ bytes.length := readUvarint_length h₁

theorem readClose_length (h : readClose bytes = some rest) : rest.length ≤ bytes.length := by
  obtain ⟨b₁, h₁, h⟩ := bind_eq_some_iff.mp h
  obtain ⟨⟨length, b₂⟩, h₂, rfl⟩ := map_eq_some_iff.mp h
  calc (b₂.drop length).length ≤ b₂.length := by rw [length_drop]; omega
    _ ≤ b₁.length := readUvarint_length h₂
    _ ≤ bytes.length := skipUvarints_length h₁

theorem readFrames_ends {fuel : ℕ} {bytes ts : List UInt8} (h : bytes.length < fuel) :
    readFrames fuel bytes ts fragments ≠ .diverges := by
  induction fuel generalizing bytes ts fragments with
  | zero => omega
  | succ fuel ih =>
    cases bytes with
    | nil => simp [readFrames]
    | cons type bytes =>
      rw [length_cons] at h
      rw [readFrames]
      split_ifs
      · exact ih (by omega)
      · split
        · simp
        · next hr => exact ih (by have := readAck_length hr; omega)
      · split
        · simp
        · next hr => exact ih (by have := readCrypto_length hr; omega)
      · split
        · simp
        · next hr => exact ih (by have := readClose_length hr; omega)
      · simp

theorem readFrames_types {fuel : ℕ} {bytes ts types' : List UInt8}
    {fragments fs' : List Fragment}
    (h : readFrames fuel bytes ts fragments = .read types' fs') : ts <+: types' := by
  induction fuel generalizing bytes ts fragments with
  | zero => cases h
  | succ fuel ih =>
    cases bytes with
    | nil =>
      cases h
      exact prefix_rfl
    | cons type bytes =>
      have hn {bytes fragments}
          (h : readFrames fuel bytes (ts ++ [type]) fragments = .read types' fs') :
          ts <+: types' := (prefix_append ts [type]).trans (ih h)
      rw [readFrames] at h
      split_ifs at h
      · exact hn h
      · split at h
        · cases h
        · exact hn h
      · split at h
        · cases h
        · exact hn h
      · split at h
        · cases h
        · exact hn h

theorem fragments_eq_nil {bytes : List UInt8}
    (h : readFrames (bytes.length + 1) bytes [] [] = .read [] fragments) : fragments = [] := by
  cases bytes with
  | nil =>
    cases h
    rfl
  | cons type bytes =>
    have hn {fuel bytes fs'}
        (h : readFrames fuel bytes ([] ++ [type]) fs' = .read [] fragments) :
        fragments = [] := by
      have := readFrames_types h
      simp at this
    rw [readFrames] at h
    split_ifs at h
    · exact hn h
    · split at h
      · cases h
      · exact hn h
    · split at h
      · cases h
      · exact hn h
    · split at h
      · cases h
      · exact hn h

/-- The index grows, so that there are fewer fragments ahead of it after every round. -/
theorem joinFrom_ends {fuel ix : ℕ}
    (h : fragments.countP (fun fragment => ix ≤ fragment.offset) < fuel) :
    (joinFrom fragments fuel ix).2 := by
  induction fuel generalizing ix with
  | zero => omega
  | succ fuel ih =>
    rw [joinFrom]
    split
    · rfl
    · next fragment hfi =>
      have hm := mem_of_find?_eq_some hfi
      have hf := find?_some hfi
      simp only [decide_eq_true_eq] at hf
      refine ih (lt_of_lt_of_le ?_ (Nat.le_of_lt_succ h))
      refine countP_lt_of_imp (fun other _ => ?_) hm ?_ ?_
      · simp only [decide_eq_true_eq]
        omega
      · simp only [decide_eq_true_eq]
        omega
      · simp only [decide_eq_false_iff_not]
        omega

theorem join_ends (fragments : List Fragment) : (join fragments).2 :=
  joinFrom_ends (Nat.lt_succ_of_le countP_le_length)

/-! ### No panic -/

/-- The context that is kept did not give a ClientHello. -/
def SniffState.Incomplete (s : SniffState) : Prop :=
  ∀ hello, compute (recordHeader (frameLen (s.sniffContext.getD [])) ++
    (join (s.sniffContext.getD [])).1) ≠ .ok hello

theorem incomplete_empty (client : Option Client) : SniffState.Incomplete ⟨none, client⟩ := by
  have hp : compute (recordHeader (frameLen []) ++ (join []).1) =
      .error (.parse (.length 3)) := by decide
  intro hello h
  rw [getD_none, hp] at h
  cases h

theorem classify_isSome (isQUICGo : ClientHello → Bool) {ts : List UInt8} (hello : ClientHello)
    (h : ts ≠ []) : (classify isQUICGo ts hello).isSome := by
  rw [classify]
  by_cases hl : ts.length = 1
  · rw [if_pos hl]
    rfl
  · rw [if_neg hl, head?_eq_some_head h, getLast?_eq_some_getLast h]
    dsimp only
    split_ifs <;> rfl

variable {s : SniffState}

theorem quicClientHello_read {dec ts : List UInt8}
    (h : readFrames (dec.length + 1) dec [] [] = .read ts fragments) :
    quicClientHello isQUICGo s dec =
      match compute (recordHeader (frameLen (fragments ++ s.sniffContext.getD [])) ++
        (join (fragments ++ s.sniffContext.getD [])).1) with
      | .ok hello => finishSniff isQUICGo s ts hello
      | .error (.parse _) =>
        (.needMoreData, { s with sniffContext := some (fragments ++ s.sniffContext.getD []) })
      | .error .panic => (.panics, { s with sniffContext := none })
      | .error .diverges => (.diverges, { s with sniffContext := none }) := by
  simp [quicClientHello, h, join_ends]

/-- A call that does not panic or loop, and the context it leaves. -/
def SafeCall (result : SniffOutcome × SniffState) : Prop :=
  result.1 ≠ .panics ∧ result.1 ≠ .diverges ∧ result.2.Incomplete

theorem finishSniff_eq (isQUICGo : ClientHello → Bool) (s : SniffState) {ts : List UInt8}
    (hello : ClientHello) (h : ts ≠ []) : ∃ client,
      finishSniff isQUICGo s ts hello = (.success hello.serverName, ⟨none, some client⟩) := by
  rw [finishSniff]
  split
  · exact ⟨_, rfl⟩
  · obtain ⟨client, hc⟩ := isSome_iff_exists.mp (classify_isSome isQUICGo hello h)
    rw [hc]
    exact ⟨client, rfl⟩

/-- One call. Without any frame the fragments are those of the context, which did not give a
ClientHello before. -/
theorem quicClientHello_safe (hs : s.Incomplete) (dec : List UInt8) :
    SafeCall (quicClientHello isQUICGo s dec) := by
  cases hr : readFrames (dec.length + 1) dec [] [] with
  | invalid =>
    simp only [quicClientHello, hr]
    exact ⟨by simp, by simp, hs⟩
  | diverges => exact absurd hr (readFrames_ends (Nat.lt_succ_self _))
  | read ts fragments =>
    rw [quicClientHello_read hr]
    obtain ⟨hp, hd⟩ := safe_compute
      (recordHeader (frameLen (fragments ++ s.sniffContext.getD [])) ++
        (join (fragments ++ s.sniffContext.getD [])).1)
    split
    · next hello hh =>
      have ht : ts ≠ [] := by
        rintro rfl
        rw [fragments_eq_nil hr, nil_append] at hh
        exact hs hello hh
      obtain ⟨client, hf⟩ := finishSniff_eq isQUICGo s hello ht
      rw [hf]
      exact ⟨by simp, by simp, incomplete_empty _⟩
    · next hpa =>
      refine ⟨by simp, by simp, fun hello hh => ?_⟩
      rw [getD_some, hpa] at hh
      cases hh
    · next h => exact absurd h hp
    · next h => exact absurd h hd

theorem sniffAll_safe (hs : s.Incomplete) (payloads : List (List UInt8)) :
    ∀ outcome ∈ sniffAll isQUICGo s payloads, outcome ≠ .panics ∧ outcome ≠ .diverges := by
  induction payloads generalizing s with
  | nil => simp [sniffAll]
  | cons payload payloads ih =>
    obtain ⟨hp, hd, hn⟩ := quicClientHello_safe hs payload
    rw [sniffAll, forall_mem_cons]
    exact ⟨⟨hp, hd⟩, ih hn⟩

end SingBox.Sniff
