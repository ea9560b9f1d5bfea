import SingBox.TLSFragment.Index

/-!
# The ClientHello parser of the sniffers

`ja3.Compute` parses a TLS record with a ClientHello. Every access to a byte or a slice can panic,
and the loop over the extensions advances by a 16-bit sum; the parser is written here with both as
outcomes, and neither happens.
-/

namespace SingBox.Sniff

open Foundation Except

/-- The errors of the parser, with the numbers the source gives them. -/
inductive ParseError
  | length (n : ℕ)
  | contentType
  | version (n : ℕ)
  | handshakeType
  | sniType
deriving DecidableEq, Repr

/-- How a computation fails. -/
inductive Fault
  | parse (error : ParseError)
  | panic
  | diverges
deriving DecidableEq, Repr

/-- The computations of the parser. -/
abbrev Go (α : Type) := Except Fault α

/-- `b[i]`. -/
def index (b : List UInt8) (i : ℕ) : Go UInt8 :=
  match b[i]? with
  | some byte => .ok byte
  | none => .error .panic

/-- `b[i:]`. -/
def sliceFrom (b : List UInt8) (i : ℕ) : Go (List UInt8) :=
  if i ≤ b.length then .ok (b.drop i) else .error .panic

/-- `b[i:i+n]`. -/
def slice (b : List UInt8) (i n : ℕ) : Go (List UInt8) :=
  if i + n ≤ b.length then .ok ((b.drop i).take n) else .error .panic

/-- The 16-bit number at an index. -/
def uint16 (b : List UInt8) (i : ℕ) : Go ℕ := do
  let high ← index b i
  let low ← index b (i + 1)
  return high.toNat * 256 + low.toNat

/-- A condition without which the parser returns an error. -/
def require (p : Prop) [Decidable p] (error : ParseError) : Go Unit :=
  if p then .ok () else .error (.parse error)

/-- What is found in a ClientHello. -/
structure ClientHello where
  version : ℕ
  cipherSuites : List ℕ
  extensions : List ℕ
  ellipticCurves : List ℕ
  ellipticCurvePF : List UInt8
  versions : List ℕ
  signatureAlgorithms : List ℕ
  serverName : List UInt8
deriving DecidableEq, Repr

/-- A list of 16-bit numbers. -/
def uint16s (b : List UInt8) (start : ℕ) : ℕ → Go (List ℕ)
  | 0 => .ok []
  | n + 1 => do
    let numbers ← uint16s b start n
    let number ← uint16 b (start + 2 * n)
    return numbers ++ [number]

/-- One extension. -/
def parseExtension (hello : ClientHello) (exType : ℕ) (sex : List UInt8) : Go ClientHello :=
  if exType = 0 then do
    require (5 ≤ sex.length) (.length 13)
    let sniType ← index sex 2
    let sniLen ← uint16 sex 3
    let sex ← sliceFrom sex 5
    require (sex.length = sniLen) (.length 14)
    require (sniType = 0) .sniType
    return { hello with serverName := sex }
  else if exType = 10 then do
    require (2 ≤ sex.length) (.length 15)
    let ecsLen ← uint16 sex 0
    let sex ← sliceFrom sex 2
    require (sex.length = ecsLen) (.length 16)
    let curves ← uint16s sex 0 (ecsLen / 2)
    return { hello with ellipticCurves := curves }
  else if exType = 11 then do
    require (1 ≤ sex.length) (.length 17)
    let numPF ← index sex 0
    let sex ← sliceFrom sex 1
    require (sex.length = numPF.toNat) (.length 18)
    return { hello with ellipticCurvePF := sex }
  else if exType = 43 then do
    require (1 ≤ sex.length) (.length 19)
    let versionsLen ← index sex 0
    let sex ← sliceFrom sex 1
    require (versionsLen.toNat ≤ sex.length) (.length 21)
    let versions ← uint16s sex 0 (versionsLen.toNat / 2)
    return { hello with versions := hello.versions ++ versions }
  else if exType = 13 then do
    require (2 ≤ sex.length) (.length 20)
    let ssaLen ← uint16 sex 0
    let sex ← sliceFrom sex 2
    require (ssaLen ≤ sex.length) (.length 22)
    let algorithms ← uint16s sex 0 (ssaLen / 2)
    return { hello with signatureAlgorithms := hello.signatureAlgorithms ++ algorithms }
  else return hello

/-- The loop over the extensions. -/
def parseExtensionList : ℕ → ClientHello → List UInt8 → Go ClientHello
  | 0, _, _ => .error .diverges
  | fuel + 1, hello, exs =>
    if exs = [] then return hello
    else do
      require (4 ≤ exs.length) (.length 11)
      let exType ← uint16 exs 0
      let exLen ← uint16 exs 2
      require (4 + exLen ≤ exs.length) (.length 12)
      let sex ← slice exs 4 exLen
      let hello ←
        parseExtension { hello with extensions := hello.extensions ++ [exType] } exType sex
      -- `exs[4+exLen:]`, with a 16-bit sum.
      let exs ← sliceFrom exs ((4 + exLen) % 65536)
      parseExtensionList fuel hello exs

/-- The extensions of a handshake. -/
def parseExtensions (hello : ClientHello) (exs : List UInt8) : Go ClientHello :=
  if exs.length = 0 then return hello
  else do
    require (2 ≤ exs.length) (.length 9)
    let exsLen ← uint16 exs 0
    let exs ← sliceFrom exs 2
    require (exsLen ≤ exs.length) (.length 10)
    parseExtensionList (exs.length + 1) hello exs

/-- The handshake message, behind its length. -/
def parseBody (hs : List UInt8) : Go ClientHello := do
  let version ← uint16 hs 4
  require (TLSFragment.acceptedVersion version) (.version 2)
  let sessionIDLen ← index hs 38
  require (39 + sessionIDLen.toNat ≤ hs.length) (.length 5)
  let cs ← sliceFrom hs (39 + sessionIDLen.toNat)
  require (2 ≤ cs.length) (.length 6)
  let csLen ← uint16 cs 0
  require (2 + csLen + 1 ≤ cs.length) (.length 7)
  let cipherSuites ← uint16s cs 2 (csLen / 2)
  let compressMethodLen ← index cs (2 + csLen)
  require (2 + csLen + 1 + compressMethodLen.toNat ≤ cs.length) (.length 8)
  let exs ← sliceFrom cs (2 + csLen + 1 + compressMethodLen.toNat)
  parseExtensions ⟨version, cipherSuites, [], [], [], [], [], []⟩ exs

/-- The handshake message. -/
def parseHandshake (hs : List UInt8) : Go ClientHello := do
  require (39 ≤ hs.length) (.length 3)
  let handshType ← index hs 0
  require (handshType = 1) .handshakeType
  let high ← index hs 1
  let low ← uint16 hs 2
  let body ← sliceFrom hs 4
  require (body.length = high.toNat * 65536 + low) (.length 4)
  parseBody hs

/-- `ja3.Compute`. -/
def compute (segment : List UInt8) : Go ClientHello := do
  require (5 ≤ segment.length) (.length 1)
  let contType ← index segment 0
  require (contType = 22) .contentType
  let version ← uint16 segment 1
  require (TLSFragment.acceptedVersion version) (.version 1)
  let segmentLen ← uint16 segment 3
  let body ← sliceFrom segment 5
  require (segmentLen ≤ body.length) (.length 2)
  let hs ← slice segment 5 segmentLen
  parseHandshake hs

/-! ### Safety -/

/-- The computation neither panics nor loops. -/
def Safe {α : Type} (x : Go α) : Prop := x ≠ .error .panic ∧ x ≠ .error .diverges

section Safe

variable {α β : Type}

theorem safe_ok (a : α) : Safe (.ok a : Go α) := ⟨by simp, by simp⟩

theorem Safe.bind {x : Go α} {f : α → Go β} (hx : Safe x) (hf : ∀ a, x = .ok a → Safe (f a)) :
    Safe (x >>= f) := by
  cases x with
  | ok a => exact hf a rfl
  | error fault =>
    obtain ⟨hp, hd⟩ := hx
    cases fault with
    | parse error => exact ⟨by simp [Bind.bind, Except.bind], by simp [Bind.bind, Except.bind]⟩
    | panic => exact absurd rfl hp
    | diverges => exact absurd rfl hd

variable {error : ParseError}

theorem safe_require {p : Prop} [Decidable p] : Safe (require p error) := by
  rw [require]
  split_ifs
  · exact safe_ok ()
  · exact ⟨by simp, by simp⟩

theorem of_require_eq_ok {p : Prop} [Decidable p] {u : Unit} (h : require p error = .ok u) : p := by
  by_contra hp
  rw [require, if_neg hp] at h
  cases h

theorem safe_require_bind {p : Prop} [Decidable p] {f : Unit → Go β} (h : p → Safe (f ())) :
    Safe (require p error >>= f) :=
  safe_require.bind fun _ hr => h (of_require_eq_ok hr)

variable {b : List UInt8} {i : ℕ}

theorem index_of_lt (h : i < b.length) : index b i = .ok b[i] := by
  rw [index, List.getElem?_eq_getElem h]

theorem safe_index (h : i < b.length) : Safe (index b i) := by
  rw [index_of_lt h]
  exact safe_ok _

theorem safe_uint16 (h : i + 1 < b.length) : Safe (uint16 b i) :=
  (safe_index (by omega)).bind fun _ _ => (safe_index h).bind fun _ _ => safe_ok _

variable {i n : ℕ}

theorem uint16_lt (h : uint16 b i = .ok n) : n < 65536 := by
  rw [uint16] at h
  cases hh : index b i with
  | error => simp [hh, Bind.bind, Except.bind] at h
  | ok hi =>
    cases hl : index b (i + 1) with
    | error => simp [hh, hl, Bind.bind, Except.bind] at h
    | ok low =>
      have heq : hi.toNat * 256 + low.toNat = n := by
        simpa [hh, hl, Bind.bind, Except.bind, Pure.pure, Except.pure] using h
      have hh' := hi.toNat_lt
      have hl' := low.toNat_lt
      omega

theorem safe_sliceFrom (h : i ≤ b.length) : Safe (sliceFrom b i) := by
  rw [sliceFrom, if_pos h]
  exact safe_ok _

variable {b c : List UInt8}

theorem sliceFrom_eq_ok (h : sliceFrom b i = .ok c) : c.length = b.length - i := by
  rw [sliceFrom] at h
  split_ifs at h
  rw [← ok.inj h, List.length_drop]

theorem safe_slice (h : i + n ≤ b.length) : Safe (slice b i n) := by
  rw [slice, if_pos h]
  exact safe_ok _

theorem slice_eq_ok (h : slice b i n = .ok c) : c.length = n := by
  rw [slice] at h
  split_ifs at h with hle
  rw [← ok.inj h, List.length_take, List.length_drop]
  omega

theorem safe_uint16s {start n : ℕ} (h : start + 2 * n ≤ b.length) : Safe (uint16s b start n) := by
  induction n with
  | zero => exact safe_ok []
  | succ n ih =>
    exact (ih (by omega)).bind fun _ _ => (safe_uint16 (by omega)).bind fun _ _ => safe_ok _

end Safe

theorem safe_parseExtension (hello : ClientHello) (exType : ℕ) (sex : List UInt8) :
    Safe (parseExtension hello exType sex) := by
  rw [parseExtension]
  split_ifs
  · refine safe_require_bind fun hl => ?_
    refine (safe_index (by omega)).bind fun _ _ => (safe_uint16 (by omega)).bind fun _ _ => ?_
    refine (safe_sliceFrom (by omega)).bind fun _ _ => safe_require_bind fun _ => ?_
    exact safe_require_bind fun _ => safe_ok _
  · refine safe_require_bind fun hl => ?_
    refine (safe_uint16 (by omega)).bind fun ecsLen _ => ?_
    refine (safe_sliceFrom (by omega)).bind fun rest _ => safe_require_bind fun hr => ?_
    exact (safe_uint16s (by omega)).bind fun _ _ => safe_ok _
  · refine safe_require_bind fun hl => ?_
    refine (safe_index (by omega)).bind fun _ _ => (safe_sliceFrom (by omega)).bind fun _ _ => ?_
    exact safe_require_bind fun _ => safe_ok _
  · refine safe_require_bind fun hl => ?_
    refine (safe_index (by omega)).bind fun versionsLen _ => ?_
    refine (safe_sliceFrom (by omega)).bind fun rest _ => safe_require_bind fun hr => ?_
    exact (safe_uint16s (by omega)).bind fun _ _ => safe_ok _
  · refine safe_require_bind fun hl => ?_
    refine (safe_uint16 (by omega)).bind fun ssaLen _ => ?_
    refine (safe_sliceFrom (by omega)).bind fun rest _ => safe_require_bind fun hr => ?_
    exact (safe_uint16s (by omega)).bind fun _ _ => safe_ok _
  · exact safe_ok _

variable {exs : List UInt8}

/-- In less than 65536 bytes the 16-bit sum is the sum, and every round takes at least four
bytes. -/
theorem safe_parseExtensionList {fuel : ℕ} (hello : ClientHello) (hf : exs.length < fuel)
    (hsh : exs.length < 65536) : Safe (parseExtensionList fuel hello exs) := by
  induction fuel generalizing hello exs with
  | zero => omega
  | succ fuel ih =>
    rw [parseExtensionList]
    split_ifs
    · exact safe_ok _
    · refine safe_require_bind fun hh => ?_
      refine (safe_uint16 (by omega)).bind fun _ _ => ?_
      refine (safe_uint16 (by omega)).bind fun exLen _ => ?_
      refine safe_require_bind fun hl => ?_
      refine (safe_slice (by omega)).bind fun _ _ => ?_
      refine (safe_parseExtension _ _ _).bind fun _ _ => ?_
      have hsu : (4 + exLen) % 65536 = 4 + exLen := Nat.mod_eq_of_lt (by omega)
      rw [hsu]
      refine (safe_sliceFrom hl).bind fun rest hr => ?_
      have hr' := sliceFrom_eq_ok hr
      exact ih _ (by omega) (by omega)

theorem safe_parseExtensions (hl : ClientHello) (hsh : exs.length < 65536) :
    Safe (parseExtensions hl exs) := by
  rw [parseExtensions]
  split_ifs
  · exact safe_ok _
  · refine safe_require_bind fun hh => ?_
    refine (safe_uint16 (by omega)).bind fun _ _ => ?_
    refine (safe_sliceFrom (by omega)).bind fun rest hr => safe_require_bind fun _ => ?_
    have hr' := sliceFrom_eq_ok hr
    exact safe_parseExtensionList _ (by omega) (by omega)

variable {hs : List UInt8}

theorem safe_parseBody (hh : 39 ≤ hs.length) (hsh : hs.length < 65536) : Safe (parseBody hs) := by
  rw [parseBody]
  refine (safe_uint16 (by omega)).bind fun _ _ => safe_require_bind fun _ => ?_
  refine (safe_index (by omega)).bind fun sessionIDLen _ => safe_require_bind fun hse => ?_
  refine (safe_sliceFrom hse).bind fun cs hcs => safe_require_bind fun hsu => ?_
  have hcs' := sliceFrom_eq_ok hcs
  refine (safe_uint16 (by omega)).bind fun csLen _ => safe_require_bind fun hm => ?_
  refine (safe_uint16s (by omega)).bind fun _ _ => ?_
  refine (safe_index (by omega)).bind fun _ _ => safe_require_bind fun hc => ?_
  refine (safe_sliceFrom hc).bind fun exs he => ?_
  have he' := sliceFrom_eq_ok he
  exact safe_parseExtensions _ (by omega)

theorem safe_parseHandshake (hsh : hs.length < 65536) : Safe (parseHandshake hs) := by
  rw [parseHandshake]
  refine safe_require_bind fun hh => ?_
  refine (safe_index (by omega)).bind fun _ _ => safe_require_bind fun _ => ?_
  refine (safe_index (by omega)).bind fun _ _ => (safe_uint16 (by omega)).bind fun _ _ => ?_
  refine (safe_sliceFrom (by omega)).bind fun _ _ => safe_require_bind fun _ => ?_
  exact safe_parseBody hh hsh

theorem safe_compute (segment : List UInt8) : Safe (compute segment) := by
  rw [compute]
  refine safe_require_bind fun hh => ?_
  refine (safe_index (by omega)).bind fun _ _ => safe_require_bind fun _ => ?_
  refine (safe_uint16 (by omega)).bind fun _ _ => safe_require_bind fun _ => ?_
  refine (safe_uint16 (by omega)).bind fun segmentLen hse => ?_
  refine (safe_sliceFrom (by omega)).bind fun body hb => safe_require_bind fun hsg => ?_
  have hb' := sliceFrom_eq_ok hb
  refine (safe_slice (by omega)).bind fun hs hhs => ?_
  have hl := slice_eq_ok hhs
  have hlt := uint16_lt hse
  exact safe_parseHandshake (by omega)

/-! ### Acceptance -/

/-- The header of a record for the given number of bytes, as the QUIC sniffer writes it. -/
def recordHeader (n : ℕ) : List UInt8 := [0x16, 3, 3] ++ bigEndian 2 n

theorem bind_eq_ok {α β : Type} {x : Go α} {f : α → Go β} {b : β} (h : x >>= f = .ok b) :
    ∃ a, x = .ok a ∧ f a = .ok b := by
  cases x with
  | ok a => exact ⟨a, rfl, h⟩
  | error => cases h

theorem uint16_eq {b : List UInt8} {i : ℕ} (h : i + 1 < b.length) :
    uint16 b i = .ok (b[i].toNat * 256 + b[i + 1].toNat) := by
  rw [uint16, index_of_lt (by omega), index_of_lt h]
  rfl

/-- The length of the message that a handshake header gives. -/
def handshakeLength (hs : List UInt8) : ℕ :=
  4 + ((hs.getD 1 0).toNat * 65536 + ((hs.getD 2 0).toNat * 256 + (hs.getD 3 0).toNat))

theorem parseHandshake_eq_ok {hello : ClientHello} (h : parseHandshake hs = .ok hello) :
    39 ≤ hs.length ∧ hs.length = handshakeLength hs := by
  rw [parseHandshake] at h
  obtain ⟨_, hhdr, h⟩ := bind_eq_ok h
  have hhdr := of_require_eq_ok hhdr
  obtain ⟨_, -, h⟩ := bind_eq_ok h
  obtain ⟨_, -, h⟩ := bind_eq_ok h
  obtain ⟨high, hh, h⟩ := bind_eq_ok h
  obtain ⟨low, hl, h⟩ := bind_eq_ok h
  obtain ⟨body, hb, h⟩ := bind_eq_ok h
  obtain ⟨_, hlen, -⟩ := bind_eq_ok h
  have hlen := of_require_eq_ok hlen
  have hb := sliceFrom_eq_ok hb
  rw [index_of_lt (by omega)] at hh
  rw [uint16_eq (by omega)] at hl
  have hh := ok.inj hh
  have hl := ok.inj hl
  refine ⟨hhdr, ?_⟩
  have hg : ∀ i (hi : i < hs.length), hs.getD i 0 = hs[i] := fun i hi => by simp [hi]
  rw [handshakeLength, hg 1 (by omega), hg 2 (by omega), hg 3 (by omega), hh, hl]
  omega

theorem require_of {p : Prop} [Decidable p] {error : ParseError} (h : p) :
    require p error = .ok () := if_pos h

theorem ok_bind {α β : Type} (a : α) (f : α → Go β) : ((.ok a : Go α) >>= f) = f a := rfl

theorem exists_bigEndian_two {n : ℕ} (hn : n < 65536) :
    ∃ hi low : UInt8, bigEndian 2 n = [hi, low] ∧ hi.toNat * 256 + low.toNat = n := by
  have hl := length_bigEndian 2 n
  have hv : ofBigEndian (bigEndian 2 n) = n := ofBigEndian_bigEndian_of_lt (by simpa using hn)
  match hbs : bigEndian 2 n with
  | [hi, low] =>
    rw [hbs] at hv
    exact ⟨hi, low, rfl, by simpa [ofBigEndian] using hv⟩
  | [] | [_] | _ :: _ :: _ :: _ =>
    rw [hbs] at hl
    simp at hl

/-- The record of a message: the parser checks its length and parses the message. -/
theorem compute_recordHeader {n : ℕ} (hn : n < 65536) (bytes : List UInt8) :
    compute (recordHeader n ++ bytes) =
      if n ≤ bytes.length then parseHandshake (bytes.take n) else .error (.parse (.length 2)) := by
  obtain ⟨hi, low, hbs, hv⟩ := exists_bigEndian_two hn
  have hse : recordHeader n ++ bytes = 0x16 :: 3 :: 3 :: hi :: low :: bytes := by
    rw [recordHeader, hbs]
    rfl
  have hve : uint16 (0x16 :: 3 :: 3 :: hi :: low :: bytes) 1 = .ok 771 := rfl
  have hl : uint16 (0x16 :: 3 :: 3 :: hi :: low :: bytes) 3 = .ok n := by
    rw [← hv]
    rfl
  have hb : sliceFrom (0x16 :: 3 :: 3 :: hi :: low :: bytes) 5 = .ok bytes :=
    if_pos (by simp)
  rw [hse, compute, require_of (by simp), ok_bind]
  have hidx : index (0x16 :: 3 :: 3 :: hi :: low :: bytes) 0 = .ok 0x16 := rfl
  rw [hidx, ok_bind, require_of (by decide), ok_bind, hve, ok_bind,
    require_of (by decide), ok_bind, hl, ok_bind, hb, ok_bind]
  by_cases hle : n ≤ bytes.length
  · rw [require_of hle, ok_bind, if_pos hle, slice,
      if_pos (by simp only [List.length_cons]; omega), ok_bind]
    rfl
  · rw [if_neg hle, require, if_neg hle]
    rfl

end SingBox.Sniff
