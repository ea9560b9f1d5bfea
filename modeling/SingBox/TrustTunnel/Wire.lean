import SingBox.Foundation.Source
import SingBox.Net.Addr

/-!
# UDP frames of TrustTunnel

A datagram travels in a stream as a frame: a length, the endpoints, in client frames an
application name, and the payload. The reader of server frames cuts a payload to the buffer it is
given and discards the rest of the frame. An endpoint has sixteen bytes for the address and none for
the zone of an IPv6 address.
-/

namespace SingBox.TrustTunnel

open SingBox.Net Foundation Foundation.Source Outcome List

/-- `M.Socksaddr`; the address is invalid if there is a domain name. -/
structure Socksaddr where
  addr : ZonedAddr
  port : UInt16
  fqdn : String := ""
deriving DecidableEq

def frameLengthSize : ℕ := 4

def frameAddressSize : ℕ := 16

def frameEndpointSize : ℕ := frameAddressSize + 2

def clientFrameHeaderSize : ℕ := 2 * frameEndpointSize + 1

def serverFrameHeaderSize : ℕ := 2 * frameEndpointSize

def maxPayloadSize : ℕ := 65535

def maxAppNameSize : ℕ := 255

def maxClientFrameSize : ℕ := clientFrameHeaderSize + maxAppNameSize + maxPayloadSize

def maxServerFrameSize : ℕ := serverFrameHeaderSize + maxPayloadSize

/-- The length of `frameReader.scratch`. -/
def scratchSize : ℕ := frameLengthSize + clientFrameHeaderSize + maxAppNameSize

def errFrameTooLarge : String := "trusttunnel: UDP frame too large"

def errFrameTooShort : String := "trusttunnel: UDP frame too short"

/-! ### Encoding -/

/-- The address part of `putEndpoint`. -/
def addressBytes : Addr → List UInt8
  | .invalid => List.replicate 16 0
  | .v4 a => List.replicate 12 0 ++ bigEndian 4 a.toNat
  | .v6 a => bigEndian 16 a.toNat

def putEndpoint (address : Socksaddr) : List UInt8 :=
  addressBytes address.addr.unmap.addr ++ bigEndian 2 address.port.toNat

/-- `EncodeClientFrame`, on a buffer that holds the payload; `text` is the text of an address. -/
def encodeClientFrame (text : Socksaddr → String) (payload : List UInt8)
    (source destination : Socksaddr) (appName : List UInt8) : Except String (List UInt8) :=
  if maxAppNameSize < appName.length then .error "trusttunnel: application name too long"
  else if !destination.addr.addr.isValid then
    .error ("trusttunnel: UDP destination is not an IP address: " ++ text destination)
  else if maxPayloadSize < payload.length then .error errFrameTooLarge
  else
    .ok (bigEndian 4 (clientFrameHeaderSize + appName.length + payload.length) ++
      (putEndpoint source ++ (putEndpoint destination ++
        (UInt8.ofNat appName.length :: (appName ++ payload)))))

/-- `EncodeServerFrame`, on a buffer that holds the payload. -/
def encodeServerFrame (payload : List UInt8) (source destination : Socksaddr) :
    Except String (List UInt8) :=
  if maxPayloadSize < payload.length then .error errFrameTooLarge
  else
    .ok (bigEndian 4 (serverFrameHeaderSize + payload.length) ++
      (putEndpoint source ++ (putEndpoint destination ++ payload)))

/-! ### Decoding -/

/-- The address part of `readEndpoint`. -/
def readAddress (b : List UInt8) : Addr :=
  if (b.take 12).all (· == 0) then
    .v4 (BitVec.ofNat 32 (ofBigEndian ((b.take frameAddressSize).drop 12)))
  else (Addr.v6 (BitVec.ofNat 128 (ofBigEndian (b.take frameAddressSize)))).unmap

def readEndpoint (b : List UInt8) : Socksaddr where
  addr := .ofAddr (readAddress b)
  port := UInt16.ofNat (ofBigEndian ((b.drop frameAddressSize).take 2))

def unexpectedEOF (err : String) : String := if err = "EOF" then "unexpected EOF" else err

/-- `frameReader.readLength`. -/
def readLength (headerSize maxSize : ℕ) : Source ℕ := do
  let bytes ← readFull frameLengthSize
  if ofBigEndian bytes < headerSize then fail errFrameTooShort
  else if maxSize < ofBigEndian bytes then fail errFrameTooLarge
  else pure (ofBigEndian bytes)

/-- What a read of a frame returns. -/
structure Frame where
  source : Socksaddr
  destination : Socksaddr
  payload : List UInt8
deriving DecidableEq

/-- The application name, which is dropped. -/
def readAppName (appNameLen : ℕ) : Source (List UInt8) :=
  if 0 < appNameLen then mapError unexpectedEOF (readFull appNameLen) else pure []

/-- `frameReader.ReadClientFrame`. -/
def readClientFrame : Source Frame := do
  let length ← readLength clientFrameHeaderSize maxClientFrameSize
  let header ← mapError unexpectedEOF (readFull clientFrameHeaderSize)
  let source := readEndpoint header
  let destination := readEndpoint (header.drop frameEndpointSize)
  let appNameLen := (header.getD (2 * frameEndpointSize) 0).toNat
  if length < clientFrameHeaderSize + appNameLen then fail errFrameTooShort
  else if maxPayloadSize < length - clientFrameHeaderSize - appNameLen then fail errFrameTooLarge
  else do
    let _ ← readAppName appNameLen
    let payload ← mapError unexpectedEOF (readFull (length - clientFrameHeaderSize - appNameLen))
    pure { source, destination, payload }

/-- `frameReader.discard`. -/
def discard (n : ℕ) : Source Unit :=
  if n = 0 then pure ()
  else do
    let _ ← readFull (min n scratchSize)
    discard (n - min n scratchSize)
termination_by n
decreasing_by simp only [scratchSize, frameLengthSize]; omega

/-- `frameReader.ReadServerFrame`, into a buffer with room for `freeLen` bytes. -/
def readServerFrame (freeLen : ℕ) : Source Frame := do
  let length ← readLength serverFrameHeaderSize maxServerFrameSize
  let header ← mapError unexpectedEOF (readFull serverFrameHeaderSize)
  let source := readEndpoint header
  let destination := readEndpoint (header.drop frameEndpointSize)
  let payloadLen := length - serverFrameHeaderSize
  let payload ← mapError unexpectedEOF (readFull (min payloadLen freeLen))
  let _ ← mapError unexpectedEOF (discard (payloadLen - min payloadLen freeLen))
  pure { source, destination, payload }

/-- Calls of a reader one after the other, each with an argument of its own. -/
def readSequence {ι : Type} (read : ι → Source Frame) :
    List ι → List UInt8 → List (Except String Frame)
  | [], _ => []
  | i :: is, s => (read i s).1 :: readSequence read is (read i s).2

/-! ### Endpoints -/

/-- The addresses that a frame carries: IPv4, IPv4-mapped, or IPv6 outside `::/96` and without a
zone. -/
def Carried (a : ZonedAddr) : Prop :=
  a.unmap.zone = "" ∧ match a.addr.unmap with
    | .invalid => False
    | .v4 _ => True
    | .v6 x => 2 ^ 32 ≤ x.toNat

theorem length_addressBytes (a : Addr) : (addressBytes a).length = 16 := by
  cases a <;> simp [addressBytes]

@[simp] theorem length_putEndpoint (a : Socksaddr) : (putEndpoint a).length = 18 := by
  rw [putEndpoint, length_append, length_addressBytes, length_bigEndian]

theorem unmap_unmap (a : Addr) : a.unmap.unmap = a.unmap := by
  cases a with
  | invalid => rfl
  | v4 a => rfl
  | v6 a =>
    simp only [Addr.unmap]
    split_ifs with h
    · rfl
    · simp only [if_neg h]

theorem readAddress_addressBytes {z : ZonedAddr} (h : Carried z) (rest : List UInt8) :
    readAddress (addressBytes z.addr.unmap ++ rest) = z.addr.unmap := by
  obtain ⟨-, h⟩ := h
  generalize z.addr = a at h ⊢
  have hf := unmap_unmap a
  have ht : (addressBytes a.unmap ++ rest).take frameAddressSize = addressBytes a.unmap :=
    take_left' (length_addressBytes _)
  have ht12 : (addressBytes a.unmap ++ rest).take 12 = (addressBytes a.unmap).take 12 :=
    take_append_of_le_length (by rw [length_addressBytes]; decide)
  rw [readAddress, ht, ht12]
  cases hu : a.unmap with
  | invalid => rw [hu] at h; exact h.elim
  | v4 x =>
    have h0 : (addressBytes (.v4 x)).take 12 = replicate 12 0 := take_left' rfl
    have hl : (addressBytes (.v4 x)).drop 12 = bigEndian 4 x.toNat := drop_left' rfl
    have hx : x.toNat < 256 ^ 4 := Nat.lt_of_lt_of_eq x.isLt (by simp)
    rw [h0, hl, if_pos (by decide), ofBigEndian_bigEndian_of_lt hx,
      BitVec.ofNat_toNat, BitVec.setWidth_eq]
  | v6 x =>
    rw [hu] at h hf
    simp only at h
    have hs := bigEndian_add 12 4 x.toNat
    have hh : (addressBytes (.v6 x)).take 12 = bigEndian 12 (x.toNat / 256 ^ 4) := by
      rw [addressBytes, hs, take_left' (length_bigEndian _ _)]
    have hne : ¬ (bigEndian 12 (x.toNat / 256 ^ 4)).all (· == 0) = true := by
      intro ha
      have h0 : ofBigEndian (bigEndian 12 (x.toNat / 256 ^ 4)) = 0 :=
        ofBigEndian_eq_zero (by simpa using ha)
      have hx := x.isLt
      rw [ofBigEndian_bigEndian] at h0
      omega
    have hx : x.toNat < 256 ^ 16 := Nat.lt_of_lt_of_eq x.isLt (by simp)
    rw [hh, if_neg hne, addressBytes, ofBigEndian_bigEndian_of_lt hx,
      BitVec.ofNat_toNat, BitVec.setWidth_eq, hf]

theorem readEndpoint_putEndpoint {a : Socksaddr} (h : Carried a.addr) (rest : List UInt8) :
    readEndpoint (putEndpoint a ++ rest) = { addr := a.addr.unmap, port := a.port } := by
  have haddr : readAddress (putEndpoint a ++ rest) = a.addr.unmap.addr := by
    rw [putEndpoint, append_assoc, ZonedAddr.unmap_addr]
    exact readAddress_addressBytes h _
  have hp : ((putEndpoint a ++ rest).drop frameAddressSize).take 2 =
      bigEndian 2 a.port.toNat := by
    rw [putEndpoint, append_assoc, frameAddressSize, drop_left' (length_addressBytes _),
      take_left' (length_bigEndian _ _)]
  have hport : a.port.toNat < 256 ^ 2 := Nat.lt_of_lt_of_eq a.port.toNat_lt (by simp)
  simp only [readEndpoint, haddr, hp, ofBigEndian_bigEndian_of_lt hport, UInt16.ofNat_toNat,
    ← ZonedAddr.eq_ofAddr h.1]

/-! ### Any stream -/

/-- The length that a stream declares for its first frame. -/
def declared (s : List UInt8) : ℕ := ofBigEndian (s.take frameLengthSize)

/-- A failed read of a frame: the stream ended between frames if the error is `io.EOF`, and no
more than the declared frame was read. -/
def FailsWithin (s : List UInt8) (err : String) (rest : List UInt8) : Prop :=
  (err = "EOF" → s = []) ∧ ∃ k ≤ frameLengthSize + declared s, rest = s.drop k

variable {s : List UInt8} {bytes : List UInt8}

theorem failsWithin_end {err : String} (he : err ≠ "EOF")
    (h : s.length ≤ frameLengthSize + declared s) : FailsWithin s err [] :=
  ⟨fun h => absurd h he, s.length, h, (drop_length).symm⟩

theorem failsWithin_drop {err : String} (he : err ≠ "EOF") {k : ℕ}
    (h : k ≤ frameLengthSize + declared s) : FailsWithin s err (s.drop k) :=
  ⟨fun h => absurd h he, k, h, rfl⟩

theorem unexpectedEOF_ne (err : String) : unexpectedEOF err ≠ "EOF" := by
  rw [unexpectedEOF]
  split_ifs with h
  · decide
  · exact h

theorem outcome_readLength {he maxSize : ℕ} : Outcome (readLength he maxSize) s
      (fun length rest => length = declared s ∧ he ≤ length ∧ length ≤ maxSize ∧
        frameLengthSize ≤ s.length ∧ rest = s.drop frameLengthSize)
      (FailsWithin s) := by
  refine bind (outcome_readFull (fun hl => ?_) fun hl => ?_)
  · by_cases h1 : declared s < he
    · rw [declared] at h1
      rw [if_pos h1]
      exact outcome_fail (failsWithin_drop (by decide) (Nat.le_add_right ..))
    · by_cases h2 : maxSize < declared s
      · rw [declared] at h1 h2
        rw [if_neg h1, if_pos h2]
        exact outcome_fail (failsWithin_drop (by decide) (Nat.le_add_right ..))
      · rw [declared] at h1 h2
        rw [if_neg h1, if_neg h2]
        exact outcome_pure ⟨rfl, Nat.le_of_not_lt h1, Nat.le_of_not_lt h2, hl, rfl⟩
  · cases s with
    | nil => exact ⟨fun _ => rfl, 0, Nat.zero_le _, rfl⟩
    | cons b s => exact failsWithin_end (by simp) (by omega)

section

variable {n k : ℕ} (hks : k ≤ s.length) (hk : k + n ≤ frameLengthSize + declared s)

include hks hk

/-- A read inside a frame, from the offset `k` on. -/
theorem outcome_readFull_within {P : List UInt8 → List UInt8 → Prop}
    (h : k + n ≤ s.length → P ((s.drop k).take n) (s.drop (k + n))) :
    Outcome (readFull n) (s.drop k) P fun err rest => FailsWithin s (unexpectedEOF err) rest := by
  refine outcome_readFull (fun hl => ?_) fun hl => ?_
  · rw [drop_drop]
    rw [length_drop] at hl
    exact h (by omega)
  · rw [length_drop] at hl
    exact failsWithin_end (unexpectedEOF_ne _) (by omega)

theorem outcome_discard :
    Outcome (discard n) (s.drop k) (fun _ rest => k + n ≤ s.length ∧ rest = s.drop (k + n))
      fun err rest => FailsWithin s (unexpectedEOF err) rest := by
  -- chunk by chunk
  induction n using discard.induct generalizing k with
  | case1 =>
    rw [discard, if_pos rfl]
    exact outcome_pure ⟨hks, rfl⟩
  | case2 n hn ih =>
    rw [discard, if_neg hn]
    refine bind (outcome_readFull_within hks (by omega) fun hl => ?_)
    refine (ih hl (by omega)).mono (fun _ rest h => ?_) fun _ _ h => h
    have hs : k + min n scratchSize + (n - min n scratchSize) = k + n := by omega
    rwa [hs] at h

end

theorem outcome_readClientFrame (s : List UInt8) : Outcome readClientFrame s
      (fun frame rest => frameLengthSize + declared s ≤ s.length ∧
        rest = s.drop (frameLengthSize + declared s) ∧ frame.payload.length ≤ maxPayloadSize ∧
        ∃ appNameLen ≤ maxAppNameSize,
          declared s = clientFrameHeaderSize + appNameLen + frame.payload.length)
      (FailsWithin s) := by
  refine bind (outcome_readLength.mono ?_ fun _ _ h => h)
  rintro length rest ⟨rfl, hm, -, hlen, rfl⟩
  refine bind (mapError (outcome_readFull_within hlen (by omega) fun hh => ?_))
  have hb : (((s.drop frameLengthSize).take clientFrameHeaderSize).getD
      (2 * frameEndpointSize) 0).toNat ≤ maxAppNameSize :=
    Nat.le_of_lt_succ (UInt8.toNat_lt _)
  generalize (((s.drop frameLengthSize).take clientFrameHeaderSize).getD
    (2 * frameEndpointSize) 0).toNat = appNameLen at hb ⊢
  by_cases hs : declared s < clientFrameHeaderSize + appNameLen
  · rw [if_pos hs]
    exact outcome_fail (failsWithin_drop (by decide) (by omega))
  rw [if_neg hs]
  by_cases hl : maxPayloadSize < declared s - clientFrameHeaderSize - appNameLen
  · rw [if_pos hl]
    exact outcome_fail (failsWithin_drop (by decide) (by omega))
  rw [if_neg hl]
  -- the name, if there is one, and then the payload
  have hna : Outcome (readAppName appNameLen) (s.drop (frameLengthSize + clientFrameHeaderSize))
      (fun _ rest => frameLengthSize + clientFrameHeaderSize + appNameLen ≤ s.length ∧
        rest = s.drop (frameLengthSize + clientFrameHeaderSize + appNameLen))
      (FailsWithin s) := by
    rw [readAppName]
    by_cases hpos : 0 < appNameLen
    · rw [if_pos hpos]
      exact mapError (outcome_readFull_within hh (by omega) fun h => ⟨h, rfl⟩)
    · have h0 : appNameLen = 0 := by omega
      rw [if_neg hpos, h0]
      exact outcome_pure ⟨hh, rfl⟩
  refine bind (hna.mono ?_ fun _ _ h => h)
  rintro _ rest ⟨hn, rfl⟩
  refine bind (mapError (outcome_readFull_within hn (by omega) fun h => ?_))
  have he : frameLengthSize + clientFrameHeaderSize + appNameLen +
      (declared s - clientFrameHeaderSize - appNameLen) = frameLengthSize + declared s := by omega
  rw [he] at h ⊢
  refine outcome_pure ⟨h, rfl, ?_, appNameLen, hb, ?_⟩
  · rw [length_take]
    omega
  · rw [length_take, length_drop]
    omega

theorem outcome_readServerFrame (freeLen : ℕ) (s : List UInt8) : Outcome (readServerFrame freeLen) s
      (fun frame rest => frameLengthSize + declared s ≤ s.length ∧
        rest = s.drop (frameLengthSize + declared s) ∧
        ∃ payloadLen ≤ maxPayloadSize, declared s = serverFrameHeaderSize + payloadLen ∧
          frame.payload.length = min payloadLen freeLen)
      (FailsWithin s) := by
  refine bind (outcome_readLength.mono ?_ fun _ _ h => h)
  rintro length rest ⟨rfl, hmin, hm, hl, rfl⟩
  refine bind (mapError (outcome_readFull_within hl (by omega) fun hh => ?_))
  refine bind
    (mapError (outcome_readFull_within hh (by omega) fun hr => ?_))
  refine bind (mapError ((outcome_discard hr (by omega)).mono ?_ fun _ _ h => h))
  rintro - rest ⟨ha, rfl⟩
  have he : frameLengthSize + serverFrameHeaderSize +
      min (declared s - serverFrameHeaderSize) freeLen +
      (declared s - serverFrameHeaderSize - min (declared s - serverFrameHeaderSize) freeLen) =
      frameLengthSize + declared s := by omega
  rw [he] at ha ⊢
  refine outcome_pure ⟨ha, rfl, declared s - serverFrameHeaderSize, ?_, by omega, ?_⟩
  · rw [maxServerFrameSize] at hm
    omega
  · rw [length_take, length_drop]
    omega

/-! ### Encoded frames -/

/-- A datagram with an application name. -/
structure Datagram where
  source : Socksaddr
  destination : Socksaddr
  appName : List UInt8
  payload : List UInt8

/-- The datagrams the frames are made for. -/
structure Datagram.Sendable (d : Datagram) : Prop where
  source : Carried d.source.addr
  destination : Carried d.destination.addr
  appName : d.appName.length ≤ maxAppNameSize
  payload : d.payload.length ≤ maxPayloadSize

/-- What is read of a datagram, with the payload cut to `n` bytes. -/
def Datagram.frame (d : Datagram) (n : ℕ) : Frame where
  source := { addr := d.source.addr.unmap, port := d.source.port }
  destination := { addr := d.destination.addr.unmap, port := d.destination.port }
  payload := d.payload.take n

/-- The endpoints in the header of a frame. -/
def Datagram.endpoints (d : Datagram) : List UInt8 :=
  putEndpoint d.source ++ putEndpoint d.destination

variable {d : Datagram}

open Datagram TrustTunnel

theorem Datagram.Sendable.readEndpoints (h : d.Sendable) (rest : List UInt8) :
    readEndpoint (d.endpoints ++ rest) = (d.frame 0).source ∧
      readEndpoint ((d.endpoints ++ rest).drop frameEndpointSize) = (d.frame 0).destination := by
  rw [endpoints, append_assoc, frameEndpointSize, frameAddressSize,
    drop_left' (length_putEndpoint _)]
  exact ⟨readEndpoint_putEndpoint h.source _, readEndpoint_putEndpoint h.destination _⟩

variable {Q : String → List UInt8 → Prop}

theorem outcome_readLength_append {length he maxSize : ℕ} {rest : List UInt8}
    {P : ℕ → List UInt8 → Prop} (hm : he ≤ length) (hmax : length ≤ maxSize)
    (hw : length < 256 ^ 4) (h : P length rest) :
    Outcome (readLength he maxSize) (bigEndian 4 length ++ rest) P Q := by
  refine bind (outcome_readFull_append (length_bigEndian _ _) ?_)
  rw [ofBigEndian_bigEndian, Nat.mod_eq_of_lt hw, if_neg (by omega), if_neg (by omega)]
  exact outcome_pure h

theorem outcome_readAppName_append {name rest : List UInt8} {P : List UInt8 → List UInt8 → Prop}
    (h : P name rest) : Outcome (readAppName name.length) (name ++ rest) P Q := by
  rw [readAppName]
  cases name with
  | nil => exact outcome_pure h
  | cons b name =>
    rw [if_pos (by simp)]
    exact mapError (outcome_readFull_append rfl h)

theorem readClientFrame_encode {text : Socksaddr → String} (h : d.Sendable)
    (hen : encodeClientFrame text d.payload d.source d.destination d.appName = .ok bytes)
    (rest : List UInt8) :
    readClientFrame (bytes ++ rest) = (.ok (d.frame d.payload.length), rest) := by
  have hn := h.appName
  have hp := h.payload
  rw [maxAppNameSize] at hn
  rw [maxPayloadSize] at hp
  rw [encodeClientFrame] at hen
  split_ifs at hen
  rw [← Except.ok.inj hen]
  have hbs : putEndpoint d.source ++ (putEndpoint d.destination ++
      (UInt8.ofNat d.appName.length :: (d.appName ++ d.payload))) ++ rest =
      d.endpoints ++ [UInt8.ofNat d.appName.length] ++ (d.appName ++ (d.payload ++ rest)) := by
    simp [Datagram.endpoints]
  rw [append_assoc, hbs]
  obtain ⟨hs, hd⟩ := h.readEndpoints [UInt8.ofNat d.appName.length]
  have he : d.endpoints.length = 36 := by
    rw [Datagram.endpoints, length_append, length_putEndpoint, length_putEndpoint]
  have hl : ((d.endpoints ++ [UInt8.ofNat d.appName.length]).getD
      (2 * frameEndpointSize) 0).toNat = d.appName.length := by
    rw [getD_append_right _ _ _ _ (by rw [he]; decide), he]
    simp only [frameEndpointSize, frameAddressSize, Nat.reduceAdd, Nat.reduceMul, Nat.sub_self,
      getD_cons_zero, UInt8.toNat_ofNat']
    omega
  refine eq_ok (bind (outcome_readLength_append ?_ ?_ ?_ ?_))
  · omega
  · simp only [maxClientFrameSize, maxAppNameSize, maxPayloadSize]
    omega
  · simp only [clientFrameHeaderSize, frameEndpointSize, frameAddressSize]
    omega
  refine bind (mapError (outcome_readFull_append ?_ ?_))
  · rw [length_append, he]
    rfl
  rw [hl, hs, hd, if_neg (by omega), if_neg (by rw [maxPayloadSize]; omega)]
  refine bind (outcome_readAppName_append ?_)
  refine bind (mapError (outcome_readFull_append (by omega) ?_))
  refine outcome_pure ⟨?_, rfl⟩
  simp [frame]

theorem discard_append (n : ℕ) (hn : bytes.length = n) (rest : List UInt8) :
    Outcome (discard n) (bytes ++ rest) (fun _ rest' => rest' = rest) fun _ _ => False := by
  induction n using discard.induct generalizing bytes with
  | case1 =>
    rw [discard, if_pos rfl, length_eq_zero_iff.mp hn]
    exact outcome_pure rfl
  | case2 n hn0 ih =>
    rw [discard, if_neg hn0, ← take_append_drop (min n scratchSize) bytes, append_assoc]
    refine bind (outcome_readFull_append (by rw [length_take]; omega) ?_)
    exact ih (by rw [length_drop]; omega)

/-- A server frame is read back with its payload cut to the buffer, whatever follows it. -/
theorem readServerFrame_encode (h : d.Sendable)
    (he : encodeServerFrame d.payload d.source d.destination = .ok bytes) (freeLen : ℕ)
    (rest : List UInt8) :
    readServerFrame freeLen (bytes ++ rest) = (.ok (d.frame freeLen), rest) := by
  have hp := h.payload
  rw [maxPayloadSize] at hp
  rw [encodeServerFrame] at he
  split_ifs at he
  rw [← Except.ok.inj he]
  have hbs : putEndpoint d.source ++ (putEndpoint d.destination ++ d.payload) ++ rest =
      d.endpoints ++ (d.payload.take (min d.payload.length freeLen) ++
        (d.payload.drop (min d.payload.length freeLen) ++ rest)) := by
    rw [← append_assoc (d.payload.take _), take_append_drop]
    simp [Datagram.endpoints]
  obtain ⟨hs, hd⟩ := h.readEndpoints []
  rw [append_nil] at hs hd
  rw [append_assoc, hbs]
  refine eq_ok (bind (outcome_readLength_append ?_ ?_ ?_ ?_))
  · omega
  · simp only [maxServerFrameSize, maxPayloadSize]
    omega
  · simp only [serverFrameHeaderSize, frameEndpointSize, frameAddressSize]
    omega
  refine bind (mapError (outcome_readFull_append ?_ ?_))
  · rw [Datagram.endpoints, length_append, length_putEndpoint, length_putEndpoint]
    rfl
  rw [hs, hd, Nat.add_sub_cancel_left]
  refine bind (mapError (outcome_readFull_append ?_ ?_))
  · rw [length_take]
    omega
  refine bind (mapError
    ((discard_append _ (by rw [length_drop]) rest).mono ?_ fun _ _ h => h))
  rintro _ rest' rfl
  refine outcome_pure ⟨?_, rfl⟩
  simp [Datagram.frame, take_eq_take_iff, Nat.min_comm]

theorem Datagram.Sendable.encodeClientFrame (h : d.Sendable) (text : Socksaddr → String) :
    ∃ bytes, encodeClientFrame text d.payload d.source d.destination d.appName =
      .ok bytes := by
  have hd : d.destination.addr.addr.isValid = true := by
    have := h.destination.2
    cases ha : d.destination.addr.addr with
    | invalid =>
      rw [ha] at this
      exact this.elim
    | v4 a => rfl
    | v6 a => rfl
  rw [TrustTunnel.encodeClientFrame, if_neg (by have := h.appName; omega), hd,
    Bool.not_true, if_neg Bool.false_ne_true, if_neg (by have := h.payload; omega)]
  exact ⟨_, rfl⟩

theorem Datagram.Sendable.encodeServerFrame (h : d.Sendable) :
    ∃ bytes, encodeServerFrame d.payload d.source d.destination = .ok bytes := by
  rw [TrustTunnel.encodeServerFrame, if_neg (by have := h.payload; omega)]
  exact ⟨_, rfl⟩

/-- Reads one after the other return the frames of a stream, and then `io.EOF`. -/
theorem readSequence_encoded {ι α : Type} (read : ι → Source Frame)
    (hn : ∀ i, read i [] = (.error "EOF", [])) (encode : α → Except String (List UInt8))
    (arg : α → ι) (out : α → Frame) (l : List α) (henc : ∀ a ∈ l, ∃ bytes, encode a = .ok bytes)
    (hr : ∀ a ∈ l, ∀ bytes, encode a = .ok bytes →
      ∀ rest, read (arg a) (bytes ++ rest) = (.ok (out a), rest)) :
    ∃ enc, List.Forall₂ (fun a bytes => encode a = .ok bytes) l enc ∧
      ∀ last, readSequence read (l.map arg ++ [last]) enc.flatten =
        (l.map fun a => .ok (out a)) ++ [.error "EOF"] := by
  induction l with
  | nil =>
    refine ⟨[], .nil, fun last => ?_⟩
    simp [readSequence, hn]
  | cons a l ih =>
    obtain ⟨bytes, hbs⟩ := henc a (mem_cons_self ..)
    obtain ⟨enc, he, hre⟩ := ih (fun b hb => henc b (mem_cons_of_mem _ hb))
      fun b hb => hr b (mem_cons_of_mem _ hb)
    refine ⟨bytes :: enc, .cons hbs he, fun last => ?_⟩
    simp [readSequence, hr a (mem_cons_self ..) bytes hbs, hre]

/-- **UDP frames are read back, and no read leaves its frame.** The datagrams of a sequence can be
encoded, and reads of the concatenated frames return their unmapped endpoints and their payloads,
whole or cut to the buffer, and then `io.EOF`. On any stream a read that succeeds consumes the
declared frame, and a read that fails does not go past it and reports `io.EOF` only at the end of
the stream. -/
theorem frames_read_back (text : Socksaddr → String) :
    (∀ datagrams : List Datagram, (∀ d ∈ datagrams, d.Sendable) →
      ∃ encoded, List.Forall₂ (fun d bytes =>
          encodeClientFrame text d.payload d.source d.destination d.appName = .ok bytes)
          datagrams encoded ∧
        ∀ last : Unit, readSequence (fun _ => readClientFrame)
          (datagrams.map (fun _ => ()) ++ [last]) encoded.flatten =
          (datagrams.map fun d => .ok (d.frame d.payload.length)) ++ [.error "EOF"]) ∧
    (∀ datagrams : List (ℕ × Datagram), (∀ d ∈ datagrams, d.2.Sendable) →
      ∃ encoded, List.Forall₂ (fun d bytes =>
          encodeServerFrame d.2.payload d.2.source d.2.destination = .ok bytes)
          datagrams encoded ∧
        ∀ last, readSequence readServerFrame (datagrams.map Prod.fst ++ [last]) encoded.flatten =
          (datagrams.map fun d => .ok (d.2.frame d.1)) ++ [.error "EOF"]) ∧
    (∀ s, Outcome readClientFrame s
      (fun frame rest => frameLengthSize + declared s ≤ s.length ∧
        rest = s.drop (frameLengthSize + declared s) ∧ frame.payload.length ≤ maxPayloadSize ∧
        ∃ appNameLen ≤ maxAppNameSize,
          declared s = clientFrameHeaderSize + appNameLen + frame.payload.length)
      (FailsWithin s)) ∧
    ∀ freeLen s, Outcome (readServerFrame freeLen) s
      (fun frame rest => frameLengthSize + declared s ≤ s.length ∧
        rest = s.drop (frameLengthSize + declared s) ∧
        ∃ payloadLen ≤ maxPayloadSize, declared s = serverFrameHeaderSize + payloadLen ∧
          frame.payload.length = min payloadLen freeLen)
      (FailsWithin s) := by
  refine ⟨fun datagrams hd => ?_, fun datagrams hd => ?_, outcome_readClientFrame,
    outcome_readServerFrame⟩
  · exact readSequence_encoded (fun _ => readClientFrame) (fun _ => rfl) _ (fun _ => ())
      (fun d => d.frame d.payload.length) datagrams (fun d h => (hd d h).encodeClientFrame text)
      fun d h _ he => readClientFrame_encode (hd d h) he
  · exact readSequence_encoded readServerFrame (fun _ => rfl) _ Prod.fst
      (fun d => d.2.frame d.1) datagrams (fun d h => (hd d h).encodeServerFrame)
      fun d h _ he => readServerFrame_encode (hd d h) he d.1

/-- A datagram between two IPv4 endpoints. -/
def exampleDatagram : Datagram where
  source := { addr := .ofAddr (.v4 0x7f000001#32), port := 5353 }
  destination := { addr := .ofAddr (.v6 0x00000000000000000000ffff08080808#128), port := 53 }
  appName := [97]
  payload := [1, 2, 3]

theorem exampleDatagram_sendable : exampleDatagram.Sendable where
  source := ⟨rfl, trivial⟩
  destination := ⟨rfl, trivial⟩
  appName := by decide
  payload := by decide

theorem frames_read_back_example :
    ∃ encoded, List.Forall₂ (fun d bytes => encodeServerFrame d.2.payload d.2.source
        d.2.destination = .ok bytes) [(2, exampleDatagram), (9, exampleDatagram)] encoded ∧
      readSequence readServerFrame [2, 9, 0] encoded.flatten =
        [.ok (exampleDatagram.frame 2), .ok (exampleDatagram.frame 9), .error "EOF"] := by
  have ha : ∀ d ∈ [(2, exampleDatagram), (9, exampleDatagram)], d.2.Sendable := by
    simp [exampleDatagram_sendable]
  obtain ⟨encoded, he, hr⟩ := (frames_read_back fun _ => "").2.1 _ ha
  exact ⟨encoded, he, hr 0⟩

/-- A datagram from the address `fe80::1`, with a zone or without one. -/
def linkLocalDatagram (zone : String) : Datagram :=
  { exampleDatagram with
    source :=
      { addr := ⟨.v6 0xfe800000000000000000000000000001#128, zone, fun h => absurd rfl (h _)⟩
        port := 5353 } }

theorem linkLocalDatagram_sendable : (linkLocalDatagram "").Sendable where
  source := by
    refine ⟨by decide +kernel, ?_⟩
    change 2 ^ 32 ≤ (0xfe800000000000000000000000000001#128).toNat
    decide +kernel
  destination := ⟨rfl, trivial⟩
  appName := by decide
  payload := by decide

/-- The zone of an address is not read back. -/
theorem zone_not_read_back :
    ∃ bytes frame, encodeClientFrame (fun _ => "") (linkLocalDatagram "eth0").payload
        (linkLocalDatagram "eth0").source (linkLocalDatagram "eth0").destination
        (linkLocalDatagram "eth0").appName = .ok bytes ∧
      readClientFrame bytes = (.ok frame, []) ∧
      frame.source.addr ≠ (linkLocalDatagram "eth0").source.addr.unmap := by
  -- The frame is that of the address without the zone.
  obtain ⟨bytes, he⟩ := linkLocalDatagram_sendable.encodeClientFrame fun _ => ""
  have hr := readClientFrame_encode linkLocalDatagram_sendable he []
  rw [append_nil] at hr
  exact ⟨bytes, _, he, hr, by decide +kernel⟩

end SingBox.TrustTunnel
