import SingBox.Foundation.Reader

/-!
# The server name of a ClientHello

`IndexTLSServerName` walks over a ClientHello to the server name extension and returns the name and
its index in the record. The walk over the extensions advances by `4 + exLen` in 16 bits, while the
index advances by the sum itself; for the longest extensions the two differ, and a sum of zero keeps
the walk where it is.

Where no extension is that long, the walk finds what the bytes say: `Carries` describes a
ClientHello and its server name by its fields, without the walk.
-/

namespace SingBox.TLSFragment

open Foundation List

/-- A server name and its index. -/
structure MyServerName where
  index : ℕ
  length : ℕ
  serverName : List UInt8
  extensionsListLengthIndex : ℕ
deriving DecidableEq, Repr

/-- How a walk ends. -/
inductive Walk
  | notFound
  | found (name : MyServerName)
  /-- The walk never ends. -/
  | diverges
deriving DecidableEq, Repr

/-- What is done with the name, if one is found. -/
def Walk.map (f : MyServerName → MyServerName) : Walk → Walk
  | .found name => .found (f name)
  | walk => walk

/-- The byte at an index. -/
def byteAt (bytes : List UInt8) (i : ℕ) : UInt8 := bytes.getD i 0

/-- The 16-bit number at an index. -/
def uint16At (bytes : List UInt8) (i : ℕ) : ℕ := ofBigEndian ((bytes.drop i).take 2)

/-- The loop over the extensions. Every round advances by at least one byte or never ends, so fuel
beyond the number of bytes is not used. -/
def walkExtensions : ℕ → ℕ → List UInt8 → Walk
  | 0, _, _ => .diverges
  | fuel + 1, currentIndex, exs =>
    if exs = [] then .notFound
    else if exs.length < 4 then .notFound
    else
      let exLen := uint16At exs 2
      if exs.length < 4 + exLen then .notFound
      else
        let sex := (exs.drop 4).take exLen
        if uint16At exs 0 = 0 then
          if sex.length < 5 then .notFound
          else if byteAt sex 2 ≠ 0 then .notFound
          else
            .found
              { index := currentIndex + 4 + 5
                length := uint16At sex 3
                serverName := sex.drop 5
                extensionsListLengthIndex := 0 }
        -- `4+exLen` is a 16-bit sum. If it is zero the same extension is read again for ever.
        else if (4 + exLen) % 65536 = 0 then .diverges
        else walkExtensions fuel (currentIndex + (4 + exLen)) (exs.drop ((4 + exLen) % 65536))

/-- The walk over a list of extensions. -/
def indexTLSServerNameFromExtensions (exs : List UInt8) : Walk :=
  if exs.length < 2 then .notFound
  else if exs.length - 2 < uint16At exs 0 then .notFound
  else walkExtensions (exs.length + 1) 2 (exs.drop 2)

/-- The versions that are accepted: those from SSL 3.0 to TLS 1.2, and TLS 1.3. -/
def acceptedVersion (version : ℕ) : Bool :=
  UInt16.ofNat version &&& 0xFFFC == 0x0300 || version == 0x0304

/-- The walk over a handshake message. -/
def indexTLSServerNameFromHandshake (handshake : List UInt8) : Walk :=
  if handshake.length < 6 + 32 + 1 then .notFound
  else if byteAt handshake 0 ≠ 1 then .notFound
  else if handshake.length - 4 ≠ ofBigEndian ((handshake.drop 1).take 3) then .notFound
  else if ¬ acceptedVersion (uint16At handshake 4) then .notFound
  else
    let afterSession := 6 + 32 + 1 + (byteAt handshake 38).toNat
    if handshake.length < afterSession then .notFound
    else
      let cipherSuites := handshake.drop afterSession
      if cipherSuites.length < 2 then .notFound
      else
        let csLen := uint16At cipherSuites 0
        if cipherSuites.length < 2 + csLen + 1 then .notFound
        else
          let compressMethodLen := (byteAt cipherSuites (2 + csLen)).toNat
          let currentIndex := afterSession + (2 + csLen + 1 + compressMethodLen)
          if handshake.length < currentIndex then .notFound
          else
            (indexTLSServerNameFromExtensions (handshake.drop currentIndex)).map fun name =>
              { name with
                index := name.index + currentIndex
                extensionsListLengthIndex := currentIndex }

/-- The walk over what is written first to a connection. -/
def indexTLSServerName (payload : List UInt8) : Walk :=
  if payload.length < 5 ∨ byteAt payload 0 ≠ 22 then .notFound
  else if payload.length < 5 + uint16At payload 3 then .notFound
  else
    (indexTLSServerNameFromHandshake (payload.drop 5)).map fun name =>
      { name with
        index := name.index + 5
        extensionsListLengthIndex := name.extensionsListLengthIndex + 5 }

/-! ### Where the name is -/

variable {name : MyServerName}

theorem Walk.map_eq_found {f : MyServerName → MyServerName} {walk : Walk}
    (h : walk.map f = .found name) : ∃ n', walk = .found n' ∧ f n' = name := by
  cases walk with
  | found n' => exact ⟨n', rfl, Walk.found.inj h⟩
  | notFound | diverges => cases h

theorem Walk.map_eq_diverges {f : MyServerName → MyServerName} {walk : Walk} :
    walk.map f = .diverges ↔ walk = .diverges := by
  cases walk <;> simp [Walk.map]

theorem uint16At_lt (bytes : List UInt8) (i : ℕ) : uint16At bytes i < 65536 := by
  have hl : ((bytes.drop i).take 2).length ≤ 2 := length_take_le 2 _
  exact Nat.lt_of_lt_of_le (ofBigEndian_lt _)
    (Nat.le_trans (Nat.pow_le_pow_right (by decide) hl) (by decide))

/-- The name begins behind that many of the bytes. -/
def MyServerName.BeginsAt (name : MyServerName) (bytes : List UInt8) (k : ℕ) : Prop :=
  k ≤ bytes.length ∧ ∃ rest, bytes.drop k = name.serverName ++ rest

theorem MyServerName.BeginsAt.of_drop {bytes : List UInt8} {n k : ℕ} (hn : n ≤ bytes.length)
    (h : name.BeginsAt (bytes.drop n) k) : name.BeginsAt bytes (n + k) := by
  obtain ⟨hk, rest, hr⟩ := h
  rw [length_drop] at hk
  exact ⟨by omega, rest, by rw [← drop_drop, hr]⟩

/-! ### Extensions -/

section Extensions

/-- An extension: its type, the length of its data, and the data. -/
def IsExtension (e : List UInt8) : Prop := e.length = 4 + uint16At e 2

/-- An extension that the walk passes. -/
def IsOtherExtension (e : List UInt8) : Prop := IsExtension e ∧ uint16At e 0 ≠ 0

/-- A server name extension whose first entry is a host name. -/
def IsNameExtension (e : List UInt8) : Prop :=
  IsExtension e ∧ uint16At e 0 = 0 ∧ 9 ≤ e.length ∧ byteAt e 6 = 0

/-- The first server name extension of a list has the name `serverName`. -/
def CarriesIn (exs serverName : List UInt8) : Prop :=
  ∃ (before : List (List UInt8)) (e rest : List UInt8), exs = before.flatten ++ (e ++ rest) ∧
    (∀ x ∈ before, IsOtherExtension x) ∧ IsNameExtension e ∧ serverName = e.drop 9

/-- An extension before the server name is so long that its length with the header has more than 16
bits. -/
def OversizedIn (exs : List UInt8) : Prop :=
  ∃ (before : List (List UInt8)) (x rest : List UInt8), exs = before.flatten ++ (x ++ rest) ∧
    (∀ y ∈ before, IsOtherExtension y) ∧ IsOtherExtension x ∧ 65536 ≤ x.length

variable {exs e rest : List UInt8} {fuel currentIndex : ℕ} {name : MyServerName}

theorem uint16At_append {i : ℕ} (h : i + 2 ≤ e.length) (rest : List UInt8) :
    uint16At (e ++ rest) i = uint16At e i := by
  rw [uint16At, drop_append_of_le_length (by omega),
    take_append_of_le_length (by rw [length_drop]; omega), uint16At]

theorem byteAt_append {i : ℕ} (h : i < e.length) (rest : List UInt8) :
    byteAt (e ++ rest) i = byteAt e i := by
  rw [byteAt, byteAt, getD_append _ _ _ _ h]

theorem exists_extension (h : 4 + uint16At exs 2 ≤ exs.length) :
    ∃ e rest, exs = e ++ rest ∧ IsExtension e := by
  refine ⟨exs.take (4 + uint16At exs 2), exs.drop (4 + uint16At exs 2),
    (take_append_drop _ _).symm, ?_⟩
  have hl : (exs.take (4 + uint16At exs 2)).length = 4 + uint16At exs 2 := by
    rw [length_take]
    omega
  have hu := uint16At_append (i := 2) (e := exs.take (4 + uint16At exs 2)) (by omega)
    (exs.drop (4 + uint16At exs 2))
  rw [take_append_drop] at hu
  rw [IsExtension, hl, ← hu]

theorem walkExtensions_of_lt (h : exs.length < 4 + uint16At exs 2) :
    walkExtensions (fuel + 1) currentIndex exs = .notFound := by
  rw [walkExtensions]
  simp only
  split_ifs <;> rfl

theorem walkExtensions_append (he : IsExtension e) :
    walkExtensions (fuel + 1) currentIndex (e ++ rest) =
      if uint16At e 0 = 0 then
        if e.length < 9 ∨ byteAt e 6 ≠ 0 then .notFound
        else .found ⟨currentIndex + 4 + 5, uint16At e 7, e.drop 9, 0⟩
      else if e.length % 65536 = 0 then .diverges
      else walkExtensions fuel (currentIndex + e.length) ((e ++ rest).drop (e.length % 65536)) := by
  rw [IsExtension] at he
  have hne : e ++ rest ≠ [] := ne_nil_of_length_pos (by rw [length_append]; omega)
  have hsex : ((e ++ rest).drop 4).take (uint16At e 2) = e.drop 4 := by
    rw [drop_append_of_le_length (by omega), take_append_of_le_length (by rw [length_drop]; omega),
      take_of_length_le (by rw [length_drop]; omega)]
  have hb : byteAt (e.drop 4) 2 = byteAt e 6 := by simp [byteAt]
  have hn : uint16At (e.drop 4) 3 = uint16At e 7 := by simp [uint16At]
  rw [walkExtensions, if_neg hne, if_neg (by rw [length_append]; omega)]
  simp only [uint16At_append (e := e) (i := 0) (by omega) rest,
    uint16At_append (e := e) (i := 2) (by omega) rest, hsex, hb, hn, length_drop, drop_drop, ← he]
  rw [if_neg (by rw [length_append]; omega)]
  by_cases h9 : e.length < 9
  · simp [show e.length - 4 < 5 by omega, h9]
  · simp [show ¬ e.length - 4 < 5 by omega, h9]

theorem OversizedIn.cons (he : IsOtherExtension e) (h : OversizedIn rest) :
    OversizedIn (e ++ rest) := by
  obtain ⟨before, x, rest', rfl, hb, hx, hl⟩ := h
  exact ⟨e :: before, x, rest', by simp, forall_mem_cons.mpr ⟨he, hb⟩, hx, hl⟩

theorem not_oversizedIn_of_lt (h : exs.length < 65536) : ¬ OversizedIn exs := by
  rintro ⟨before, x, rest, rfl, -, -, hl⟩
  simp only [length_append] at h
  omega

theorem walkExtensions_of_other (he : IsOtherExtension e) (hno : ¬ OversizedIn (e ++ rest)) :
    walkExtensions (fuel + 1) currentIndex (e ++ rest) =
      walkExtensions fuel (currentIndex + e.length) rest := by
  have hl : e.length < 65536 := by
    by_contra hge
    exact hno ⟨[], e, rest, rfl, by simp, he, by omega⟩
  have h4 : e.length = 4 + uint16At e 2 := he.1
  rw [walkExtensions_append he.1, if_neg he.2, Nat.mod_eq_of_lt hl, if_neg (by omega), drop_left]

/-- Without an extension that is too long the walk ends, and what it finds is the first server
name, at its index. -/
theorem walkExtensions_spec (currentIndex : ℕ) (hfuel : exs.length < fuel)
    (hno : ¬ OversizedIn exs) :
    walkExtensions fuel currentIndex exs ≠ .diverges ∧
      ∀ name, walkExtensions fuel currentIndex exs = .found name →
        CarriesIn exs name.serverName ∧
          ∃ k, name.index = currentIndex + k ∧ name.BeginsAt exs k := by
  induction fuel generalizing currentIndex exs with
  | zero => omega
  | succ fuel ih =>
    by_cases hc : 4 + uint16At exs 2 ≤ exs.length
    · obtain ⟨e, rest, rfl, he⟩ := exists_extension hc
      by_cases h0 : uint16At e 0 = 0
      · rw [walkExtensions_append he, if_pos h0]
        split_ifs with hn
        · exact ⟨by simp, by rintro _ ⟨⟩⟩
        · refine ⟨by simp, ?_⟩
          rintro name ⟨⟩
          rw [not_or, not_lt, not_ne_iff] at hn
          refine ⟨⟨[], e, rest, rfl, by simp, ⟨he, h0, hn.1, hn.2⟩, rfl⟩, 9, rfl, ?_⟩
          refine ⟨by rw [length_append]; omega, rest, ?_⟩
          rw [drop_append_of_le_length hn.1]
      · have ho : IsOtherExtension e := ⟨he, h0⟩
        have h4 : e.length = 4 + uint16At e 2 := he
        rw [length_append] at hfuel
        rw [walkExtensions_of_other ho hno]
        obtain ⟨hd, hf⟩ := ih (currentIndex + e.length) (by omega) fun h => hno (h.cons ho)
        refine ⟨hd, fun name hname => ?_⟩
        obtain ⟨⟨before, e', rest', rfl, hb, he', hs⟩, k, hk, hat⟩ := hf name hname
        refine ⟨⟨e :: before, e', rest', by simp, forall_mem_cons.mpr ⟨ho, hb⟩, he', hs⟩,
          e.length + k, by omega, .of_drop (by simp) ?_⟩
        rwa [drop_left]
    · rw [walkExtensions_of_lt (by omega)]
      exact ⟨by simp, by rintro _ ⟨⟩⟩

theorem walkExtensions_of_carriesIn {serverName : List UInt8} (currentIndex : ℕ)
    (hfuel : exs.length < fuel) (hno : ¬ OversizedIn exs) (h : CarriesIn exs serverName) :
    ∃ name, walkExtensions fuel currentIndex exs = .found name ∧ name.serverName = serverName := by
  obtain ⟨before, e, rest, rfl, hb, he, rfl⟩ := h
  induction before generalizing fuel currentIndex with
  | nil =>
    obtain ⟨hx, h0, h9, h6⟩ := he
    cases fuel with
    | zero => omega
    | succ fuel =>
      rw [flatten_nil, nil_append, walkExtensions_append hx, if_pos h0,
        if_neg (by simp [h6]; omega)]
      exact ⟨_, rfl, rfl⟩
  | cons x before ih =>
    obtain ⟨hx, hb⟩ := forall_mem_cons.mp hb
    have h4 : x.length = 4 + uint16At x 2 := hx.1
    cases fuel with
    | zero => omega
    | succ fuel =>
      rw [flatten_cons, append_assoc] at hfuel hno ⊢
      rw [length_append] at hfuel
      rw [walkExtensions_of_other hx hno]
      exact ih (currentIndex + x.length) (by omega) (fun h => hno (h.cons hx)) hb

end Extensions

/-! ### ClientHellos -/

section Hello

/-- The index of the extensions in a ClientHello: before it are the session id, the cipher suites
and the compression methods, each with its length, and the length of the extensions. -/
def extensionsAt (handshake : List UInt8) : ℕ :=
  let session := (byteAt handshake 38).toNat
  let suites := uint16At handshake (39 + session)
  44 + session + suites + (byteAt handshake (41 + session + suites)).toNat

/-- A ClientHello: its length field is right, its version is accepted, and all of its extensions are
there. -/
structure IsClientHello (handshake : List UInt8) : Prop where
  type : byteAt handshake 0 = 1
  length : handshake.length - 4 = ofBigEndian ((handshake.drop 1).take 3)
  version : acceptedVersion (uint16At handshake 4) = true
  extensions : extensionsAt handshake + uint16At handshake (extensionsAt handshake - 2) ≤
    handshake.length

/-- A handshake record, all of which is there, and in it a ClientHello, which ends where the bytes
end. -/
structure IsHello (b : List UInt8) : Prop where
  type : byteAt b 0 = 22
  length : 5 + uint16At b 3 ≤ b.length
  hello : IsClientHello (b.drop 5)

/-- The extensions of a ClientHello in its record. -/
def extensionsOf (b : List UInt8) : List UInt8 := (b.drop 5).drop (extensionsAt (b.drop 5))

/-- The bytes are a ClientHello with this server name. -/
def Carries (b serverName : List UInt8) : Prop :=
  IsHello b ∧ CarriesIn (extensionsOf b) serverName

/-- The bytes are a ClientHello with an extension before the server name that is too long. -/
def Oversized (b : List UInt8) : Prop :=
  IsHello b ∧ OversizedIn (extensionsOf b)

variable {b handshake : List UInt8} {name : MyServerName}

theorem byteAt_drop (n i : ℕ) : byteAt (b.drop n) i = byteAt b (n + i) := by
  simp [byteAt]

theorem uint16At_drop (n i : ℕ) : uint16At (b.drop n) i = uint16At b (n + i) := by
  simp [uint16At]

theorem indexTLSServerNameFromHandshake_of_isClientHello (h : IsClientHello handshake) :
    indexTLSServerNameFromHandshake handshake =
      (walkExtensions (handshake.length - (extensionsAt handshake - 2) + 1) 2
        (handshake.drop (extensionsAt handshake))).map fun name =>
          { name with
            index := name.index + (extensionsAt handshake - 2)
            extensionsListLengthIndex := extensionsAt handshake - 2 } := by
  obtain ⟨h1, hlen, hv, hext⟩ := h
  rw [extensionsAt] at hext ⊢
  rw [indexTLSServerNameFromHandshake]
  simp only [byteAt_drop, uint16At_drop, length_drop, Nat.reduceAdd, Nat.add_zero]
  generalize (byteAt handshake 38).toNat = session at hext ⊢
  generalize uint16At handshake (39 + session) = suites at hext ⊢
  rw [show 39 + session + (2 + suites) = 41 + session + suites by omega]
  generalize (byteAt handshake (41 + session + suites)).toNat = methods at hext ⊢
  rw [show 39 + session + (2 + suites + 1 + methods) = 44 + session + suites + methods - 2 by omega,
    if_neg (by omega), if_neg (by simp [h1]), if_neg (by omega), if_neg (by simp [hv]),
    if_neg (by omega), if_neg (by omega), if_neg (by omega), if_neg (by omega),
    indexTLSServerNameFromExtensions, length_drop, uint16At_drop, drop_drop, Nat.add_zero,
    if_neg (by omega), if_neg (by omega),
    show 44 + session + suites + methods - 2 + 2 = 44 + session + suites + methods by omega]

theorem indexTLSServerNameFromHandshake_of_not (h : ¬ IsClientHello handshake) :
    indexTLSServerNameFromHandshake handshake = .notFound := by
  rw [indexTLSServerNameFromHandshake]
  simp only [byteAt_drop, uint16At_drop, length_drop, Nat.reduceAdd, Nat.add_zero]
  have hat : extensionsAt handshake = 44 + (byteAt handshake 38).toNat +
    uint16At handshake (39 + (byteAt handshake 38).toNat) + (byteAt handshake
      (41 + (byteAt handshake 38).toNat +
        uint16At handshake (39 + (byteAt handshake 38).toNat))).toNat := rfl
  generalize (byteAt handshake 38).toNat = session at hat ⊢
  generalize uint16At handshake (39 + session) = suites at hat ⊢
  rw [show 39 + session + (2 + suites) = 41 + session + suites by omega]
  generalize (byteAt handshake (41 + session + suites)).toNat = methods at hat ⊢
  rw [show 39 + session + (2 + suites + 1 + methods) = extensionsAt handshake - 2 by omega]
  split_ifs with h39 h1 hlen hv hs hc hm he <;> try rfl
  rw [indexTLSServerNameFromExtensions, length_drop, uint16At_drop, Nat.add_zero]
  split_ifs with h2 hl
  · rfl
  · rfl
  · exact absurd ⟨not_not.mp h1, not_not.mp hlen, hv, by omega⟩ h

theorem indexTLSServerName_of_isHello (h : IsHello b) :
    indexTLSServerName b = (indexTLSServerNameFromHandshake (b.drop 5)).map fun name =>
      { name with
        index := name.index + 5
        extensionsListLengthIndex := name.extensionsListLengthIndex + 5 } := by
  have hext := h.hello.extensions
  have h44 : 44 ≤ extensionsAt (b.drop 5) := by
    rw [extensionsAt]
    omega
  have hl := h.length
  rw [length_drop] at hext
  rw [indexTLSServerName, if_neg (by simp [h.type]; omega), if_neg (by omega)]

theorem indexTLSServerName_of_not_isHello (h : ¬ IsHello b) :
    indexTLSServerName b = .notFound := by
  rw [indexTLSServerName]
  split_ifs with h5 hl
  · rfl
  · rfl
  · rw [not_or, not_ne_iff] at h5
    rw [indexTLSServerNameFromHandshake_of_not fun hh => h ⟨h5.2, by omega, hh⟩]
    rfl

theorem length_extensionsOf_lt (h : IsHello b) :
    (extensionsOf b).length < (b.drop 5).length - (extensionsAt (b.drop 5) - 2) + 1 := by
  have hext := h.hello.extensions
  rw [extensionsOf, length_drop]
  omega

/-- Without an extension that is too long the walk ends, and what it finds is the server name of
the ClientHello, at its index. -/
theorem indexTLSServerName_spec (hsizes : ¬ Oversized b) :
    indexTLSServerName b ≠ .diverges ∧ ∀ name, indexTLSServerName b = .found name →
      Carries b name.serverName ∧ name.BeginsAt b name.index := by
  by_cases hh : IsHello b
  · have hs := walkExtensions_spec 2 (length_extensionsOf_lt hh) fun h => hsizes ⟨hh, h⟩
    rw [indexTLSServerName_of_isHello hh,
      indexTLSServerNameFromHandshake_of_isClientHello hh.hello, ← extensionsOf]
    refine ⟨fun hd => hs.1 (Walk.map_eq_diverges.mp (Walk.map_eq_diverges.mp hd)), ?_⟩
    intro name hname
    obtain ⟨n', hn', rfl⟩ := Walk.map_eq_found hname
    obtain ⟨n, hn, rfl⟩ := Walk.map_eq_found hn'
    obtain ⟨hc, k, hk, hat⟩ := hs.2 n hn
    have hext := hh.hello.extensions
    have h44 : 44 ≤ extensionsAt (b.drop 5) := by
      rw [extensionsAt]
      omega
    have hl := hh.length
    refine ⟨⟨hh, hc⟩, ?_⟩
    have hb := (MyServerName.BeginsAt.of_drop (by omega) hat).of_drop (by omega)
    rw [show 5 + (extensionsAt (b.drop 5) + k) = n.index + (extensionsAt (b.drop 5) - 2) + 5 by
      omega] at hb
    exact hb
  · rw [indexTLSServerName_of_not_isHello hh]
    exact ⟨by simp, by rintro _ ⟨⟩⟩

theorem exists_found_of_carries {serverName : List UInt8} (hsizes : ¬ Oversized b)
    (h : Carries b serverName) :
    ∃ name, indexTLSServerName b = .found name ∧ name.serverName = serverName := by
  obtain ⟨hh, hc⟩ := h
  obtain ⟨name, hname, rfl⟩ := walkExtensions_of_carriesIn 2 (length_extensionsOf_lt hh)
    (fun h => hsizes ⟨hh, h⟩) hc
  rw [indexTLSServerName_of_isHello hh,
    indexTLSServerNameFromHandshake_of_isClientHello hh.hello, ← extensionsOf, hname]
  exact ⟨_, rfl, rfl⟩

/-- A single record: its length field says how long it is. -/
def SingleRecord (b : List UInt8) : Prop :=
  b.length = 5 + uint16At b 3

instance (b : List UInt8) : Decidable (SingleRecord b) :=
  inferInstanceAs (Decidable (b.length = 5 + uint16At b 3))

theorem not_oversized_of_length_le (h : b.length ≤ 65540) : ¬ Oversized b := by
  rintro ⟨-, ho⟩
  refine not_oversizedIn_of_lt ?_ ho
  rw [extensionsOf, length_drop, length_drop, extensionsAt]
  omega

theorem not_oversized_of_singleRecord (hr : SingleRecord b) : ¬ Oversized b := by
  have hlt := uint16At_lt b 3
  rw [SingleRecord] at hr
  exact not_oversized_of_length_le (by omega)

theorem five_le_index (h : indexTLSServerName b = .found name) : 5 ≤ name.index ∧ 5 ≤ b.length := by
  rw [indexTLSServerName] at h
  split_ifs at h with hh
  obtain ⟨n', -, rfl⟩ := Walk.map_eq_found h
  exact ⟨Nat.le_add_left 5 _, by omega⟩

end Hello

end SingBox.TLSFragment
