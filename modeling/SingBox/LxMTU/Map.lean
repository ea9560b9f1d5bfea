import SingBox.LxMTU.Table

/-!
# Alignment of the options of a chain link

`AlignMap` aligns the options of one node, in their map form, with what the position below carries.
A capacity is `none` if it is unlimited.
-/

namespace SingBox.LxMTU

/-- The fields that are read from the map of a node: zero is an absent number. -/
structure LeafOptions where
  mtu : ℕ := 0
  server : Server
  s4 : ℕ := 0
  /-- Some prefix of `address` is one of IPv6. -/
  address6 : Bool := false
  initialPacketSize : ℕ := 0
deriving DecidableEq

namespace LeafOptions

def mtuFromMap (o : LeafOptions) (type : NodeType) : ℕ :=
  if 0 < o.mtu then o.mtu else tunnelDefaultMTU type

def mapPadding (o : LeafOptions) (type : NodeType) : ℕ := if type = .wireguard then o.s4 else 0

def mapCarriesIPv6 (o : LeafOptions) : NodeType → Bool
  | .masque => true
  | .wireguard => o.address6
  | _ => false

end LeafOptions

/-- The reason of a tunnel that is kept because nothing is left for it. -/
def tooSmallReason (capacityReason : String) : String :=
  "kept (capacity below too small: " ++ capacityReason ++ ")"

theorem tooSmallReason_ne_empty (capacityReason : String) : tooSmallReason capacityReason ≠ "" :=
  append_ne_empty_right (by decide)

def alignMapTunnel (policy : Policy) (tag : String) (type : NodeType) (o : LeafOptions)
    (capacity : Option ℕ) (capacityReason : String) : Decision :=
  let configured := o.mtuFromMap type
  let explicit : Bool := 0 < o.mtu
  let decision : Decision := { tag, field := "mtu", configured, effective := configured, explicit }
  let padding := o.mapPadding type
  match tunnelOverhead type o.server padding, capacity with
  | none, capacity =>
    { decision with
      reason := "kept (overhead of " ++ type.name ++ " unknown)"
      warning :=
        if capacity.isSome then
          tag ++ "[" ++ type.name ++ "] mtu not aligned: overhead of " ++ type.name ++
            " is unknown (" ++ capacityReason ++ ")"
        else "" }
  | some _, none => { decision with reason := capacityReason }
  | some overhead, some capacity =>
    let limit : ℤ := capacity - overhead
    if limit ≤ 0 then { decision with reason := tooSmallReason capacityReason }
    else if configured = 0 then { decision with reason := "kept (" ++ capacityReason ++ ")" }
    else
      let (size, floored) := floorIPv6 limit (o.mapCarriesIPv6 type)
      let reason := capacityReason ++ " " ++ overheadText overhead o.server padding ++
        if floored then "; floor " ++ toString ipv6MinimumMTU else ""
      let decision := policy.apply tag "mtu" configured explicit size.toNat reason
      if floored ∧ limit.toNat < decision.effective ∧ policy.mode ≠ .off then
        { decision with
          warning :=
            joinWarning decision.warning (floorWarning tag decision.effective limit reason) }
      else decision

def alignMapQUIC (policy : Policy) (tag : String) (o : LeafOptions) (capacity : Option ℕ)
    (capacityReason : String) : Decision :=
  let configured := o.initialPacketSize
  match capacity with
  | none =>
    { tag, field := "initial_packet_size", configured, effective := configured,
      explicit := configured ≠ 0, reason := capacityReason }
  | some capacity =>
    let limit : ℤ := capacity - ipUDP o.server
    let (size, raised) := quicClamp limit
    let decision := policy.apply tag "initial_packet_size" configured (configured ≠ 0) size.toNat
      (capacityReason ++ " − " ++ toString (ipUDP o.server) ++ " " ++ o.server.family)
    let decision :=
      if decision.changed then { decision with reason := decision.reason ++ "; pmtud off" }
      else decision
    if raised ∧ (decision.changed ∨ decision.warning ≠ "") then
      { decision with warning := joinWarning decision.warning (quicWarning tag size limit) }
    else decision

def alignMap (policy : Policy) (tag : String) (type : NodeType) (o : LeafOptions)
    (capacity : Option ℕ) (capacityReason : String) : Option Decision :=
  if isTunnelType type then some (alignMapTunnel policy tag type o capacity capacityReason)
  else if isQUICType type then some (alignMapQUIC policy tag o capacity capacityReason)
  else none

/-! ### When an aligned tunnel fits -/

/-- `AlignMap` has reported the floor, or that the capacity is too small. -/
def Decision.Reported (d : Decision) (capacityReason : String) : Prop :=
  d.warning ≠ "" ∨ d.reason = tooSmallReason capacityReason

instance (d : Decision) (capacityReason : String) : Decidable (d.Reported capacityReason) :=
  inferInstanceAs (Decidable (_ ∨ _))

/-- The mode table of `clampAll` for a field with a value. -/
theorem clampAll_apply (tag field reason : String) {configured : ℕ} (hc : configured ≠ 0)
    (explicit : Bool) (limit : ℕ) :
    let d := clampAll.apply tag field configured explicit limit reason
    d.effective = min configured limit ∧ d.warning = "" ∧
      (d.reason = "fits (" ++ reason ++ ")" ∨ d.reason = reason) := by
  refine Policy.apply_cases (p := clampAll) (P := fun d => d.effective = min configured limit ∧
    d.warning = "" ∧ (d.reason = "fits (" ++ reason ++ ")" ∨ d.reason = reason)) (by decide)
    ?_ ?_ ?_ ?_ ?_
  · intro he
    simp [clampAll, Policy.excepted] at he
  · exact fun _ h0 => absurd h0 hc
  · exact fun _ _ hle => ⟨(Nat.min_eq_left hle).symm, rfl, .inl rfl⟩
  · intro _ _ _ _ hm
    simp [clampAll] at hm
  · exact fun _ _ hlt _ => ⟨(Nat.min_eq_right (Nat.le_of_lt hlt)).symm, rfl, .inr rfl⟩

theorem append_ne_append {a b : Char} {s t x y : String} (ha : s.toList.head? = some a)
    (hb : t.toList.head? = some b) (hne : a ≠ b) : s ++ x ≠ t ++ y := by
  intro heq
  have hl := congrArg (fun u => u.toList.head?) heq
  simp only [String.toList_append, List.head?_append, ha, hb] at hl
  exact hne (Option.some.inj hl)

/-- The reasons that a limited capacity comes with. -/
def Limited (reason : String) : Prop := ∃ rest, reason = "limited by " ++ rest

theorem Limited.append {reason : String} (h : Limited reason) (text : String) :
    Limited (reason ++ text) := by
  obtain ⟨rest, rfl⟩ := h
  exact ⟨rest ++ text, String.append_assoc⟩

/-- A reason of the mode table does not say that the capacity is too small. -/
theorem Limited.ne_tooSmallReason {text reason s : String} (hrsn : Limited reason)
    (ht : text = "fits (" ++ reason ++ ")" ∨ text = reason) : text ≠ tooSmallReason s := by
  have hk : tooSmallReason s = "kept (capacity below too small: " ++ (s ++ ")") :=
    String.append_assoc
  rw [hk]
  rcases ht with ht | ht
  · have hf : text = "fits (" ++ (reason ++ ")") := ht.trans String.append_assoc
    rw [hf]
    exact append_ne_append (a := 'f') (b := 'k') (by simp) (by simp) (by decide)
  · obtain ⟨rest, hr⟩ := hrsn
    rw [ht, hr]
    exact append_ne_append (a := 'l') (b := 'k') (by simp) (by simp) (by decide)

/-- What `AlignMap` decides about a tunnel of which something is left. -/
theorem alignMapTunnel_spec {tag : String} {type : NodeType} {o : LeafOptions} {overhead cap : ℕ}
    {reason : String} (ho : tunnelOverhead type o.server (o.mapPadding type) = some overhead)
    (hr : Limited reason) (hcap : overhead < cap) :
    let d := alignMapTunnel clampAll tag type o (some cap) reason
    let floored := o.mapCarriesIPv6 type = true ∧ cap < overhead + 1280
    (floored → d.effective = min (o.mtuFromMap type) 1280 ∧
        (d.warning ≠ "" ↔ cap < d.effective + overhead)) ∧
      (¬ floored → d.effective = min (o.mtuFromMap type) (cap - overhead) ∧ d.warning = "") ∧
      d.reason ≠ tooSmallReason reason := by
  intro d floored
  have hc : o.mtuFromMap type ≠ 0 := by
    have hd := (tunnelOverhead_eq_some ho).2.1
    simp only [LeafOptions.mtuFromMap]
    split_ifs <;> omega
  have hpos : ¬ (cap : ℤ) - overhead ≤ 0 := by omega
  rcases floorIPv6_cases ((cap : ℤ) - overhead) (o.mapCarriesIPv6 type) with
    ⟨hv6, hlt, hf⟩ | ⟨hn, hf⟩
  · have hfl : floored := ⟨hv6, by omega⟩
    obtain ⟨he, hw, ht⟩ := clampAll_apply tag "mtu"
      (reason ++ " " ++ overheadText overhead o.server (o.mapPadding type) ++
        ("; floor " ++ toString ipv6MinimumMTU)) hc (decide (0 < o.mtu)) (1280 : ℤ).toNat
    have ht' := Limited.ne_tooSmallReason (s := reason)
      (((hr.append _).append _).append _) ht
    simp only [d, alignMapTunnel, ho, if_neg hpos, if_neg hc, hf, if_true, true_and]
    refine ⟨fun _ => ?_, fun h => absurd hfl h, ?_⟩
    · split_ifs with hwa
      · refine ⟨he, iff_of_true (joinWarning_ne_empty (floorWarning_ne_empty _ _ _ _)) ?_⟩
        have hm := hwa.1
        dsimp only
        omega
      · refine ⟨he, iff_of_false (not_not.mpr hw) fun hm => hwa ⟨?_, by decide⟩⟩
        omega
    · split_ifs <;> exact ht'
  · have hfl : ¬ floored := fun h => hn ⟨h.1, by omega⟩
    obtain ⟨he, hw, ht⟩ := clampAll_apply tag "mtu"
      (reason ++ " " ++ overheadText overhead o.server (o.mapPadding type) ++ "") hc
      (decide (0 < o.mtu)) ((cap : ℤ) - overhead).toNat
    have ht' := Limited.ne_tooSmallReason (s := reason)
      (((hr.append _).append _).append _) ht
    simp only [d, alignMapTunnel, ho, if_neg hpos, if_neg hc, hf,
      Bool.false_eq_true, if_false, false_and]
    refine ⟨fun h => absurd h hfl, fun _ => ⟨?_, hw⟩, ht'⟩
    have hl : ((cap : ℤ) - overhead).toNat = cap - overhead := by omega
    rw [← hl]
    exact he

/-- A tunnel that `AlignMap` has aligned with `capacity` fits a carrier of the mtu `m`, or it was
reported, exactly if its own mtu fits, or the capacity is no larger than `m`, or is so small that
it is reported. -/
theorem alignMapTunnel_fits {tag : String} {type : NodeType} {o : LeafOptions} {overhead m : ℕ}
    {capacity : Option ℕ} {reason : String}
    (ho : tunnelOverhead type o.server (o.mapPadding type) = some overhead)
    (hrsn : capacity ≠ none → Limited reason) (hu : capacity = none → reason = "") :
    let d := alignMapTunnel clampAll tag type o capacity reason
    (d.effective + overhead ≤ m ∨ d.Reported reason) ↔
      (o.mtuFromMap type + overhead ≤ m ∨ ∃ cap, capacity = some cap ∧
        (cap ≤ m ∨ cap ≤ overhead ∨
          o.mapCarriesIPv6 type = true ∧ cap < overhead + ipv6MinimumMTU ∧
            cap < o.mtuFromMap type + overhead)) := by
  intro d
  cases capacity with
  | none =>
    have he : d.effective = o.mtuFromMap type := by
      simp only [d, alignMapTunnel, ho]
    have hr : ¬ d.Reported reason := by
      simp only [d, alignMapTunnel, ho, Decision.Reported]
      refine not_or.mpr ⟨not_not.mpr rfl, fun ht => ?_⟩
      exact tooSmallReason_ne_empty reason (ht.symm.trans (hu rfl))
    simp [hr, he]
  | some cap =>
    have hrsn := hrsn (by simp)
    simp only [Option.some.injEq, exists_eq_left']
    by_cases hs : cap ≤ overhead
    · have hd : d.reason = tooSmallReason reason := by
        have hl : (cap : ℤ) - overhead ≤ 0 := by omega
        simp only [d, alignMapTunnel, ho, if_pos hl]
      simp [Decision.Reported, hd, hs]
    · obtain ⟨hfl, hn, ht⟩ :=
        @alignMapTunnel_spec tag _ _ _ _ _ ho hrsn (Nat.lt_of_not_le hs)
      change _ → d.effective = _ ∧ (d.warning ≠ "" ↔ _) at hfl
      change _ → d.effective = _ ∧ d.warning = "" at hn
      have ht' : ¬ d.reason = tooSmallReason reason := ht
      simp only [Decision.Reported, ht', or_false, ipv6MinimumMTU]
      by_cases hf : o.mapCarriesIPv6 type = true ∧ cap < overhead + 1280
      · obtain ⟨he, hw⟩ := hfl hf
        rw [hw, he]
        simp only [hf.1, hf.2, true_and]
        omega
      · obtain ⟨he, hw⟩ := hn hf
        rw [he, hw]
        have hneg : ¬ (o.mapCarriesIPv6 type = true ∧ cap < overhead + 1280 ∧
            cap < o.mtuFromMap type + overhead) := fun h => hf ⟨h.1, h.2.1⟩
        simp only [hneg, ne_eq, not_true_eq_false, or_false]
        omega

end SingBox.LxMTU
