import SingBox.LxMTU.Map
import SingBox.LxMTU.Resolver

/-!
# The two forms of the alignment

The detour graph aligns the typed options of a node, a chain aligns their JSON map. Both read the
mtu, the server, the padding and the addresses of the tunnel, or the packet size of a QUIC outbound,
and both write the size that was decided. What `netip` says of a text is a parameter.
-/

namespace SingBox.LxMTU

open Node Decision Function

/-- A decoded JSON value; numbers are kept exactly. -/
inductive Value where
  | number (n : ℤ)
  | text (s : String)
  | flag (b : Bool)
  | list (items : List Value)
  | object (fields : List (String × Value))

/-- The map form of options. -/
abbrev OptionsMap := String → Option Value

namespace OptionsMap

/-- `NumberFromMap`. -/
def number (m : OptionsMap) (key : String) : ℤ :=
  match m key with
  | some (.number n) => n
  | _ => 0

/-- A field that holds a string. -/
def text (m : OptionsMap) (key : String) : String :=
  match m key with
  | some (.text s) => s
  | _ => ""

/-- A field that holds a boolean. -/
def flag (m : OptionsMap) (key : String) : Bool :=
  match m key with
  | some (.flag b) => b
  | _ => false

/-- `MapServer`. -/
def server (m : OptionsMap) (type : NodeType) : String :=
  if type = .wireguard then
    match m "peers" with
    | some (.list (.object peer :: _)) => text (fun key => peer.lookup key) "address"
    | _ => ""
  else m.text "server"

variable (is4 is6 : String → Bool)

/-- The addresses in `mapCarriesIPv6`. -/
def address6 (m : OptionsMap) : Bool :=
  match m "address" with
  | some (.text s) => is6 s
  | some (.list items) => items.any fun
    | .text s => is6 s
    | _ => false
  | _ => false

/-- What `AlignMap` reads. -/
def read (m : OptionsMap) (type : NodeType) : LeafOptions where
  mtu := if 0 < m.number "mtu" then toUInt32 (m.number "mtu") else 0
  server := ⟨m.server type, is4 (m.server type)⟩
  s4 := toUInt32 (m.number "s4")
  address6 := m.address6 is6
  initialPacketSize := toUInt32 (m.number "initial_packet_size")

/-- What `AlignMap` writes. -/
def write (m : OptionsMap) (d : Decision) : OptionsMap :=
  if d.changed then
    let m := Function.update m d.field (some (.number d.effective))
    if d.field = "initial_packet_size" then
      Function.update m "disable_path_mtu_discovery" (some (.flag true))
    else m
  else m

/-- `AlignMap`, with the map that it leaves. -/
def alignMap (policy : Policy) (tag : String) (type : NodeType) (m : OptionsMap)
    (capacity : Option ℕ) (capacityReason : String) : OptionsMap × Option Decision :=
  let decision := LxMTU.alignMap policy tag type (m.read is4 is6 type) capacity capacityReason
  ((decision.map m.write).getD m, decision)

end OptionsMap

/-- The typed options of a tunnel or of a QUIC outbound, as far as the alignment reads them. -/
structure TypedOptions where
  mtu : ℕ := 0
  server : String := ""
  /-- The addresses of the peers of a WireGuard endpoint. -/
  peers : List String := []
  address : List String := []
  s4 : ℕ := 0
  initialPacketSize : ℤ := 0
  disablePathMTUDiscovery : Bool := false
  mtu_lt : mtu < 2 ^ 32 := by decide
  s4_lt : s4 < 2 ^ 32 := by decide

/-- The fields of a node that `AlignMap` looks at. -/
def Node.leaf (n : Node) : LeafOptions where
  mtu := n.mtu
  server := n.server
  s4 := n.s4
  address6 := n.address6
  initialPacketSize := toUInt32 n.initialPacketSize

namespace TypedOptions

/-- The first peer of a WireGuard endpoint, the server of the others. -/
def serverOf (o : TypedOptions) (type : NodeType) : String :=
  if type = .wireguard then o.peers.headD "" else o.server

/-- The node of the options in the detour graph. -/
def node (is4 is6 : String → Bool) (o : TypedOptions) (tag : String) (type : NodeType)
    (detour : String) : Node where
  tag
  type
  server := ⟨o.serverOf type, is4 (o.serverOf type)⟩
  detour
  mtu := o.mtu
  s4 := o.s4
  address6 := o.address.any is6
  initialPacketSize := o.initialPacketSize
  disablePathMTUDiscovery := o.disablePathMTUDiscovery

/-- A `Listable` of one element is written without the list. -/
def listable : List String → Value
  | [s] => .text s
  | l => .list (l.map .text)

/-- The JSON form of a peer. -/
def peer (s : String) : Value := .object (if s = "" then [] else [("address", .text s)])

/-- The JSON map of the options; but for the server and the address, empty fields are left out. -/
def toMap (o : TypedOptions) : OptionsMap
  | "mtu" => if o.mtu = 0 then none else some (.number o.mtu)
  | "server" => some (.text o.server)
  | "peers" => if o.peers = [] then none else some (.list (o.peers.map peer))
  | "address" => some (listable o.address)
  | "s4" => if o.s4 = 0 then none else some (.number o.s4)
  | "initial_packet_size" =>
    if o.initialPacketSize = 0 then none else some (.number o.initialPacketSize)
  | "disable_path_mtu_discovery" =>
    if o.disablePathMTUDiscovery then some (.flag true) else none
  | _ => none

end TypedOptions

/-! ### Reading the map back -/

/-- `AlignMap` finds the fields of the node in the map. -/
structure Represents (is4 is6 : String → Bool) (m : OptionsMap) (n : Node) : Prop where
  read : m.read is4 is6 n.type = n.leaf
  mtu : m.number "mtu" = n.mtu
  initialPacketSize : m.number "initial_packet_size" = n.initialPacketSize
  disablePathMTUDiscovery :
    m.flag "disable_path_mtu_discovery" = n.disablePathMTUDiscovery

namespace TypedOptions

variable (o : TypedOptions) (is4 is6 : String → Bool)

open OptionsMap

theorem number_mtu : o.toMap.number "mtu" = o.mtu := by
  by_cases h : o.mtu = 0 <;> simp [number, toMap, h]

theorem number_s4 : o.toMap.number "s4" = o.s4 := by
  by_cases h : o.s4 = 0 <;> simp [number, toMap, h]

theorem number_initialPacketSize : o.toMap.number "initial_packet_size" = o.initialPacketSize := by
  by_cases h : o.initialPacketSize = 0 <;> simp [number, toMap, h]

theorem flag_disablePathMTUDiscovery :
    o.toMap.flag "disable_path_mtu_discovery" = o.disablePathMTUDiscovery := by
  cases h : o.disablePathMTUDiscovery <;> simp [flag, toMap, h]

theorem server_toMap (type : NodeType) : o.toMap.server type = o.serverOf type := by
  unfold OptionsMap.server serverOf
  split_ifs
  · cases hp : o.peers with
    | nil => simp [toMap, hp]
    | cons s rest => by_cases hs : s = "" <;> simp [toMap, hp, peer, text, hs]
  · rfl

theorem address6_toMap : o.toMap.address6 is6 = o.address.any is6 := by
  have ha : o.toMap "address" = some (listable o.address) := rfl
  rw [OptionsMap.address6, ha]
  rcases o.address with _ | ⟨s, _ | ⟨t, rest⟩⟩
  · rfl
  · simp [listable]
  · simp [listable, comp_def]

theorem toUInt32_natCast {n : ℕ} (h : n < 2 ^ 32) : toUInt32 n = n := by
  unfold toUInt32
  omega

theorem toMap_represents (tag : String) (type : NodeType) (detour : String) :
    Represents is4 is6 o.toMap (o.node is4 is6 tag type detour) where
  read := by
    have hmtu : (if 0 < (o.mtu : ℤ) then toUInt32 o.mtu else 0) = o.mtu := by
      rw [toUInt32_natCast o.mtu_lt]
      split_ifs <;> omega
    simp only [OptionsMap.read, number_mtu, number_s4, number_initialPacketSize, server_toMap,
      address6_toMap, hmtu, toUInt32_natCast o.s4_lt, leaf, node]
  mtu := o.number_mtu
  initialPacketSize := o.number_initialPacketSize
  disablePathMTUDiscovery := o.flag_disablePathMTUDiscovery

end TypedOptions

/-! ### The agreement -/

/-- What a decision says about its field, without the texts. -/
def Decision.values (d : Decision) : ℕ × ℕ × Bool × Bool :=
  (d.configured, d.effective, d.explicit, d.changed)

/-- The alignment of the node, on top of a detour of the capacity `c`, and `AlignMap` leave the same
sizes, and the decisions that the resolver records have the values of that of `AlignMap`. -/
def Agree (is4 is6 : String → Bool) (policy : Policy) (m : OptionsMap) (n : Node) (c : Capacity)
    (capacityReason : String) : Prop :=
  let typed := n.align policy c
  let map := OptionsMap.alignMap is4 is6 policy n.tag n.type m c.value capacityReason
  map.1.number "mtu" = typed.node.mtu ∧
    map.1.number "initial_packet_size" = typed.node.initialPacketSize ∧
    map.1.flag "disable_path_mtu_discovery" = typed.node.disablePathMTUDiscovery ∧
    ∀ d ∈ typed.decisions, ∃ d', map.2 = some d' ∧ d.values = d'.values

/-- The node after the decision `d`. -/
def Node.decided (n : Node) (d : Decision) : Node :=
  if d.changed then
    if d.field = "mtu" then { n with mtu := d.effective }
    else { n with initialPacketSize := d.effective, disablePathMTUDiscovery := true }
  else n

section Agreement

variable {is4 is6 : String → Bool} {policy : Policy} {m : OptionsMap} {n : Node} {c : Capacity}
  {capacityReason : String} {d : Decision}

theorem values_ite {p : Prop} [Decidable p] {d d' : Decision} (h : d.values = d'.values) :
    (if p then d else d').values = d'.values := by
  split_ifs
  · exact h
  · rfl

theorem values_apply (policy : Policy) (tag field : String) (configured : ℕ) (explicit : Bool)
    (limit : ℕ) (reason r' : String) :
    (policy.apply tag field configured explicit limit reason).values =
      (policy.apply tag field configured explicit limit r').values := by
  unfold Policy.apply
  dsimp only
  split_ifs <;> rfl

theorem field_apply (policy : Policy) (tag field : String) (configured : ℕ) (explicit : Bool)
    (limit : ℕ) (reason : String) :
    (policy.apply tag field configured explicit limit reason).field = field := by
  unfold Policy.apply
  dsimp only
  split_ifs <;> rfl

theorem Node.mtuFromMap_leaf (n : Node) (ht : isTunnelType n.type) :
    n.leaf.mtuFromMap n.type = n.tunnelMTU := by
  simp only [LeafOptions.mtuFromMap, leaf, tunnelMTU, ht, if_true, Nat.pos_iff_ne_zero]

theorem Node.explicit_leaf (n : Node) : decide (0 < n.leaf.mtu) = decide (n.mtu ≠ 0) := by
  simp [leaf, Nat.pos_iff_ne_zero]

theorem alignTunnel_agrees (policy : Policy) (n : Node) (ht : isTunnelType n.type)
    (cap : ℕ) (reason r' : String) :
    let d := alignMapTunnel policy n.tag n.type n.leaf (some cap) r'
    d.field = "mtu" ∧ ∃ x : Decision, (n.alignTunnel policy cap reason).decisions = [x] ∧
      (n.alignTunnel policy cap reason).node =
        (if x.changed then { n with mtu := x.effective } else n) ∧ x.values = d.values := by
  have hmt := n.mtuFromMap_leaf ht
  have hc : n.leaf.mapCarriesIPv6 n.type = n.carriesIPv6 := by
    unfold LeafOptions.mapCarriesIPv6 carriesIPv6
    cases n.type <;> rfl
  have he := n.explicit_leaf
  cases hkn : n.overhead with
  | none =>
    have hmap : tunnelOverhead n.type n.leaf.server (n.leaf.mapPadding n.type) = none := hkn
    simp only [alignMapTunnel, hmap, hmt, he, alignTunnel, hkn]
    exact ⟨trivial, _, rfl, rfl, rfl⟩
  | some overhead =>
    have hmap : tunnelOverhead n.type n.leaf.server (n.leaf.mapPadding n.type) = some overhead :=
      hkn
    have hpos : n.tunnelMTU ≠ 0 := by
      have hd := (tunnelOverhead_eq_some hmap).2.1
      simp only [tunnelMTU, ht, if_true]
      split_ifs <;> assumption
    simp only [alignMapTunnel, hmap, hmt, hc, he, alignTunnel, hkn]
    by_cases hl : (cap : ℤ) - overhead ≤ 0
    · simp only [if_pos hl]
      exact ⟨trivial, _, rfl, rfl, rfl⟩
    · simp only [if_neg hl, if_neg hpos]
      refine ⟨by simp only [apply_ite field, field_apply, ite_self], _, rfl, ?_, ?_⟩
      · simp only [apply_ite changed, apply_ite effective, ite_self]
      · refine (values_ite ?_).trans ((values_apply _ _ _ _ _ _ _ _).trans (values_ite ?_).symm) <;>
          rfl

theorem alignQUIC_agrees (policy : Policy) (n : Node) (cap : ℕ) (reason r' : String) :
    let d := alignMapQUIC policy n.tag n.leaf (some cap) r'
    d.field = "initial_packet_size" ∧ ∃ x : Decision,
      (n.alignQUIC policy cap reason).decisions = [x] ∧
      (n.alignQUIC policy cap reason).node =
        (if x.changed then
          { n with initialPacketSize := x.effective, disablePathMTUDiscovery := true }
        else n) ∧ x.values = d.values := by
  simp only [alignMapQUIC, alignQUIC, leaf]
  refine ⟨by simp only [apply_ite field, field_apply, ite_self], _, rfl, ?_, ?_⟩
  · simp only [apply_ite changed, apply_ite effective, ite_self]
  · refine (values_ite ?_).trans <| (values_ite ?_).trans <| (values_apply _ _ _ _ _ _ _ _).trans <|
      ((values_ite ?_).trans (values_ite ?_)).symm <;> rfl

theorem number_write (m : OptionsMap) (d : Decision) {name : String}
    (hn : name ≠ "disable_path_mtu_discovery") : (m.write d).number name =
      if d.changed = true ∧ d.field = name then ↑d.effective else m.number name := by
  cases hc : d.changed with
  | false => simp [OptionsMap.write, hc]
  | true =>
    simp only [OptionsMap.write, hc, if_true, true_and]
    by_cases hfield : d.field = name
    · split_ifs <;> simp [OptionsMap.number, hfield, update_of_ne hn]
    · split_ifs <;>
        simp [OptionsMap.number, update_of_ne hn, update_of_ne (Ne.symm hfield)]

theorem flag_write (m : OptionsMap) {d : Decision}
    (hfield : d.field ≠ "disable_path_mtu_discovery") :
    (m.write d).flag "disable_path_mtu_discovery" =
      if d.changed = true ∧ d.field = "initial_packet_size" then true
      else m.flag "disable_path_mtu_discovery" := by
  cases hc : d.changed with
  | false => simp [OptionsMap.write, hc]
  | true =>
    by_cases hs : d.field = "initial_packet_size"
    · simp [OptionsMap.write, hc, hs, OptionsMap.flag]
    · simp [OptionsMap.write, hc, hs, OptionsMap.flag, update_of_ne (Ne.symm hfield)]

section

variable (hm : Represents is4 is6 m n)
  (hmap : alignMap policy n.tag n.type n.leaf c.value capacityReason = some d)
  (hfield : d.field = "mtu" ∨ d.field = "initial_packet_size")

include hm hmap hfield

/-- What is left to compare when the decision of `AlignMap` is known. -/
theorem Represents.agree_iff_values (hn : (n.align policy c).node = n.decided d) :
    Agree is4 is6 policy m n c capacityReason ↔
      ∀ x ∈ (n.align policy c).decisions, x.values = d.values := by
  have hwr : OptionsMap.alignMap is4 is6 policy n.tag n.type m c.value capacityReason =
      (m.write d, some d) := by
    simp [OptionsMap.alignMap, hm.read, hmap]
  have hfl : d.field ≠ "disable_path_mtu_discovery" := by
    rcases hfield with h | h <;> simp [h]
  simp only [Agree, hwr, hn, number_write m d (show "mtu" ≠ _ by decide),
    number_write m d (show "initial_packet_size" ≠ _ by decide), flag_write _ hfl, hm.mtu,
    hm.initialPacketSize, hm.disablePathMTUDiscovery, Option.some.injEq, exists_eq_left']
  refine ⟨fun h => h.2.2.2, fun h => ⟨?_, ?_, ?_, h⟩⟩ <;>
    rcases hfield with hf | hf <;> cases hc : d.changed <;>
    simp [hf, hc, decided]

theorem Represents.agree_of_values {x : Decision} (hdec : (n.align policy c).decisions = [x])
    (hn : (n.align policy c).node = n.decided { x with field := d.field })
    (hv : x.values = d.values) : Agree is4 is6 policy m n c capacityReason := by
  have he : x.effective = d.effective := congrArg (fun v => v.2.1) hv
  have hc : x.changed = d.changed := congrArg (fun v => v.2.2.2) hv
  have hd : n.decided { x with field := d.field } = n.decided d := by
    simp only [decided, he, hc]
  rw [hm.agree_iff_values hmap hfield (hn.trans hd), hdec]
  exact fun y hy => List.mem_singleton.mp hy ▸ hv

end

theorem isQUICType_of_isTunnelType {type : NodeType} (h : isTunnelType type) :
    isQUICType type = false := by
  cases type <;> simp_all [isTunnelType, isQUICType]

theorem Represents.agree_of_limited (hm : Represents is4 is6 m n)
    (hty : isTunnelType n.type = true ∨ isQUICType n.type = true) {cap : ℕ}
    (hc : c.value = some cap) : Agree is4 is6 policy m n c capacityReason := by
  by_cases ht : isTunnelType n.type = true
  · obtain ⟨hfield, x, hd, hn, hv⟩ := alignTunnel_agrees policy n ht cap c.reason capacityReason
    have ha : n.align policy c = n.alignTunnel policy cap c.reason := by
      simp [Node.align, hc, isQUICType_of_isTunnelType ht]
    refine hm.agree_of_values (x := x) ?_ (.inl hfield) ?_ ?_ hv
    · simp only [alignMap, ht, if_true, hc]
    · rw [ha, hd]
    · rw [ha, hn, decided, if_pos hfield]
  · have hq : isQUICType n.type = true := hty.resolve_left ht
    obtain ⟨hfield, x, hd, hn, hv⟩ := alignQUIC_agrees policy n cap c.reason capacityReason
    have ha : n.align policy c = n.alignQUIC policy cap c.reason := by
      simp only [Node.align, hc, hq, if_true]
    refine hm.agree_of_values (x := x) ?_ (.inr hfield) ?_ ?_ hv
    · simp only [alignMap, if_neg ht, hq, if_true, hc]
    · rw [ha, hd]
    · rw [ha, hn, decided, hfield, if_neg (by decide : "initial_packet_size" ≠ "mtu")]

theorem Represents.agree_iff_of_unlimited (hm : Represents is4 is6 m n)
    (hmap : alignMap policy n.tag n.type n.leaf c.value capacityReason = some d)
    (hfield : d.field = "mtu" ∨ d.field = "initial_packet_size")
    (hu : c.value = none) (hk : d.changed = false) : Agree is4 is6 policy m n c capacityReason ↔
      ∀ x ∈ n.unlimited c.warning, x.values = d.values := by
  have ha : n.align policy c = ⟨n, n.unlimited c.warning, n.tunnelMTU⟩ := by
    simp only [Node.align, hu]
  rw [hm.agree_iff_values hmap hfield (by rw [ha, decided, hk]; rfl), ha]

/-- For a tunnel on top of an unlimited detour `AlignMap` keeps the MTU. -/
theorem alignMapTunnel_unlimited (policy : Policy) (ht : isTunnelType n.type)
    (reason : String) : let d := alignMapTunnel policy n.tag n.type n.leaf none reason
    d.field = "mtu" ∧ d.values = (n.tunnelMTU, n.tunnelMTU, decide (n.mtu ≠ 0), false) := by
  simp only [alignMapTunnel, n.mtuFromMap_leaf ht, n.explicit_leaf]
  cases tunnelOverhead n.type n.leaf.server (n.leaf.mapPadding n.type) <;> exact ⟨rfl, rfl⟩

/-- For a tunnel or a QUIC outbound, whatever the policy, the capacity and its texts, the typed form
and the map form agree exactly when the resolver does not pass on the warning of an unlimited
detour for an initial packet size that is set and a multiple of `2 ^ 32`. `alignQUIC` looks for a
size before the conversion to 32 bits there, and `alignMapQUIC` after it. -/
theorem agree_iff {o : TypedOptions} {tag detour : String} {type : NodeType}
    (htype : isTunnelType type = true ∨ isQUICType type = true) :
    Agree is4 is6 policy o.toMap (o.node is4 is6 tag type detour) c capacityReason ↔
      ¬ (isQUICType type = true ∧ c.value = none ∧ c.warning ≠ "" ∧ o.initialPacketSize ≠ 0 ∧
        toUInt32 o.initialPacketSize = 0) := by
  have hm := o.toMap_represents is4 is6 tag type detour
  generalize hn : o.node is4 is6 tag type detour = n at hm
  obtain rfl : n.type = type := by rw [← hn, TypedOptions.node]
  have hsi : o.initialPacketSize = n.initialPacketSize := by rw [← hn, TypedOptions.node]
  rw [hsi]
  cases hc : c.value with
  | some cap => simpa [hc] using hm.agree_of_limited htype hc
  | none =>
    by_cases ht : isTunnelType n.type = true
    · have hq := isQUICType_of_isTunnelType ht
      obtain ⟨hfield, hv⟩ := alignMapTunnel_unlimited policy ht capacityReason
      have hmap : alignMap policy n.tag n.type n.leaf c.value capacityReason =
          some (alignMapTunnel policy n.tag n.type n.leaf none capacityReason) := by
        simp only [alignMap, ht, if_true, hc]
      rw [hm.agree_iff_of_unlimited hmap (.inl hfield) hc (congrArg (fun v => v.2.2.2) hv)]
      simp only [unlimited, hq, Bool.false_eq_true, if_false, false_and, not_false_iff, iff_true]
      split_ifs
      · exact fun x hx => absurd hx List.not_mem_nil
      · exact fun x hx => List.mem_singleton.mp hx ▸ hv.symm
    · have hq : isQUICType n.type = true := htype.resolve_left ht
      have hmap : alignMap policy n.tag n.type n.leaf c.value capacityReason =
          some (alignMapQUIC policy n.tag n.leaf none capacityReason) := by
        simp only [alignMap, if_neg ht, hq, if_true, hc]
      rw [hm.agree_iff_of_unlimited hmap (.inr rfl) hc rfl]
      by_cases hw : c.warning = ""
      · simp [unlimited, hw]
      · by_cases hs : n.initialPacketSize = 0
        · simp [unlimited, leaf, alignMapQUIC, values, hq, hs, toUInt32]
        · by_cases h0 : toUInt32 n.initialPacketSize = 0 <;>
            simp [unlimited, leaf, alignMapQUIC, values, hq, hw, hs, h0]

/-- A WireGuard endpoint on top of a detour that carries 1400 bytes. -/
theorem agree_iff_wireguard :
    let o : TypedOptions := { peers := ["192.0.2.1"] }
    Agree (fun _ => true) (fun _ => false) clampAll o.toMap
      (o.node (fun _ => true) (fun _ => false) "wg" .wireguard "vpn")
      { value := some 1400, reason := "vpn" } "vpn" :=
  (agree_iff (.inl rfl)).mpr (by simp)

/-- Hysteria2 on top of an unlimited detour with a warning, with an initial packet size of `2 ^ 32`:
the resolver records an explicit value, `AlignMap` a default. -/
theorem not_agree :
    let o : TypedOptions := { initialPacketSize := 2 ^ 32 }
    ¬ Agree (fun _ => true) (fun _ => false) clampAll o.toMap
      (o.node (fun _ => true) (fun _ => false) "hy" .hysteria2 "chain")
      { warning := "chain" } "" := by
  rintro o ⟨-, -, -, hde⟩
  obtain ⟨d, hd, hv⟩ := hde _ (List.mem_singleton_self _)
  cases hd
  exact absurd hv (by decide)

end Agreement

end SingBox.LxMTU
