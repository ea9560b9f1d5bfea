import SingBox.LxMTU.Map

/-!
# The mtu of chain links

A chain is a list of positions, each a node or a group of nodes. The link of a position is aligned
with the capacity of the position below, the minimum over all nodes that it can select. At run time
a hop skips the positions that are switched off and those whose selected node is `direct`, so the
packets of a link may be carried by a node further down.
-/

namespace SingBox.Chain

open SingBox.LxMTU List

/-- A node of a chain. -/
structure Leaf where
  tag : String
  type : NodeType
deriving DecidableEq

/-- The target of a position: a node, or a group with its members. -/
inductive Target where
  | leaf (l : Leaf)
  | group (tag : String) (members : List Target)

namespace Target

mutual

/-- `leavesOf`: the nodes that a target can select, through groups of any depth. -/
def leaves : Target → List Leaf
  | leaf l => [l]
  | group _ members => leavesAll members

@[inherit_doc leaves]
def leavesAll : List Target → List Leaf
  | [] => []
  | t :: members => t.leaves ++ leavesAll members

end

end Target

/-- A chain: its positions, and the options of a node at a position after `strip` and `rewrite`, if
they are available. -/
structure MTUChain where
  targets : List Target
  options : ℕ → Leaf → Option LeafOptions
  mtuPolicy : Policy

/-- What carries the packets that are given to a hop. -/
inductive Carrier where
  | network
  /-- A `block` node, which refuses them. -/
  | blocked
  /-- The node of a position: as it is at position 0, as a link above. -/
  | node (position : ℕ) (l : Leaf)
deriving DecidableEq

namespace MTUChain

variable (c : MTUChain)

/-- The nodes that a position can select. -/
def leavesAt (position : ℕ) : List Leaf := ((c.targets[position]?).map Target.leaves).getD []

/-- `leafCapacity`: `below` is the capacity under the position of the node. -/
def leafCapacity (position : ℕ) (below : Option ℕ × String) (l : Leaf) : Option ℕ × String :=
  if isTunnelType l.type = false then (none, "")
  else match c.options position l with
    | none => (none, "")
    | some o =>
      if o.mtuFromMap l.type = 0 then (none, "")
      else
        let mtu :=
          if 0 < position then
            (alignMapTunnel c.mtuPolicy l.tag l.type o below.1 below.2).effective
          else o.mtuFromMap l.type
        (some mtu, "limited by " ++ (l.tag ++ "(" ++ l.type.name ++ ") mtu " ++ toString mtu))

/-- The state of the loop of `capacityBelow`. -/
structure Minimum where
  capacity : Option ℕ := none
  reason : String := ""
  warning : String := ""

/-- One round of the loop of `capacityBelow`. -/
def Minimum.add (s : Minimum) (leaf : Option ℕ × String) : Minimum :=
  match leaf.1, s.capacity with
  | some v, none => { s with capacity := some v, reason := leaf.2 }
  | some v, some w => if v < w then { s with capacity := some v, reason := leaf.2 } else s
  | none, _ => if leaf.2 ≠ "" ∧ s.warning = "" then { s with warning := leaf.2 } else s

/-- The result of `capacityBelow`. -/
def Minimum.result (s : Minimum) : Option ℕ × String :=
  match s.capacity with
  | none => (none, s.warning)
  | some v => (some v, s.reason)

/-- `capacityBelow`: what the position below carries, with the text that names the limit. -/
def capacityBelow : ℕ → Option ℕ × String
  | 0 => (none, "")
  | below + 1 =>
    ((c.leavesAt below).foldl
      (fun (s : Minimum) l => s.add (c.leafCapacity below (capacityBelow below) l)) {}).result

/-- `applyMTU`: the decision about the link of a node at a position above 0. -/
def linkDecision (position : ℕ) (l : Leaf) (o : LeafOptions) : Decision :=
  alignMapTunnel c.mtuPolicy l.tag l.type o (c.capacityBelow position).1
    (c.capacityBelow position).2

/-- The mtu with which the node of a position runs; zero if it is not known. -/
def effectiveMTU (position : ℕ) (l : Leaf) : ℕ :=
  match c.options position l with
  | none => 0
  | some o =>
    if 0 < position ∧ o.mtuFromMap l.type ≠ 0 then (c.linkDecision position l o).effective
    else o.mtuFromMap l.type

/-- What carries the packets given to the hop of a position, as `hop.DialContext` and `ResolveLeaf`
pass them on: `disabled` are the positions that are switched off, `selected` the nodes that the
positions select. -/
def carrier (disabled : ℕ → Bool) (selected : ℕ → Leaf) : ℕ → Carrier
  | 0 => if disabled 0 then .network else .node 0 (selected 0)
  | i + 1 =>
    if disabled (i + 1) then carrier disabled selected i
    else match (selected (i + 1)).type with
      | .direct => carrier disabled selected i
      | .block => .blocked
      | _ => .node (i + 1) (selected (i + 1))

/-- The node is a tunnel with an mtu that is configured or a default. -/
def KnowsMTU (position : ℕ) (l : Leaf) : Prop :=
  isTunnelType l.type = true ∧ ∃ o, c.options position l = some o ∧ o.mtuFromMap l.type ≠ 0

/-- A hop passes its packets on to the hop below. -/
def Skipped (disabled : ℕ → Bool) (selected : ℕ → Leaf) (i : ℕ) : Prop :=
  disabled i = true ∨ 0 < i ∧ (selected i).type = .direct

/-! ### The capacity of a position -/

/-- The capacity of a loop state is the least one that was seen, and comes with its reason. -/
structure Minimum.Ok (s : Minimum) (seen : List (Option ℕ × String)) : Prop where
  le : ∀ leaf ∈ seen, ∀ v, leaf.1 = some v → ∃ w, s.capacity = some w ∧ w ≤ v
  mem : ∀ v, s.capacity = some v → ∃ leaf ∈ seen, leaf.1 = some v
  limited : s.capacity ≠ none → Limited s.reason
  warning : s.warning = ""

theorem leafCapacity_text (position : ℕ) (below : Option ℕ × String) (l : Leaf) :
    ((c.leafCapacity position below l).1 ≠ none → Limited (c.leafCapacity position below l).2) ∧
      ((c.leafCapacity position below l).1 = none → (c.leafCapacity position below l).2 = "") := by
  unfold leafCapacity
  split
  · exact ⟨fun h => absurd rfl h, fun _ => rfl⟩
  · cases c.options position l with
    | none => exact ⟨fun h => absurd rfl h, fun _ => rfl⟩
    | some o =>
      dsimp only
      by_cases h0 : o.mtuFromMap l.type = 0
      · rw [if_pos h0]
        exact ⟨fun h => absurd rfl h, fun _ => rfl⟩
      · rw [if_neg h0]
        exact ⟨fun _ => ⟨_, rfl⟩, fun h => absurd h (by simp)⟩

variable {seen : List (Option ℕ × String)}

theorem Minimum.Ok.add {s : Minimum} (h : s.Ok seen) {leaf : Option ℕ × String}
    (hli : leaf.1 ≠ none → Limited leaf.2) (hu : leaf.1 = none → leaf.2 = "") :
    (s.add leaf).Ok (seen ++ [leaf]) := by
  obtain ⟨hle, hmem, hr, hwa⟩ := h
  have hmem' : ∀ leaf' v, s.capacity = some v → ∃ leaf ∈ seen ++ [leaf'], leaf.1 = some v := by
    intro leaf' v hv
    obtain ⟨leaf, hl, hlv⟩ := hmem v hv
    exact ⟨leaf, mem_append_left _ hl, hlv⟩
  obtain ⟨value, text⟩ := leaf
  cases value with
  | none =>
    have hs : s.add (none, text) = s := by
      have ht : text = "" := hu rfl
      simp [Minimum.add, ht]
    rw [hs]
    refine ⟨fun leaf hl v hv => ?_, hmem' _, hr, hwa⟩
    rcases mem_append.mp hl with hl | hl
    · exact hle leaf hl v hv
    · rw [mem_singleton.mp hl] at hv
      cases hv
  | some v =>
    have hli : Limited text := hli (by simp)
    have hnew : ∀ v', some v = some v' → ∃ leaf ∈ seen ++ [(some v, text)], leaf.1 = some v' :=
      fun v' hv' => ⟨_, mem_append_right _ (mem_singleton_self _), hv'⟩
    cases hc : s.capacity with
    | none =>
      simp only [Minimum.add, hc]
      refine ⟨fun leaf hl v' hv' => ?_, hnew, fun _ => hli, hwa⟩
      rcases mem_append.mp hl with hl | hl
      · obtain ⟨w, hw, -⟩ := hle leaf hl v' hv'
        rw [hc] at hw
        cases hw
      · rw [mem_singleton.mp hl] at hv'
        exact ⟨v, rfl, Nat.le_of_eq (Option.some.inj hv')⟩
    | some w =>
      simp only [Minimum.add, hc]
      split_ifs with hlt
      · refine ⟨fun leaf hl v' hv' => ⟨v, rfl, ?_⟩, hnew, fun _ => hli, hwa⟩
        rcases mem_append.mp hl with hl | hl
        · obtain ⟨w', hw', hle'⟩ := hle leaf hl v' hv'
          rw [hc] at hw'
          cases hw'
          omega
        · rw [mem_singleton.mp hl] at hv'
          exact Nat.le_of_eq (Option.some.inj hv')
      · refine ⟨fun leaf hl v' hv' => ?_, hmem' _, hr, hwa⟩
        rcases mem_append.mp hl with hl | hl
        · exact hle leaf hl v' hv'
        · rw [mem_singleton.mp hl] at hv'
          cases hv'
          exact ⟨w, hc, Nat.le_of_not_lt hlt⟩

/-- The loop of `capacityBelow`. -/
theorem capacityBelow_loop (position : ℕ) (below : Option ℕ × String) (leaves : List Leaf)
    {s : Minimum} (h : s.Ok seen) :
    (leaves.foldl (fun (s : Minimum) l => s.add (c.leafCapacity position below l)) s).Ok
      (seen ++ leaves.map (c.leafCapacity position below)) := by
  induction leaves generalizing s seen with
  | nil => simpa using h
  | cons l leaves ih =>
    have ht := c.leafCapacity_text position below l
    have hn := ih (h.add ht.1 ht.2)
    simpa using hn

theorem capacityBelow_ok (below : ℕ) : ∃ s : Minimum, c.capacityBelow (below + 1) = s.result ∧
      s.Ok ((c.leavesAt below).map (c.leafCapacity below (c.capacityBelow below))) := by
  refine ⟨_, by rw [capacityBelow], ?_⟩
  have hst : Minimum.Ok {} [] := ⟨by simp, by simp, by simp, rfl⟩
  have h := c.capacityBelow_loop below (c.capacityBelow below) (c.leavesAt below) hst
  simpa using h

/-- The capacity of a position is at most that of each tunnel it can select. -/
theorem capacityBelow_le {below v : ℕ} {l : Leaf} (hl : l ∈ c.leavesAt below)
    (hv : (c.leafCapacity below (c.capacityBelow below) l).1 = some v) :
    ∃ w, (c.capacityBelow (below + 1)).1 = some w ∧ w ≤ v := by
  obtain ⟨s, hs, hok⟩ := c.capacityBelow_ok below
  obtain ⟨w, hw, hle⟩ := hok.le _ (mem_map_of_mem hl) v hv
  exact ⟨w, by rw [hs, Minimum.result, hw], hle⟩

theorem capacityBelow_text (below : ℕ) :
    ((c.capacityBelow (below + 1)).1 ≠ none → Limited (c.capacityBelow (below + 1)).2) ∧
      ((c.capacityBelow (below + 1)).1 = none → (c.capacityBelow (below + 1)).2 = "") := by
  obtain ⟨s, hs, hok⟩ := c.capacityBelow_ok below
  rw [hs, Minimum.result]
  cases hc : s.capacity with
  | none => exact ⟨fun h => absurd rfl h, fun _ => hok.warning⟩
  | some v => exact ⟨fun _ => hok.limited (by simp [hc]), fun h => absurd h (by simp)⟩

/-! ### Links and carriers -/

theorem leafCapacity_eq {position m : ℕ} {l : Leaf} (ht : isTunnelType l.type)
    (hm : c.effectiveMTU position l = m) (hkn : m ≠ 0) :
    (c.leafCapacity position (c.capacityBelow position) l).1 = some m := by
  unfold effectiveMTU at hm
  unfold leafCapacity
  rw [if_neg (by simp [ht])]
  cases ho : c.options position l with
  | none =>
    rw [ho] at hm
    exact absurd hm.symm hkn
  | some o =>
    simp only [ho, linkDecision] at hm ⊢
    have hc : o.mtuFromMap l.type ≠ 0 := by
      intro h0
      rw [if_neg (fun h => h.2 h0), h0] at hm
      exact hkn hm.symm
    rw [if_neg hc]
    simp only [hc, ne_eq, not_false_eq_true, and_true] at hm
    exact congrArg some hm

/-- A hop that is not skipped gives its packets to the node of its own position. -/
theorem leafCapacity_eq_some_iff {position v : ℕ} {l : Leaf} :
    (c.leafCapacity position (c.capacityBelow position) l).1 = some v ↔
      c.KnowsMTU position l ∧ c.effectiveMTU position l = v := by
  unfold leafCapacity effectiveMTU KnowsMTU
  cases ht : isTunnelType l.type with
  | false => simp
  | true =>
    cases ho : c.options position l with
    | none => simp
    | some o =>
      by_cases h0 : o.mtuFromMap l.type = 0
      · simp [h0]
      · simp [h0, linkDecision]

/-- What holds of small capacities holds of the capacity of a position just if it does of the mtu of
a tunnel there. -/
theorem exists_capacityBelow_iff {below : ℕ} {P : ℕ → Prop} (hP : ∀ v w, w ≤ v → P v → P w) :
    (∃ capacity, (c.capacityBelow (below + 1)).1 = some capacity ∧ P capacity) ↔
      ∃ t ∈ c.leavesAt below, c.KnowsMTU below t ∧ P (c.effectiveMTU below t) := by
  constructor
  · rintro ⟨w, hw, hp⟩
    obtain ⟨s, hs, hok⟩ := c.capacityBelow_ok below
    have hc : s.capacity = some w := by
      rw [hs, Minimum.result] at hw
      cases hc : s.capacity with
      | none =>
        rw [hc] at hw
        cases hw
      | some v =>
        rw [hc] at hw
        exact hw
    obtain ⟨leaf, hl, hv⟩ := hok.mem w hc
    obtain ⟨t, ht, rfl⟩ := mem_map.mp hl
    obtain ⟨hk, rfl⟩ := c.leafCapacity_eq_some_iff.mp hv
    exact ⟨t, ht, hk, hp⟩
  · rintro ⟨t, ht, hk, hp⟩
    obtain ⟨w, hw, hle⟩ := c.capacityBelow_le ht (c.leafCapacity_eq_some_iff.mpr ⟨hk, rfl⟩)
    exact ⟨w, hw, hP _ _ hle hp⟩

theorem carrier_of_not_skipped {disabled : ℕ → Bool} {selected : ℕ → Leaf} {i j : ℕ} {u : Leaf}
    (hs : ¬ Skipped disabled selected i) (h : carrier disabled selected i = .node j u) :
    j = i ∧ u = selected i := by
  have hen : disabled i = false := by
    simpa using fun hd => hs (.inl hd)
  cases i with
  | zero =>
    simp only [carrier, hen, Bool.false_eq_true, if_false, Carrier.node.injEq] at h
    exact ⟨h.1.symm, h.2.symm⟩
  | succ i =>
    have hdi : (selected (i + 1)).type ≠ .direct := fun hd => hs (.inr ⟨i.succ_pos, hd⟩)
    simp only [carrier, hen, Bool.false_eq_true, if_false] at h
    split at h
    · next ht => exact absurd ht hdi
    · cases h
    · cases h
      exact ⟨rfl, rfl⟩

/-- A WireGuard or MASQUE link at a position `i + 1`, whose packets are carried by a tunnel of the
mtu `m`, fits it or is reported exactly if the position below is not skipped, or the mtu that is
configured for the link fits anyway, or the mtu of some tunnel of the position below happens to be
no larger than `m`, or so small that it is reported. -/
theorem link_fits_iff (hpolicy : c.mtuPolicy = clampAll) (disabled : ℕ → Bool)
    (selected : ℕ → Leaf) (hselected : ∀ j < c.targets.length, selected j ∈ c.leavesAt j)
    {i j m overhead : ℕ} (hi : i + 1 < c.targets.length) {u : Leaf} {o : LeafOptions}
    (ho : c.options (i + 1) (selected (i + 1)) = some o)
    (hoverhead : tunnelOverhead (selected (i + 1)).type o.server
      (o.mapPadding (selected (i + 1)).type) = some overhead)
    (hcarrier : carrier disabled selected i = .node j u) (hu : isTunnelType u.type = true)
    (hm : c.effectiveMTU j u = m) (hknown : m ≠ 0) :
    let l := selected (i + 1)
    (c.effectiveMTU (i + 1) l + overhead ≤ m ∨
        (c.linkDecision (i + 1) l o).Reported (c.capacityBelow (i + 1)).2) ↔
      (¬ Skipped disabled selected i ∨ o.mtuFromMap l.type + overhead ≤ m ∨
        ∃ t ∈ c.leavesAt i, c.KnowsMTU i t ∧
          (c.effectiveMTU i t ≤ m ∨ c.effectiveMTU i t ≤ overhead ∨
            o.mapCarriesIPv6 l.type = true ∧ c.effectiveMTU i t < overhead + ipv6MinimumMTU ∧
              c.effectiveMTU i t < o.mtuFromMap l.type + overhead)) := by
  intro l
  rw [← c.exists_capacityBelow_iff (P := fun v => v ≤ m ∨ v ≤ overhead ∨
    o.mapCarriesIPv6 l.type = true ∧ v < overhead + ipv6MinimumMTU ∧
      v < o.mtuFromMap l.type + overhead) (by grind)]
  have hc : o.mtuFromMap l.type ≠ 0 := by
    have hd := (tunnelOverhead_eq_some hoverhead).2.1
    simp only [LeafOptions.mtuFromMap, l]
    split_ifs <;> omega
  have he : c.effectiveMTU (i + 1) l = (c.linkDecision (i + 1) l o).effective := by
    simp only [effectiveMTU, l, ho]
    exact if_pos ⟨i.succ_pos, hc⟩
  have ht := c.capacityBelow_text i
  have hf := @alignMapTunnel_fits l.tag _ _ _ m _ _ hoverhead ht.1 ht.2
  rw [he]
  simp only [linkDecision, hpolicy]
  refine hf.trans ⟨.inr, ?_⟩
  rintro (hs | hr)
  · -- The carrier is a node of the position below, so the capacity is at most its mtu.
    obtain ⟨rfl, rfl⟩ := carrier_of_not_skipped hs hcarrier
    obtain ⟨w, hw, hle⟩ := c.capacityBelow_le (hselected j (Nat.lt_of_succ_lt hi))
      (c.leafCapacity_eq hu hm hknown)
    exact .inr ⟨w, hw, .inl hle⟩
  · exact hr

section Example

/-- A WireGuard entry. -/
def wgIn : Leaf := ⟨"wg-in", .wireguard⟩

/-- A WireGuard exit. -/
def wgExit : Leaf := ⟨"wg-exit", .wireguard⟩

/-- A stream proxy. -/
def vless : Leaf := ⟨"vless", .other "vless"⟩

/-- The transparent node. -/
def directLeaf : Leaf := ⟨"direct", .direct⟩

/-- The chain of a WireGuard entry, a group of a proxy and `direct`, and a WireGuard exit. -/
def exampleChain : MTUChain where
  targets := [.leaf wgIn, .group "sel" [.leaf vless, .leaf directLeaf], .leaf wgExit]
  options := fun _ l =>
    if l = wgIn then some { mtu := 1280, server := ⟨"1.2.3.4", true⟩ }
    else if l = wgExit then some { mtu := 1408, server := ⟨"5.6.7.8", true⟩ }
    else none
  mtuPolicy := clampAll

/-- The selection in which the group selects `l`. -/
def selecting (l : Leaf) : ℕ → Leaf
  | 0 => wgIn
  | 1 => l
  | _ => wgExit

/-- The chain of the two tunnels alone. -/
def directChain : MTUChain := { exampleChain with targets := [.leaf wgIn, .leaf wgExit] }

theorem link_fits_iff_example :
    directChain.effectiveMTU 1 wgExit + 60 ≤ 1280 ∨
      (directChain.linkDecision 1 wgExit { mtu := 1408, server := ⟨"5.6.7.8", true⟩ }).Reported
        (directChain.capacityBelow 1).2 := by
  have ho : tunnelOverhead .wireguard ⟨"5.6.7.8", true⟩ 0 = some 60 := by decide
  exact (directChain.link_fits_iff rfl (fun _ => false) (fun j => if j = 0 then wgIn else wgExit)
    (by decide) (i := 0) (j := 0) (m := 1280) (u := wgIn)
    (o := { mtu := 1408, server := ⟨"5.6.7.8", true⟩ }) (by decide) (by decide) ho
    (by decide) (by decide) (by decide) (by decide)).mpr (.inl (by simp [Skipped]))

/-- The exit link keeps the mtu 1408 over the proxy. When the position of the proxy is switched off,
and when the group selects `direct`, its packets are carried by the entry, whose mtu is 1280. -/
theorem link_misfit :
    carrier (fun j => j == 1) (selecting vless) 1 = .node 0 wgIn ∧
    carrier (fun _ => false) (selecting directLeaf) 1 = .node 0 wgIn ∧
    (∀ j < 3, selecting vless j ∈ exampleChain.leavesAt j ∧
      selecting directLeaf j ∈ exampleChain.leavesAt j) ∧
    exampleChain.effectiveMTU 0 wgIn = 1280 ∧
    ¬ (exampleChain.effectiveMTU 2 wgExit + 60 ≤ 1280 ∨
      (exampleChain.linkDecision 2 wgExit { mtu := 1408, server := ⟨"5.6.7.8", true⟩ }).Reported
        (exampleChain.capacityBelow 2).2) := by
  decide

end Example

end MTUChain

end SingBox.Chain
