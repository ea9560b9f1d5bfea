import SingBox.LxMTU.Path

/-!
# Aligned sizes fit the path

After `Align`, the packets of a node that is aligned with a detour fit every tunnel to which the
detour can resolve, or the node is excepted, or a warning is returned for it. The exception is a
QUIC proxy with an explicit `initial_packet_size`: a size between what the path leaves and the QUIC
minimum 1200 is taken to fit.
-/

namespace SingBox.LxMTU

open Foundation Node Resolver Policy List

/-- The tag `t` resolves to the tunnel `u` in some state of the groups between. -/
inductive Resolves (nodes : String → Option Node) : String → Node → Prop where
  | tunnel {t : String} {u : Node} (hu : nodes t = some u)
      (htype : isTunnelType u.type = true ∨ u.type = .tailscale) : Resolves nodes t u
  | member {t m : String} {g u : Node} (hg : nodes t = some g)
      (htype : g.type = .selector ∨ g.type = .urltest) (hm : m ∈ g.outbounds)
      (h : Resolves nodes m u) : Resolves nodes t u

variable {t : String}

variable {u : Node}

theorem Resolves.node {nodes : String → Option Node} (h : Resolves nodes t u) :
    ∃ t', nodes t' = some u := by
  induction h with
  | tunnel hu _ => exact ⟨_, hu⟩
  | member _ _ _ _ ih => exact ih

/-! ### The capacity of a group -/

section Group

variable {g : Node} {below : String → Capacity}

theorem addMember_loop_le (members : List String) (c : Capacity) {v : ℕ}
    (h : c.value = some v ∨ ∃ m ∈ members, (below m).value = some v) :
    ∃ w, (members.foldl (fun c m => addMember g c (below m)) c).value = some w ∧ w ≤ v := by
  induction members generalizing c v with
  | nil => exact ⟨v, h.resolve_right (by simp), le_rfl⟩
  | cons m members ih =>
    have hstep : ∀ v', c.value = some v' ∨ (below m).value = some v' →
        ∃ w, (addMember g c (below m)).value = some w ∧ w ≤ v' := by
      intro v' hv'
      unfold addMember
      cases hm : (below m).value with
      | none =>
        have hc := hv'.resolve_right (by simp [hm])
        refine ⟨v', ?_, le_rfl⟩
        dsimp only
        split_ifs <;> exact hc
      | some a =>
        cases hc : c.value with
        | none =>
          have ha : a = v' := by simpa [hc, hm] using hv'
          exact ⟨a, rfl, ha.le⟩
        | some b =>
          have hab : b = v' ∨ a = v' := by simpa [hc, hm] using hv'
          dsimp only
          split_ifs with hlt
          · exact ⟨a, rfl, by omega⟩
          · exact ⟨b, hc, by omega⟩
    rcases h with hv | ⟨m', hm', hv⟩
    · obtain ⟨w, hw, hle⟩ := hstep v (.inl hv)
      obtain ⟨w', hw', hle'⟩ := ih _ (.inl hw)
      exact ⟨w', hw', hle'.trans hle⟩
    · rcases mem_cons.mp hm' with rfl | hm'
      · obtain ⟨w, hw, hle⟩ := hstep v (.inr hv)
        obtain ⟨w', hw', hle'⟩ := ih _ (.inl hw)
        exact ⟨w', hw', hle'.trans hle⟩
      · exact ih _ (.inr ⟨m', hm', hv⟩)

theorem addMember_loop_attained (members : List String) (c : Capacity) {v : ℕ}
    (h : (members.foldl (fun c m => addMember g c (below m)) c).value = some v) :
    c.value = some v ∨ ∃ m ∈ members, (below m).value = some v := by
  induction members generalizing c with
  | nil => exact .inl h
  | cons m members ih =>
    rcases ih _ h with hstep | ⟨m', hm', hv⟩
    · have hca : c.value = some v ∨ (below m).value = some v := by
        unfold addMember at hstep
        cases hm : (below m).value <;> cases hc : c.value <;> simp only [hm, hc] at hstep
        · split_ifs at hstep
          simp_all
        · split_ifs at hstep <;> simp_all
        · exact .inr hstep
        · split_ifs at hstep
          · exact .inr hstep
          · exact .inl (hc.symm.trans hstep)
      exact hca.imp_right fun hv => ⟨m, mem_cons_self, hv⟩
    · exact .inr ⟨m', mem_cons_of_mem m hm', hv⟩

theorem groupResult_value (c : Capacity) : (groupResult c).value = c.value := by
  unfold groupResult
  split_ifs <;> rfl

end Group

/-! ### The capacity of a path -/

section Path

variable {policy : Policy} {nodes : String → Option Node} {size : ℕ} {rank : String → ℕ}

variable (policy nodes size) in
/-- The mtu of a tunnel after the alignment; zero if it is not known. -/
def tunnelMTU (u : Node) : ℕ :=
  if u.type = .tailscale then Resolver.tailscaleMTU u else (aligned policy nodes size u).mtu

variable (hrank : IsRank nodes size rank)

include hrank

theorem pathCapacity_tunnel (hu : nodes t = some u)
    (ht : isTunnelType u.type = true ∨ u.type = .tailscale) :
    (pathCapacity policy nodes size t).value =
      if tunnelMTU policy nodes size u = 0 then none else some (tunnelMTU policy nodes size u) := by
  have hv : ∀ mtu, (tunnelCapacity u mtu).value =
      if mtu = 0 then none else some mtu := by
    intro mtu
    unfold tunnelCapacity
    split_ifs <;> rfl
  have ha : (aligned policy nodes size u).mtu =
      if u.aligns then (u.align policy (pathCapacity policy nodes size u.detour)).mtu
      else u.tunnelMTU := by
    simp only [aligned]
    split_ifs <;> rfl
  rw [pathCapacity_eq hrank, pathStep, hu]
  cases hty : u.type <;> simp_all [isTunnelType, tunnelMTU]

/-- The capacity of a tag is at most the mtu of each tunnel to which it resolves. -/
theorem pathCapacity_le (h : Resolves nodes t u) (hkn : tunnelMTU policy nodes size u ≠ 0) :
    ∃ v, (pathCapacity policy nodes size t).value = some v ∧ v ≤ tunnelMTU policy nodes size u := by
  induction h with
  | tunnel hu ht =>
    exact ⟨_, (pathCapacity_tunnel hrank hu ht).trans (if_neg hkn), le_rfl⟩
  | @member t m g u hg ht hm _ ih =>
    obtain ⟨v, hv, hle⟩ := ih hkn
    have hme : ∃ m ∈ g.outbounds, (pathCapacity policy nodes size m).value = some v := ⟨m, hm, hv⟩
    obtain ⟨w, hw, hle'⟩ := addMember_loop_le (g := g) g.outbounds {} (.inr hme)
    refine ⟨w, ?_, hle'.trans hle⟩
    rw [pathCapacity_eq hrank, pathStep, hg]
    rcases ht with ht | ht <;>
      · simp only [ht, groupResult_value]
        exact hw

/-- A limited capacity is the mtu of some tunnel to which the tag resolves. -/
theorem pathCapacity_attained {v : ℕ} (h : (pathCapacity policy nodes size t).value = some v) :
    ∃ u, Resolves nodes t u ∧ tunnelMTU policy nodes size u = v ∧ v ≠ 0 := by
  induction hk : rank t using Nat.strong_induction_on generalizing t with
  | _ k ih =>
    cases hn : nodes t with
    | none =>
      rw [pathCapacity, pathTo_of_none hn] at h
      cases h
    | some n =>
      by_cases htun : isTunnelType n.type = true ∨ n.type = .tailscale
      · rw [pathCapacity_tunnel hrank hn htun] at h
        split_ifs at h with h0
        obtain rfl := Option.some.inj h
        exact ⟨n, .tunnel hn htun, rfl, h0⟩
      · by_cases hg : n.type = .selector ∨ n.type = .urltest
        · have hl : (n.outbounds.foldl (fun c m =>
              addMember n c (pathCapacity policy nodes size m)) {}).value = some v := by
            rw [pathCapacity_eq hrank, pathStep, hn] at h
            rcases hg with ht | ht <;>
              · simp only [ht, groupResult_value] at h
                exact h
          obtain ⟨m, hm, hv⟩ :=
            (addMember_loop_attained n.outbounds {} hl).resolve_left (by simp)
          have hs : (nodes m).isSome := by
            by_contra hno
            rw [pathCapacity, pathTo_of_none (Option.not_isSome_iff_eq_none.mp hno)] at hv
            cases hv
          have hlt : rank m < k := hk ▸ hrank.lt t m ⟨n, hn, .inr hm⟩ hs
          obtain ⟨u, hu, hmtu⟩ := ih (rank m) hlt hv rfl
          exact ⟨u, .member hn hg hm hu, hmtu⟩
        · exfalso
          rw [pathCapacity_eq hrank, pathStep, hn] at h
          cases hty : n.type <;> simp_all [isTunnelType]

end Path

/-! ### One node -/

theorem Policy.apply_spec {p : Policy} (hm : p.mode ≠ .off) (tag field : String)
    (configured : ℕ) (explicit : Bool) (limit : ℕ) (reason : String) :
    let d := p.apply tag field configured explicit limit reason
    (p.excepted tag = true ∨ d.effective ≤ limit ∨ d.warning ≠ "") ∧
      (d.changed = true → d.effective = limit ∧ (configured = 0 ∨ limit < configured)) := by
  intro d
  refine apply_cases (p := p) (P := fun d =>
    (p.excepted tag = true ∨ d.effective ≤ limit ∨ d.warning ≠ "") ∧
      (d.changed = true → d.effective = limit ∧ (configured = 0 ∨ limit < configured))) hm
    ?_ ?_ ?_ ?_ ?_
  · exact fun he => ⟨.inl he, by simp⟩
  · exact fun _ h0 => ⟨.inr (.inl le_rfl), fun _ => ⟨rfl, .inl h0⟩⟩
  · exact fun _ _ hle => ⟨.inr (.inl hle), by simp⟩
  · exact fun _ _ _ _ _ => ⟨.inr (.inr (fillWarning_ne_empty _ _ _ _ _)), by simp⟩
  · exact fun _ _ hlt _ => ⟨.inr (.inl le_rfl), fun _ => ⟨rfl, .inr hlt⟩⟩

namespace Node

variable {n : Node} {overhead : ℕ}

theorem tunnelMTU_of_overhead (h : n.overhead = some overhead) :
    n.tunnelMTU ≠ 0 ∧ (n.mtu ≠ 0 → n.tunnelMTU = n.mtu) := by
  obtain ⟨ht, hd, -⟩ := tunnelOverhead_eq_some h
  simp only [tunnelMTU, ht, if_true]
  split_ifs with hm
  · exact ⟨hm, fun _ => rfl⟩
  · exact ⟨hd, fun h => absurd h hm⟩

variable {policy : Policy}

/-- An aligned tunnel fits, or is excepted or warned about. Its mtu is not raised. -/
theorem alignTunnel_fits (hm : policy.mode ≠ .off) (h : n.overhead = some overhead) (capacity : ℕ)
    (reason : String) : let o := n.alignTunnel policy capacity reason
    (o.mtu + overhead ≤ capacity ∨ policy.excepted n.tag = true ∨
        ∃ d ∈ o.decisions, d.warning ≠ "") ∧
      (n.mtu ≠ 0 → o.node.mtu ≤ n.mtu) := by
  obtain ⟨hco, he⟩ := tunnelMTU_of_overhead h
  simp only [alignTunnel, h]
  by_cases hs : (capacity : ℤ) - overhead ≤ 0
  · simp only [if_pos hs]
    refine ⟨.inr (.inr ⟨_, mem_singleton_self _, ?_⟩), fun _ => le_rfl⟩
    exact append_ne_empty_right (by decide)
  · simp only [if_neg hs]
    rcases hf : floorIPv6 ((capacity : ℤ) - overhead) n.carriesIPv6 with ⟨size, floored⟩
    dsimp only
    generalize hr : (if floored = true then "detour " ++ reason ++ " " ++
      overheadText overhead n.server n.tunnelPadding ++ "; floor " ++ toString ipv6MinimumMTU
      else "detour " ++ reason ++ " " ++ overheadText overhead n.server n.tunnelPadding) = text
    obtain ⟨hfi, hch⟩ := apply_spec hm n.tag "mtu" n.tunnelMTU
      (decide (n.mtu ≠ 0)) size.toNat text
    generalize policy.apply n.tag "mtu" n.tunnelMTU (decide (n.mtu ≠ 0)) size.toNat text = d at *
    refine ⟨?_, fun hmt => ?_⟩
    · split_ifs with hwa
      · exact .inr (.inr ⟨_, mem_singleton_self _,
          joinWarning_ne_empty (floorWarning_ne_empty _ _ _ _)⟩)
      · rcases hfi with hex | hle | hw
        · exact .inr (.inl hex)
        · -- Above the limit the size is the floor, and that is reported.
          refine .inl ?_
          rcases floorIPv6_cases ((capacity : ℤ) - overhead) n.carriesIPv6 with
            ⟨-, -, hc⟩ | ⟨-, hc⟩ <;> obtain ⟨rfl, rfl⟩ := Prod.mk.inj (hf.symm.trans hc)
          · have hl : ¬ ((capacity : ℤ) - overhead).toNat < d.effective :=
              fun hlt => hwa ⟨rfl, hlt, hm⟩
            omega
          · omega
        · exact .inr (.inr ⟨d, mem_singleton_self _, hw⟩)
    · split_ifs with hd
      · obtain ⟨hef, hc⟩ := hch hd
        have := he hmt
        dsimp only
        omega
      · exact le_rfl

theorem alignTunnel_initialPacketSize (policy : Policy) (n : Node) (capacity : ℕ)
    (reason : String) :
    (n.alignTunnel policy capacity reason).node.initialPacketSize = n.initialPacketSize := by
  unfold alignTunnel
  split
  · rfl
  · dsimp only
    split
    · rfl
    · dsimp only
      split_ifs <;> rfl

/-- The condition on the explicit size of a QUIC proxy above a detour that carries `capacity` bytes.
A size that is not above the derived one is not above what the path leaves; a size that is
rewritten is not below the derived one, which only concerns sizes outside the range of `uint32`. -/
def QUICSizeOk (policy : Policy) (n : Node) (capacity : ℕ) : Prop :=
  let limit : ℤ := capacity - ipUDP n.server
  let size := (quicClamp limit).1
  let configured : ℤ := toUInt32 n.initialPacketSize
  (configured ≠ 0 → configured ≤ size → n.initialPacketSize ≤ limit) ∧
    (configured = 0 ∧ n.initialPacketSize ≠ 0 ∨ size < configured ∧ policy.mode = .clamp →
      size ≤ n.initialPacketSize)

/-- An aligned QUIC proxy has a size that fits or is warned about, and was not raised, exactly if
its explicit size meets the condition. -/
theorem alignQUIC_fits (hm : policy.mode ≠ .off) (he : policy.excepted n.tag = false) (capacity : ℕ)
    (reason : String) : let o := n.alignQUIC policy capacity reason
    ((o.node.initialPacketSize ≠ 0 ∧ o.node.initialPacketSize + ipUDP n.server ≤ capacity ∨
          ∃ d ∈ o.decisions, d.warning ≠ "") ∧
        (n.initialPacketSize ≠ 0 → o.node.initialPacketSize ≤ n.initialPacketSize)) ↔
      n.QUICSizeOk policy capacity := by
  have hz : n.initialPacketSize = 0 → toUInt32 n.initialPacketSize = 0 := by
    intro h
    rw [h]
    rfl
  obtain ⟨hpos, hr⟩ := quicClamp_spec ((capacity : ℤ) - ipUDP n.server)
  simp only [alignQUIC, QUICSizeOk]
  generalize quicClamp ((capacity : ℤ) - ipUDP n.server) = clamped at hpos hr ⊢
  obtain ⟨size, raised⟩ := clamped
  dsimp only at hpos hr ⊢
  have hs : ((size.toNat : ℕ) : ℤ) = size := by omega
  generalize "detour " ++ reason ++ " − " ++ toString (ipUDP n.server) ++ " " ++
    n.server.family = text
  generalize toUInt32 n.initialPacketSize = w at hz ⊢
  -- A size that was written fits, or it was raised and that is reported.
  have hwritten : ∀ d : Decision,
      ((size.toNat : ℕ) : ℤ) ≠ 0 ∧ ((size.toNat : ℕ) : ℤ) + ipUDP n.server ≤ capacity ∨
        (if raised = true then
          { d with
            warning :=
              joinWarning d.warning (quicWarning n.tag size ((capacity : ℤ) - ipUDP n.server)) }
        else d).warning ≠ "" := by
    intro d
    cases raised with
    | true => exact .inr (joinWarning_ne_empty (quicWarning_ne_empty _ _ _))
    | false =>
      have := hr rfl
      exact .inl ⟨by omega, by omega⟩
  -- The size is written if there was none, or if it is lowered.
  by_cases hwr : w = 0 ∨ size.toNat < w ∧ policy.mode = .clamp
  · have hd : policy.apply n.tag "initial_packet_size" w (decide (w ≠ 0)) size.toNat text =
        { tag := n.tag, field := "initial_packet_size", configured := w, effective := size.toNat,
          explicit := decide (w ≠ 0), changed := true, reason := text } := by
      rcases hwr with hw | ⟨hlt, hc⟩
      · simp [apply, hm, he, hw]
      · simp [apply, hc, he, not_le.mpr hlt, Nat.ne_zero_of_lt hlt]
    rw [hd]
    simp only [if_true, mem_singleton, exists_eq_left, true_or, and_true]
    refine (and_iff_right (hwritten _)).trans ?_
    rw [hs]
    refine ⟨fun h => ⟨fun hne hle => by omega, ?_⟩, fun h hne => h.2 ?_⟩
    · rintro (⟨-, hne⟩ | ⟨hlt, -⟩)
      · exact h hne
      · exact h fun h0 => by have := hz h0; omega
    · exact hwr.imp (fun hw => ⟨by omega, hne⟩) fun hl => ⟨by omega, hl.2⟩
  obtain ⟨hw, hk⟩ := not_or.mp hwr
  have hne : n.initialPacketSize ≠ 0 := fun h => hw (hz h)
  by_cases hf : w ≤ size.toNat
  · have hd : policy.apply n.tag "initial_packet_size" w (decide (w ≠ 0)) size.toNat text =
        { tag := n.tag, field := "initial_packet_size", configured := w, effective := w,
          explicit := decide (w ≠ 0), reason := "fits (" ++ text ++ ")" } := by
      simp [apply, hm, he, hw, hf]
    rw [hd]
    simp only [Bool.false_eq_true, if_false, mem_singleton, exists_eq_left, ne_eq,
      not_true_eq_false, or_self, and_false, or_false]
    refine ⟨fun h => ⟨fun _ _ => by omega, ?_⟩, fun h => ⟨⟨hne, ?_⟩, fun _ => le_rfl⟩⟩
    · rintro (⟨hz, -⟩ | ⟨hlt, -⟩) <;> omega
    · have := h.1 (by omega) (by omega)
      omega
  · have hfi : policy.mode = .fill := by
      cases hca : policy.mode <;> simp_all
    have hd : policy.apply n.tag "initial_packet_size" w (decide (w ≠ 0)) size.toNat text =
        { tag := n.tag, field := "initial_packet_size", configured := w, effective := w,
          explicit := decide (w ≠ 0), reason := "kept (explicit, fill)"
          warning := fillWarning n.tag "initial_packet_size" w size.toNat text } := by
      simp [apply, hfi, he, hw, hf]
    rw [hd]
    simp only [Bool.false_eq_true, if_false, mem_singleton, exists_eq_left]
    refine iff_of_true ⟨.inr ?_, fun _ => le_rfl⟩ ⟨fun _ hle => by omega, ?_⟩
    · split_ifs
      · exact joinWarning_ne_empty (quicWarning_ne_empty _ _ _)
      · exact fillWarning_ne_empty _ _ _ _ _
    · rintro (⟨hz, -⟩ | ⟨hlt, hc⟩)
      · omega
      · exact absurd ⟨by omega, hc⟩ hk

end Node

/-! ### The configuration -/

/-- The effective mtu of a tunnel after `Align`; zero if it is not known. -/
def Resolver.effectiveMTU (r : Resolver) (u : Node) : ℕ :=
  if u.type = .tailscale then Resolver.tailscaleMTU u else r.effective u.tag

/-- The node needs no attention: it is excepted, or a warning is returned for it. -/
def Reported (policy : Policy) (decisions : List Decision) (n : Node) : Prop :=
  policy.excepted n.tag = true ∨ ∃ d ∈ decisions, d.tag = n.tag ∧ d.warning ≠ ""

/-- The packets of a node fit the mtu `m`: its mtu and the overhead if it is a WireGuard or MASQUE
tunnel, its packet size and the outer headers if it is a QUIC proxy, which then has a size. -/
def Resolver.SizeFits (r : Resolver) (n : Node) (m : ℕ) : Prop :=
  (∀ overhead, n.overhead = some overhead → r.effective n.tag + overhead ≤ m) ∧
    (isQUICType n.type = true → ∃ n', r.nodes n.tag = some n' ∧ n'.initialPacketSize ≠ 0 ∧
      n'.initialPacketSize + ipUDP n.server ≤ m)

/-- No explicit value of a node was raised. -/
def Resolver.NotRaised (r : Resolver) (n : Node) : Prop :=
  ∀ n', r.nodes n.tag = some n' → (n.mtu ≠ 0 → n'.mtu ≤ n.mtu) ∧
    (n.initialPacketSize ≠ 0 → n'.initialPacketSize ≤ n.initialPacketSize)

/-- The property of an aligned configuration. -/
def SizesFit (policy : Policy) (config : List Node) (decisions : List Decision) (r : Resolver) :
    Prop :=
  ∀ n ∈ config,
    (∀ u, n.detour ≠ "" → Resolves (newResolver config).2 n.detour u → r.effectiveMTU u ≠ 0 →
        r.SizeFits n (r.effectiveMTU u) ∨ Reported policy decisions n) ∧
      r.NotRaised n

/-- The condition: the explicit sizes of the QUIC proxies that are aligned with a limited detour. -/
def QUICSizesOk (policy : Policy) (config : List Node) : Prop :=
  ∀ n ∈ config, isQUICType n.type = true → n.detour ≠ "" → policy.excepted n.tag = false →
    ∀ capacity, (pathCapacity policy (newResolver config).2 config.length n.detour).value =
      some capacity → n.QUICSizeOk policy capacity

theorem Node.align_tag (policy : Policy) (n : Node) (c : Capacity) :
    ∀ d ∈ (n.align policy c).decisions, d.tag = n.tag := by
  unfold Node.align
  split
  · unfold unlimited
    split_ifs <;> simp [kept]
  · split
    · simp only [alignQUIC, mem_singleton, forall_eq]
      split_ifs <;> exact apply_tag
    · unfold Node.alignTunnel
      split
      · simp [kept]
      · dsimp only
        split
        · simp [kept]
        · simp only [mem_singleton, forall_eq]
          split_ifs <;> exact apply_tag

section

variable {policy : Policy} {nodes : String → Option Node} {size : ℕ} {rank : String → ℕ}

theorem aligned_tag (n : Node) : ∀ d ∈ (aligned policy nodes size n).decisions, d.tag = n.tag := by
  unfold aligned
  split
  · exact n.align_tag policy _
  · simp

/-- `Resolver.SizeFits` for the outcome of a node. -/
def Outcome.Fits (o : Outcome) (n : Node) (m : ℕ) : Prop :=
  (∀ overhead, n.overhead = some overhead → o.mtu + overhead ≤ m) ∧
    (isQUICType n.type = true →
      o.node.initialPacketSize ≠ 0 ∧ o.node.initialPacketSize + ipUDP n.server ≤ m)

theorem Outcome.Fits.mono {o : Outcome} {n : Node} {m m' : ℕ} (h : o.Fits n m) (hm : m ≤ m') :
    o.Fits n m' :=
  ⟨fun overhead ho => (h.1 overhead ho).trans hm,
    fun hq => ⟨(h.2 hq).1, (h.2 hq).2.trans (Int.ofNat_le.mpr hm)⟩⟩

theorem overhead_of_quic {n : Node} (h : isQUICType n.type) : n.overhead = none := by
  unfold overhead
  cases ht : n.type <;> simp_all [isQUICType, tunnelOverhead]

theorem aligned_fits_iff (hmo : policy.mode ≠ .off) (hrank : IsRank nodes size rank) (n : Node) :
    let o := aligned policy nodes size n
    ((∀ u, n.detour ≠ "" → Resolves nodes n.detour u → tunnelMTU policy nodes size u ≠ 0 →
          o.Fits n (tunnelMTU policy nodes size u) ∨ policy.excepted n.tag = true ∨
            ∃ d ∈ o.decisions, d.warning ≠ "") ∧
        (n.mtu ≠ 0 → o.node.mtu ≤ n.mtu) ∧
        (n.initialPacketSize ≠ 0 → o.node.initialPacketSize ≤ n.initialPacketSize)) ↔
      (isQUICType n.type = true → n.detour ≠ "" → policy.excepted n.tag = false →
        ∀ capacity, (pathCapacity policy nodes size n.detour).value = some capacity →
          n.QUICSizeOk policy capacity) := by
  intro o
  by_cases hd : n.detour = ""
  · have ho : o.node = n := aligned_node_of_not_aligns (by simp [aligns, hd])
    simp [hd, ho]
  cases hva : (pathCapacity policy nodes size n.detour).value with
  | none =>
    -- The detour resolves to no tunnel with a known mtu, and the node is left as it is.
    have ho : o.node = n := by
      simp only [o, aligned]
      split_ifs
      · simp [Node.align, hva]
      · rfl
    refine iff_of_true ⟨fun u _ hu hkn => ?_, by simp [ho], by simp [ho]⟩ (by simp)
    obtain ⟨v, hv, -⟩ := pathCapacity_le hrank hu hkn
    rw [hva] at hv
    cases hv
  | some capacity =>
    obtain ⟨u₀, hu₀, hm, hne⟩ := pathCapacity_attained hrank hva
    have hle : ∀ u, Resolves nodes n.detour u → tunnelMTU policy nodes size u ≠ 0 →
        capacity ≤ tunnelMTU policy nodes size u := by
      intro u hu hkn
      obtain ⟨v, hv, hle⟩ := pathCapacity_le hrank hu hkn
      rw [hva] at hv
      exact (Option.some.inj hv) ▸ hle
    -- All tunnels are fitted exactly if the one with the smallest mtu is.
    have ha : (∀ u, n.detour ≠ "" → Resolves nodes n.detour u →
          tunnelMTU policy nodes size u ≠ 0 →
          o.Fits n (tunnelMTU policy nodes size u) ∨ policy.excepted n.tag = true ∨
            ∃ d ∈ o.decisions, d.warning ≠ "") ↔
        (o.Fits n capacity ∨ policy.excepted n.tag = true ∨ ∃ d ∈ o.decisions, d.warning ≠ "") := by
      refine ⟨fun h => ?_, fun h u _ hu hkn => h.imp_left fun hf => hf.mono (hle u hu hkn)⟩
      have := h u₀ hd hu₀ (by rwa [hm])
      rwa [hm] at this
    rw [ha]
    by_cases hq : isQUICType n.type = true
    · have ho : o = n.alignQUIC policy capacity
          (pathCapacity policy nodes size n.detour).reason := by
        simp [o, aligned, aligns, hq, hd, Node.align, hva]
      have hf : o.Fits n capacity ↔ o.node.initialPacketSize ≠ 0 ∧
          o.node.initialPacketSize + ipUDP n.server ≤ capacity := by
        simp [Outcome.Fits, overhead_of_quic hq, hq]
      have hm : o.node.mtu = n.mtu := by
        rw [ho]
        simp only [alignQUIC]
        split_ifs <;> rfl
      cases he : policy.excepted n.tag with
      | true =>
        have hs : o.node = n := by
          rw [ho]
          simp [alignQUIC, apply, hmo, he]
        simp [hs]
      | false =>
        have hi := alignQUIC_fits hmo he capacity
          (pathCapacity policy nodes size n.detour).reason
        rw [← ho] at hi
        simp only [hf, hm, le_refl, implies_true, true_and, Bool.false_eq_true, false_or,
          hq, hd, ne_eq, not_false_eq_true, forall_const, Option.some.injEq,
          forall_eq'] at hi ⊢
        exact hi
    · refine iff_of_true ?_ fun h => absurd h hq
      cases hovh : n.overhead with
      | none =>
        -- Nothing is claimed of the other nodes, and they are left as they are.
        have hs : o.node = n := by
          simp only [o, aligned, Node.align, hva, hq, Bool.false_eq_true, if_false]
          split_ifs
          · simp [Node.alignTunnel, hovh]
          · rfl
        refine ⟨.inl ⟨by simp [hovh], fun h => absurd h hq⟩, by simp [hs], by simp [hs]⟩
      | some overhead =>
        have ho : o = n.alignTunnel policy capacity
            (pathCapacity policy nodes size n.detour).reason := by
          have ht := (tunnelOverhead_eq_some hovh).1
          simp [o, aligned, aligns, ht, hq, hd, Node.align, hva]
        obtain ⟨hf, hm⟩ := alignTunnel_fits hmo hovh capacity
          (pathCapacity policy nodes size n.detour).reason
        rw [← ho] at hf hm
        refine ⟨hf.imp_left fun hle => ⟨?_, fun h => absurd h hq⟩, hm, fun _ => ?_⟩
        · simpa [hovh] using hle
        · rw [ho, alignTunnel_initialPacketSize]

end

/-- After `Align` the sizes of a configuration with distinct tags and no cycle fit the path, are
excepted or are reported, and no explicit value was raised, exactly if the explicit sizes of its
QUIC proxies meet the condition. -/
theorem align_fits_iff (policy : Policy) (hmode : policy.mode ≠ .off) (config : List Node)
    (hdistinct : (config.map Node.tag).Nodup) (hacyclic : Acyclic (Edge (newResolver config).2))
    (decisions : List Decision) (r : Resolver) (h : align policy config = .ok (decisions, r)) :
    SizesFit policy config decisions r ↔ QUICSizesOk policy config := by
  obtain ⟨hde, ha⟩ := align_ok hmode hdistinct hacyclic h
  obtain ⟨-, hns, hme⟩ := newResolver_spec hdistinct
  obtain ⟨rank, hrank⟩ := exists_isRank hdistinct hacyclic
  refine forall₂_congr fun n hn => ?_
  obtain ⟨hno, hm⟩ := ha n hn
  refine Iff.trans ?_ (aligned_fits_iff hmode hrank n)
  have hr : Reported policy decisions n ↔ policy.excepted n.tag = true ∨
      ∃ d ∈ (aligned policy (newResolver config).2 config.length n).decisions, d.warning ≠ "" := by
    refine or_congr_right ⟨?_, ?_⟩
    · rintro ⟨d, hd, ht, hw⟩
      rw [hde] at hd
      obtain ⟨n', hn', hd⟩ := mem_flatMap.mp hd
      -- The tags are distinct, so the decision is one about this node.
      have heq : n' = n := Option.some.inj <| by
        rw [← hns n' hn', ← hns n hn, ← ht, aligned_tag n' d hd]
      exact ⟨d, heq ▸ hd, hw⟩
    · rintro ⟨d, hd, hw⟩
      exact ⟨d, hde ▸ mem_flatMap.mpr ⟨n, hn, hd⟩, aligned_tag n d hd, hw⟩
  have he : ∀ t u, Resolves (newResolver config).2 t u → r.effectiveMTU u =
      tunnelMTU policy (newResolver config).2 config.length u := by
    intro t u hu
    obtain ⟨t', ht'⟩ := hu.node
    obtain ⟨hin, -⟩ := hme t' u ht'
    simp only [effectiveMTU, tunnelMTU, (ha u hin).2]
  refine and_congr (forall_congr' fun u => forall₂_congr fun _ hu => ?_) ?_
  · rw [he _ u hu, hr]
    simp [Resolver.SizeFits, Outcome.Fits, hm, hno]
  · simp [Resolver.NotRaised, hno]

/-- The mtus, as far as they are known, of the tunnels that a tag may resolve to. -/
def knownMTUs (policy : Policy) (cfg : List Node) (t : String) : Set ℕ :=
  {v | v ≠ 0 ∧ ∃ u, Resolves (newResolver cfg).2 t u ∧
    tunnelMTU policy (newResolver cfg).2 cfg.length u = v}

/-- **`Capacity` is the least mtu below a tag**, over all selections of the groups, and after the
tunnels have been aligned themselves. There is none just if the mtu of no tunnel is known. -/
theorem capacity_isLeast (policy : Policy) (cfg : List Node) (hdistinct : (cfg.map tag).Nodup)
    (hacyclic : Acyclic (Edge (newResolver cfg).2)) (t : String) (v : ℕ) :
    (Resolver.capacity policy (cfg.length + 1) t { nodes := (newResolver cfg).2 }).1.value =
      some v ↔ IsLeast (knownMTUs policy cfg t) v := by
  obtain ⟨rank, hrank⟩ := exists_isRank hdistinct hacyclic
  have hc : (Resolver.capacity policy (cfg.length + 1) t { nodes := (newResolver cfg).2 }).1 =
      pathCapacity policy (newResolver cfg).2 cfg.length t :=
    (Resolver.capacity_spec hrank _ t _ ⟨by simp, by simp, fun t ht => ⟨ht, rfl⟩, by simp⟩ fun _ =>
      ⟨Nat.lt_succ_of_le (hrank.le t), by simp [Resolver.Clear]⟩).1
  rw [hc]
  constructor
  · intro h
    obtain ⟨u, hu, rfl, h0⟩ := pathCapacity_attained hrank h
    refine ⟨⟨h0, u, hu, rfl⟩, ?_⟩
    rintro v ⟨hv, u', hu', rfl⟩
    obtain ⟨w, hw, hle⟩ := pathCapacity_le hrank hu' hv
    exact Option.some.inj (hw.symm.trans h) ▸ hle
  · rintro ⟨⟨h0, u, hu, rfl⟩, hlo⟩
    obtain ⟨w, hw, hle⟩ := pathCapacity_le hrank hu h0
    obtain ⟨u', hu', hw', hw0⟩ := pathCapacity_attained hrank hw
    rw [hw, hle.antisymm (hlo ⟨hw0, u', hu', hw'⟩)]

/-- A WireGuard endpoint. -/
def wireguardIn : Node :=
  { tag := "wg-in", type := .wireguard, server := ⟨"1.2.3.4", true⟩, mtu := 1220 }

/-- A Hysteria2 outbound above it, with a domain as its server. -/
def hysteriaOut (initialPacketSize : ℤ) : Node :=
  { tag := "hy2", type := .hysteria2, server := ⟨"example.org", false⟩, detour := "wg-in",
    initialPacketSize }

theorem example_acyclic (initialPacketSize : ℤ) :
    Acyclic (Edge (newResolver [wireguardIn, hysteriaOut initialPacketSize]).2) := by
  refine acyclic_of_rank (fun t => if t = "hy2" then 1 else 0) fun t u ⟨n, hn, hu⟩ => ?_
  have hd : ([wireguardIn, hysteriaOut initialPacketSize].map tag).Nodup := by
    simp [wireguardIn, hysteriaOut]
  obtain ⟨hin, rfl⟩ := (newResolver_spec hd).2.2 t n hn
  rcases mem_cons.mp hin with rfl | hin
  · simp [wireguardIn] at hu
  · obtain rfl := mem_singleton.mp hin
    rcases hu with ⟨rfl, -⟩ | hu
    · simp [hysteriaOut]
    · simp [hysteriaOut] at hu

/-- A selector over the endpoint and another one with a larger mtu. -/
def selectorNodes : List Node :=
  [wireguardIn,
    { tag := "wg-out", type := .wireguard, server := ⟨"5.6.7.8", true⟩, mtu := 1280 },
    { tag := "select", type := .selector, server := ⟨"", false⟩,
      outbounds := ["wg-out", "wg-in"] }]

theorem selectorNodes_acyclic : Acyclic (Edge (newResolver selectorNodes).2) := by
  refine acyclic_of_rank (fun t => if t = "select" then 1 else 0) fun t u ⟨n, hn, hu⟩ => ?_
  have hd : (selectorNodes.map tag).Nodup := by decide
  obtain ⟨hin, rfl⟩ := (newResolver_spec hd).2.2 t n hn
  simp only [selectorNodes, mem_cons, not_mem_nil, or_false] at hin
  rcases hin with rfl | rfl | rfl
  · simp [wireguardIn] at hu
  · simp at hu
  · rcases hu with ⟨rfl, he⟩ | hu
    · exact absurd rfl he
    · simp only [mem_cons, not_mem_nil, or_false] at hu
      rcases hu with rfl | rfl <;> decide

theorem capacity_isLeast_example :
    IsLeast (knownMTUs clampAll selectorNodes "select") 1220 :=
  (capacity_isLeast clampAll _ (by decide) selectorNodes_acyclic "select" 1220).mp (by decide)

/-- With an explicit size of 1300 the proxy is lowered to 1200, and warned about. -/
theorem align_fits_iff_example :
    ∃ decisions r, align clampAll [wireguardIn, hysteriaOut 1300] = .ok (decisions, r) ∧
      SizesFit clampAll [wireguardIn, hysteriaOut 1300] decisions r := by
  refine ⟨_, _, rfl, ?_⟩
  refine (align_fits_iff clampAll (by decide) _ (by decide) (example_acyclic 1300) _ _ rfl).mpr
    fun n hn hq _ _ cap hc => ?_
  rcases mem_cons.mp hn with rfl | hn
  · simp [wireguardIn, isQUICType] at hq
  · obtain rfl := mem_singleton.mp hn
    have hp : (pathCapacity clampAll (newResolver [wireguardIn, hysteriaOut 1300]).2 2
      "wg-in").value = some 1220 := by decide
    obtain rfl := Option.some.inj (hp.symm.trans hc)
    unfold Node.QUICSizeOk
    decide

/-- An explicit size of 1200 is kept without a warning, although the path leaves 1172. -/
theorem align_misfit : ([wireguardIn, hysteriaOut 1200].map Node.tag).Nodup ∧
    Acyclic (Edge (newResolver [wireguardIn, hysteriaOut 1200]).2) ∧
    ∃ decisions r, align clampAll [wireguardIn, hysteriaOut 1200] = .ok (decisions, r) ∧
      ¬ SizesFit clampAll [wireguardIn, hysteriaOut 1200] decisions r := by
  obtain ⟨decisions, r, ha⟩ : ∃ decisions r,
      align clampAll [wireguardIn, hysteriaOut 1200] = .ok (decisions, r) := ⟨_, _, rfl⟩
  refine ⟨by decide, example_acyclic 1200, decisions, r, ha, fun hf => ?_⟩
  obtain ⟨hde, hal⟩ := align_ok (by decide) (by decide) (example_acyclic 1200) ha
  have hm : r.effectiveMTU wireguardIn = 1220 := (hal wireguardIn (by simp)).2
  have hr : Resolves (newResolver [wireguardIn, hysteriaOut 1200]).2 "wg-in" wireguardIn :=
    .tunnel (by decide) (by decide)
  rcases (hf (hysteriaOut 1200) (by simp)).1 wireguardIn (by decide) hr (by simp [hm])
    with hs | he | ⟨d, hd, -, hw⟩
  · obtain ⟨n', hn', -, hle⟩ := hs.2 (by decide)
    have hn : r.nodes (hysteriaOut 1200).tag = some (hysteriaOut 1200) :=
      (hal (hysteriaOut 1200) (by simp)).1
    obtain rfl := Option.some.inj (hn.symm.trans hn')
    rw [hm] at hle
    revert hle
    decide
  · revert he
    decide
  · have hq : ∀ d ∈ [wireguardIn, hysteriaOut 1200].flatMap (fun n =>
        (aligned clampAll (newResolver [wireguardIn, hysteriaOut 1200]).2 2 n).decisions),
        d.warning = "" := by decide
    exact hw (hq d (hde ▸ hd))

end SingBox.LxMTU
