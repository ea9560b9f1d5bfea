import SingBox.Foundation.Rank
import SingBox.LxMTU.Resolver

/-!
# The capacity of a path

The capacity of a node is a function of the configuration: that of a tunnel is its mtu after the
alignment with the capacity of its own detour, that of a group the minimum over its members. On an
acyclic graph the memoised recursion of the resolver computes this function, and aligns every node
with it once.
-/

namespace SingBox.LxMTU

open Foundation Function List Resolver Node Option

/-- An edge of the graph: the detour of a node, or a member of a group. -/
def Edge (nodes : String → Option Node) (t u : String) : Prop :=
  ∃ n, nodes t = some n ∧ (n.detour = u ∧ u ≠ "" ∨ u ∈ n.outbounds)

section Path

variable (policy : Policy) (nodes : String → Option Node)

/-- The capacity of a tag, from the capacities of the tags below. -/
def pathStep (below : String → Capacity) (t : String) : Capacity :=
  match nodes t with
  | none => {}
  | some n =>
    match n.type with
    | .wireguard | .masque | .openVPNClient | .openConnect =>
      Resolver.tunnelCapacity n
        (if n.aligns then (n.align policy (below n.detour)).mtu else n.tunnelMTU)
    | .tailscale => Resolver.tunnelCapacity n (Resolver.tailscaleMTU n)
    | .selector | .urltest =>
      Resolver.groupResult
        (n.outbounds.foldl (fun result m => Resolver.addMember n result (below m)) {})
    | .chain => { warning := Resolver.chainWarning t }
    | _ => {}

/-- The recursion of `pathStep`, to a given depth. -/
def pathTo : ℕ → String → Capacity
  | 0, _ => {}
  | fuel + 1, t => pathStep policy nodes (pathTo fuel) t

/-- The capacity of a tag in a configuration with `size` nodes. -/
def pathCapacity (size : ℕ) (t : String) : Capacity := pathTo policy nodes (size + 1) t

variable {policy nodes}

variable {t : String}

theorem pathStep_congr {below below' : String → Capacity}
    (h : ∀ u, Edge nodes t u → below u = below' u) :
    pathStep policy nodes below t = pathStep policy nodes below' t := by
  unfold pathStep
  cases hn : nodes t with
  | none => rfl
  | some n =>
    have ht : (if n.aligns then (n.align policy (below n.detour)).mtu else n.tunnelMTU) =
        if n.aligns then (n.align policy (below' n.detour)).mtu else n.tunnelMTU := by
      split_ifs with ha
      · have hd : n.detour ≠ "" := by
          simp only [aligns, Bool.and_eq_true, decide_eq_true_eq] at ha
          exact ha.2
        rw [h n.detour ⟨n, hn, .inl ⟨rfl, hd⟩⟩]
      · rfl
    have hg : ∀ (members : List String) (c : Capacity), (∀ m ∈ members, m ∈ n.outbounds) →
        members.foldl (fun result m => addMember n result (below m)) c =
          members.foldl (fun result m => addMember n result (below' m)) c := by
      intro members
      induction members with
      | nil => exact fun _ _ => rfl
      | cons m members ih =>
        intro c hme
        rw [foldl_cons, foldl_cons, h m ⟨n, hn, .inr (hme m mem_cons_self)⟩]
        exact ih _ fun m' hm' => hme m' (mem_cons_of_mem m hm')
    simp only [ht, hg n.outbounds {} fun _ hm => hm]

/-- A rank of the graph: it decreases along the edges between nodes, and is at most `size`. -/
structure IsRank (nodes : String → Option Node) (size : ℕ) (rank : String → ℕ) : Prop where
  lt : ∀ t u, Edge nodes t u → (nodes u).isSome → rank u < rank t
  le : ∀ t, rank t ≤ size

variable {size : ℕ} {rank : String → ℕ}

theorem pathTo_of_none (h : nodes t = none) (fuel : ℕ) : pathTo policy nodes fuel t = {} := by
  cases fuel with
  | zero => rfl
  | succ fuel => simp [pathTo, pathStep, h]

theorem pathTo_stable (hra : IsRank nodes size rank) {fuel fuel' : ℕ}
    (h : (nodes t).isSome → rank t < fuel) (h' : (nodes t).isSome → rank t < fuel') :
    pathTo policy nodes fuel t = pathTo policy nodes fuel' t := by
  induction fuel generalizing fuel' t with
  | zero =>
    have hno : nodes t = none := by
      by_contra hs
      exact absurd (h (isSome_iff_ne_none.mpr hs)) (Nat.not_lt_zero _)
    rw [pathTo_of_none hno, pathTo_of_none hno]
  | succ fuel ih =>
    cases fuel' with
    | zero =>
      have hno : nodes t = none := by
        by_contra hs
        exact absurd (h' (isSome_iff_ne_none.mpr hs)) (Nat.not_lt_zero _)
      rw [pathTo_of_none hno, pathTo_of_none hno]
    | succ fuel' =>
      refine pathStep_congr fun u hu => ih ?_ ?_ <;>
        · intro hs
          have hlt := hra.lt t u hu hs
          obtain ⟨n, hn, -⟩ := hu
          have := h (by simp [hn])
          have := h' (by simp [hn])
          omega

/-- The recursion that `pathCapacity` solves. -/
theorem pathCapacity_eq (hrank : IsRank nodes size rank) (t : String) :
    pathCapacity policy nodes size t =
      pathStep policy nodes (pathCapacity policy nodes size) t := by
  refine pathStep_congr fun u hu => pathTo_stable hrank (fun hs => ?_) fun _ => ?_
  · exact (hrank.lt t u hu hs).trans_le (hrank.le t)
  · exact Nat.lt_succ_of_le (hrank.le u)

end Path

/-- The outcome of a node, as a function of the configuration. -/
def aligned (policy : Policy) (nodes : String → Option Node) (size : ℕ) (n : Node) : Outcome :=
  if n.aligns then n.align policy (pathCapacity policy nodes size n.detour)
  else ⟨n, [], n.tunnelMTU⟩

/-! ### What the alignment leaves alone -/

/-- The fields by which other nodes see a node. -/
def Node.SameRole (n n' : Node) : Prop :=
  n'.tag = n.tag ∧ n'.type = n.type ∧ n'.outbounds = n.outbounds

theorem Node.align_sameRole (policy : Policy) (n : Node) (c : Capacity) :
    n.SameRole (n.align policy c).node := by
  unfold align
  split
  · exact ⟨rfl, rfl, rfl⟩
  · split
    · simp only [alignQUIC]
      split <;> exact ⟨rfl, rfl, rfl⟩
    · simp only [alignTunnel]
      split
      · exact ⟨rfl, rfl, rfl⟩
      · split
        · exact ⟨rfl, rfl, rfl⟩
        · dsimp only
          split <;> split <;> exact ⟨rfl, rfl, rfl⟩

section

variable {policy : Policy} {nodes : String → Option Node} {size : ℕ} {rank : String → ℕ}

theorem aligned_sameRole (n : Node) : n.SameRole (aligned policy nodes size n).node := by
  unfold aligned
  split
  · exact n.align_sameRole policy _
  · exact ⟨rfl, rfl, rfl⟩

variable {n : Node}

theorem aligned_node_of_not_aligns (h : n.aligns = false) :
    (aligned policy nodes size n).node = n := by
  simp [aligned, h]

/-! ### The memoised recursion -/

namespace Resolver

variable (policy nodes size rank)

/-- The memos agree with the functions of the configuration. -/
structure Inv (r : Resolver) : Prop where
  memo : ∀ t c, r.capacities t = some c → c = pathCapacity policy nodes size t
  unaligned : ∀ t, r.aligning t ≠ .done → r.nodes t = nodes t ∧ r.decisions t = []
  unknown : ∀ t, nodes t = none → r.nodes t = none ∧ r.decisions t = []
  done : ∀ t n, r.aligning t = .done → nodes t = some n →
    r.nodes t = some (aligned policy nodes size n).node ∧
      r.decisions t = (aligned policy nodes size n).decisions ∧
      r.effective t = (aligned policy nodes size n).mtu

/-- What a call keeps: the marks, and the nodes that are done. -/
structure Frame (r r' : Resolver) : Prop where
  visiting : r'.visiting = r.visiting
  inProgress : ∀ t, r'.aligning t = .inProgress ↔ r.aligning t = .inProgress
  done : ∀ t, r.aligning t = .done → r'.aligning t = .done

/-- The nodes in progress have a larger rank. -/
def Clear (r : Resolver) (k : ℕ) : Prop :=
  ∀ u, r.visiting u = true ∨ r.aligning u = .inProgress → k < rank u

/-- What is expected of `Capacity` for the tags of a rank below `bound`. -/
def CapacitySpec (capacity : String → Resolver → Capacity × Resolver) (bound : ℕ) : Prop :=
  ∀ t r, Inv policy nodes size r →
    ((nodes t).isSome → rank t < bound ∧ Clear rank r (rank t)) →
    (capacity t r).1 = pathCapacity policy nodes size t ∧
      Inv policy nodes size (capacity t r).2 ∧ Frame r (capacity t r).2

variable {policy nodes size rank}

theorem Frame.refl (r : Resolver) : Frame r r := ⟨rfl, fun _ => Iff.rfl, fun _ h => h⟩

variable {r r' r'' : Resolver}

theorem Frame.trans (h : Frame r r') (h' : Frame r' r'') : Frame r r'' :=
  ⟨h'.visiting.trans h.visiting, fun t => (h'.inProgress t).trans (h.inProgress t),
    fun t ht => h'.done t (h.done t ht)⟩

theorem Clear.frame {r r' : Resolver} {k : ℕ} (h : Clear rank r k) (hfr : Frame r r') :
    Clear rank r' k := by
  intro u hu
  rw [hfr.visiting, hfr.inProgress] at hu
  exact h u hu

variable {t : String} {r : Resolver}

theorem Inv.mark (h : Inv policy nodes size r) (ht : r.aligning t = .pending) :
    Inv policy nodes size { r with aligning := update r.aligning t .inProgress } := by
  refine ⟨h.memo, fun u hu => ?_, h.unknown, fun u n hu hn => ?_⟩
  · rcases eq_or_ne u t with rfl | hne
    · exact h.unaligned u (by simp [ht])
    · exact h.unaligned u (by simpa [update_of_ne hne] using hu)
  · rcases eq_or_ne u t with rfl | hne
    · simp at hu
    · exact h.done u n (by simpa [update_of_ne hne] using hu) hn

theorem Inv.finish (h : Inv policy nodes size r) (ht : r.aligning t = .inProgress)
    (hn : nodes t = some n) {r' : Resolver} {o : Outcome} (ho : o = aligned policy nodes size n)
    (hca : r'.capacities = r.capacities) (hns : r'.nodes = update r.nodes t (some o.node))
    (hd : r'.decisions = update r.decisions t (r.decisions t ++ o.decisions))
    (he : r'.effective = update r.effective t o.mtu)
    (ha : r'.aligning = update r.aligning t .done) :
    Inv policy nodes size r' := by
  refine ⟨fun u c hc => h.memo u c (hca ▸ hc), fun u hu => ?_, fun u hu => ?_,
    fun u n' hu hn' => ?_⟩
  · have hne : u ≠ t := by
      rintro rfl
      exact hu (by rw [ha, update_self])
    rw [ha, update_of_ne hne] at hu
    rw [hns, hd, update_of_ne hne, update_of_ne hne]
    exact h.unaligned u hu
  · have hne : u ≠ t := by
      rintro rfl
      rw [hn] at hu
      cases hu
    rw [hns, hd, update_of_ne hne, update_of_ne hne]
    exact h.unknown u hu
  · rcases eq_or_ne u t with rfl | hne
    · obtain rfl : n = n' := some.inj (hn.symm.trans hn')
      have hni := (h.unaligned u (by simp [ht])).2
      rw [hns, hd, he, update_self, update_self, update_self, hni, nil_append, ho]
      exact ⟨rfl, rfl, rfl⟩
    · rw [ha, update_of_ne hne] at hu
      rw [hns, hd, he, update_of_ne hne, update_of_ne hne, update_of_ne hne]
      exact h.done u n' hu hn'

theorem Frame.finish (ht : r.aligning t = .pending)
    (h : Frame { r with aligning := update r.aligning t .inProgress } r')
    (hv : r''.visiting = r'.visiting) (ha : r''.aligning = update r'.aligning t .done) :
    Frame r r'' := by
  refine ⟨hv.trans h.visiting, fun u => ?_, fun u hu => ?_⟩ <;>
    rcases eq_or_ne u t with rfl | hne
  · simp [ha, ht]
  · simpa [ha, update_of_ne hne] using h.inProgress u
  · simp [ha]
  · have hd := h.done u (by simpa [update_of_ne hne] using hu)
    simpa [ha, update_of_ne hne] using hd

section

variable {capacity : String → Resolver → Capacity × Resolver} {bound : ℕ}
  (hrank : IsRank nodes size rank) (hcapacity : CapacitySpec policy nodes size rank capacity bound)

include hrank hcapacity

/-- `alignNode`, if `Capacity` is right for the nodes below. -/
theorem alignNode_spec (h : Inv policy nodes size r)
    (ht : (nodes t).isSome → rank t ≤ bound ∧ (∀ u, r.visiting u = true → rank t ≤ rank u) ∧
      ∀ u, r.aligning u = .inProgress → rank t < rank u) :
    (∀ n, nodes t = some n → (alignNode policy capacity t r).1 = (aligned policy nodes size n).mtu ∧
          (alignNode policy capacity t r).2.aligning t = .done) ∧
      Inv policy nodes size (alignNode policy capacity t r).2 ∧
      Frame r (alignNode policy capacity t r).2 := by
  unfold alignNode
  cases ha : r.aligning t with
  | done =>
    exact ⟨fun n hn => ⟨(h.done t n ha hn).2.2, ha⟩, h, Frame.refl r⟩
  | inProgress =>
    refine ⟨fun n hn => ?_, h, Frame.refl r⟩
    exact absurd ((ht (by simp [hn])).2.2 t ha) (lt_irrefl _)
  | pending =>
    have hm := h.mark ha
    have hno := (h.unaligned t (by simp [ha])).1
    cases hn : nodes t with
    | none =>
      simp only [alignOf, hno, hn]
      refine ⟨by simp, ⟨h.memo, fun u hu => ?_, h.unknown, fun u n hu hn' => ?_⟩,
        (Frame.refl _).finish ha rfl rfl⟩
      · rcases eq_or_ne u t with rfl | hne
        · simp at hu
        · exact h.unaligned u (by simpa [update_of_ne hne] using hu)
      · rcases eq_or_ne u t with rfl | hne
        · rw [hn] at hn'
          cases hn'
        · have hd := h.done u n (by simpa [update_of_ne hne] using hu) hn'
          simpa [update_of_ne hne] using hd
    | some n =>
      obtain ⟨hbd, hvis, hp⟩ := ht (by simp [hn])
      simp only [alignOf, hno, hn]
      by_cases haln : n.aligns = true
      · -- The detour is below the node, so neither the node nor what is above it is in its way.
        have hdet : n.detour ≠ "" := by
          simp only [aligns, Bool.and_eq_true, decide_eq_true_eq] at haln
          exact haln.2
        have hl := hcapacity n.detour _ hm fun hso => by
          have hlt := hrank.lt t n.detour ⟨n, hn, .inl ⟨rfl, hdet⟩⟩ hso
          refine ⟨hlt.trans_le hbd, fun u hu => ?_⟩
          rcases eq_or_ne u t with rfl | hne
          · exact hlt
          · rcases hu with hu | hu
            · exact hlt.trans_le (hvis u hu)
            · exact hlt.trans (hp u (by simpa [update_of_ne hne] using hu))
        obtain ⟨hv, hi, hfr⟩ := hl
        simp only [haln, if_true]
        have ho : n.align policy (capacity n.detour
            { r with aligning := update r.aligning t .inProgress }).1 =
            aligned policy nodes size n := by rw [hv, aligned, if_pos haln]
        have hs : (capacity n.detour
            { r with aligning := update r.aligning t .inProgress }).2.aligning t =
            .inProgress := (hfr.inProgress t).mpr (by simp)
        refine ⟨fun n' hn' => ?_, hi.finish hs hn ho rfl rfl rfl rfl rfl, hfr.finish ha rfl rfl⟩
        cases hn'
        exact ⟨congrArg Outcome.mtu ho, by simp⟩
      · have ho : (⟨n, [], n.tunnelMTU⟩ : Outcome) = aligned policy nodes size n := by
          rw [aligned, if_neg haln]
        have hse : some n = r.nodes t := by rw [hno, hn]
        simp only [haln, Bool.false_eq_true, if_false]
        refine ⟨fun n' hn' => ?_, hm.finish (by simp) hn ho rfl ?_ ?_ rfl rfl,
          (Frame.refl _).finish ha rfl rfl⟩
        · cases hn'
          exact ⟨congrArg Outcome.mtu ho, by simp⟩
        · simp [hse]
        · simp

/-- The loop over the members of the group `t`. -/
theorem groupLoop_spec {n n' : Node} (hn : nodes t = some n) (ht : n'.tag = n.tag)
    (hbd : rank t ≤ bound) {members : List String} (hm : ∀ m ∈ members, m ∈ n.outbounds)
    (result : Capacity) (h : Inv policy nodes size r)
    (hc : ∀ u, r.visiting u = true ∨ r.aligning u = .inProgress → rank t ≤ rank u) :
    (groupLoop capacity n' members result r).1 =
        members.foldl (fun c m => addMember n c (pathCapacity policy nodes size m)) result ∧
      Inv policy nodes size (groupLoop capacity n' members result r).2 ∧
      Frame r (groupLoop capacity n' members result r).2 := by
  induction members generalizing result r with
  | nil => exact ⟨rfl, h, Frame.refl r⟩
  | cons m members ih =>
    obtain ⟨hv, hi, hfr⟩ := hcapacity m r h fun hs => by
      have hlt := hrank.lt t m ⟨n, hn, .inr (hm m mem_cons_self)⟩ hs
      exact ⟨hlt.trans_le hbd, fun u hu => hlt.trans_le (hc u hu)⟩
    have ha : addMember n' result (capacity m r).1 =
        addMember n result (pathCapacity policy nodes size m) := by
      rw [hv]
      simp only [addMember, ht]
    have hr := ih (fun m' hm' => hm m' (mem_cons_of_mem m hm'))
      (addMember n' result (capacity m r).1) hi
      (fun u hu => hc u (by rwa [hfr.visiting, hfr.inProgress] at hu))
    rw [groupLoop]
    refine ⟨hr.1.trans ?_, hr.2.1, hfr.trans hr.2.2⟩
    rw [ha, foldl_cons]

end

/-- The node of a tag plays its role whether it is aligned yet or not, and is the original if there
is nothing to align. -/
theorem Inv.node (h : Inv policy nodes size r) (hn : nodes t = some n) :
    ∃ n', r.nodes t = some n' ∧ n.SameRole n' ∧ (n.aligns = false → n' = n) := by
  by_cases hd : r.aligning t = .done
  · exact ⟨_, (h.done t n hd hn).1, aligned_sameRole n, aligned_node_of_not_aligns⟩
  · exact ⟨n, (h.unaligned t hd).1.trans hn, ⟨rfl, rfl, rfl⟩, fun _ => rfl⟩

theorem capacityOf_spec {capacity : String → Resolver → Capacity × Resolver} {bound : ℕ}
    (hrank : IsRank nodes size rank)
    (hcapacity : CapacitySpec policy nodes size rank capacity bound) (h : Inv policy nodes size r)
    (ht : (nodes t).isSome → rank t ≤ bound ∧ (∀ u, r.visiting u = true → rank t ≤ rank u) ∧
      ∀ u, r.aligning u = .inProgress → rank t < rank u) :
    (capacityOf policy capacity t r).1 = pathCapacity policy nodes size t ∧
      Inv policy nodes size (capacityOf policy capacity t r).2 ∧
      Frame r (capacityOf policy capacity t r).2 := by
  rw [pathCapacity_eq hrank]
  unfold capacityOf pathStep
  cases hn : nodes t with
  | none =>
    rw [(h.unknown t hn).1]
    exact ⟨rfl, h, Frame.refl r⟩
  | some n =>
    obtain ⟨n', hn', ⟨htag, hty, ho⟩, hsa⟩ := h.node hn
    have ha := alignNode_spec hrank hcapacity h ht
    have hc : ∀ mtu, tunnelCapacity n' mtu = tunnelCapacity n mtu := fun mtu => by
      simp only [tunnelCapacity, describeTunnel, htag, hty]
    have htun : (aligned policy nodes size n).mtu =
        if n.aligns then (n.align policy (pathCapacity policy nodes size n.detour)).mtu
        else n.tunnelMTU := by
      simp only [aligned]
      split_ifs <;> rfl
    rw [hn']
    simp only [hty]
    cases ht' : n.type with
    | wireguard | masque | openVPNClient | openConnect =>
      refine ⟨?_, ha.2.1, ha.2.2⟩
      simp only [hc, (ha.1 n hn).1, htun]
    | selector | urltest =>
      obtain ⟨hbd, hv, hp⟩ := ht (by simp [hn])
      have hl := groupLoop_spec hrank hcapacity hn htag hbd
        (fun m (hm : m ∈ n.outbounds) => hm) {} h
        (fun u hu => hu.elim (hv u) fun hu => (hp u hu).le)
      refine ⟨?_, ?_, ?_⟩
      · simp only [ho]
        rw [hl.1]
      · simp only [ho]
        exact hl.2.1
      · simp only [ho]
        exact hl.2.2
    | tailscale =>
      have hs : n' = n := hsa (by simp [aligns, ht', isQUICType, isTunnelType])
      rw [hs]
      exact ⟨rfl, h, Frame.refl r⟩
    | _ => exact ⟨rfl, h, Frame.refl r⟩

/-- `Capacity` computes the capacity of the path. -/
theorem capacity_spec (hrank : IsRank nodes size rank) (fuel : ℕ) :
    CapacitySpec policy nodes size rank (capacity policy fuel) fuel := by
  induction fuel with
  | zero =>
    intro t r h ht
    have hn : nodes t = none := by
      by_contra hs
      exact absurd (ht (isSome_iff_ne_none.mpr hs)).1 (Nat.not_lt_zero _)
    exact ⟨(pathTo_of_none hn _).symm, h, Frame.refl r⟩
  | succ fuel ih =>
    intro t r h ht
    unfold capacity
    cases hme : r.capacities t with
    | some c => exact ⟨h.memo t c hme, h, Frame.refl r⟩
    | none =>
      by_cases hvis : r.visiting t = true
      · simp only [hvis, if_true]
        refine ⟨?_, h, Frame.refl r⟩
        have hn : nodes t = none := by
          by_contra hs
          exact lt_irrefl _
            ((ht (isSome_iff_ne_none.mpr hs)).2 t (.inl hvis))
        exact (pathTo_of_none hn _).symm
      · simp only [hvis, Bool.false_eq_true, if_false]
        have hm : Inv policy nodes size
            { r with visiting := update r.visiting t true } :=
          ⟨h.memo, h.unaligned, h.unknown, h.done⟩
        obtain ⟨hv, hi, hfr⟩ := capacityOf_spec hrank ih (t := t) hm fun hs => by
          obtain ⟨hlt, hclr⟩ := ht hs
          refine ⟨Nat.le_of_lt_succ hlt, fun u hu => ?_, fun u hu => hclr u (.inr hu)⟩
          rcases eq_or_ne u t with rfl | hne
          · exact le_rfl
          · exact (hclr u (.inl (by simpa [update_of_ne hne] using hu))).le
        refine ⟨hv, ⟨fun u c hc => ?_, hi.unaligned, hi.unknown, hi.done⟩, ?_,
          hfr.inProgress, hfr.done⟩
        · dsimp only at hc
          rcases eq_or_ne u t with rfl | hne
          · rw [update_self] at hc
            rw [← some.inj hc, hv]
          · rw [update_of_ne hne] at hc
            exact hi.memo u c hc
        · rw [hfr.visiting]
          funext u
          rcases eq_or_ne u t with rfl | hne
          · simpa using hvis
          · simp [update_of_ne hne]

end Resolver

end

/-! ### Align -/

variable {config : List Node}

/-- `index` over nodes with new and distinct tags. -/
theorem index_loop (hd : (config.map tag).Nodup) (order : List String)
    (nodes : String → Option Node) (hn : ∀ n ∈ config, nodes n.tag = none) :
    (config.foldl index (order, nodes)).1 = order ++ config.map tag ∧
      (∀ n ∈ config, (config.foldl index (order, nodes)).2 n.tag = some n) ∧
      ∀ t, t ∉ config.map tag → (config.foldl index (order, nodes)).2 t = nodes t := by
  induction config generalizing order nodes with
  | nil => simp
  | cons n config ih =>
    obtain ⟨hh, hd⟩ := nodup_cons.mp hd
    have hstep : index (order, nodes) n =
        (order ++ [n.tag], update nodes n.tag (some n)) := by
      simp [index, hn n mem_cons_self]
    have hne : ∀ n' ∈ config, n'.tag ≠ n.tag := fun n' hn' heq =>
      hh (heq ▸ mem_map_of_mem hn')
    obtain ⟨hord, hns, ho⟩ := ih hd (order ++ [n.tag])
      (update nodes n.tag (some n)) fun n' hn' => by
        rw [update_of_ne (hne n' hn')]
        exact hn n' (mem_cons_of_mem n hn')
    rw [foldl_cons, hstep]
    refine ⟨by simp [hord], fun n' hn' => ?_, fun t ht => ?_⟩
    · rcases mem_cons.mp hn' with rfl | hn'
      · rw [ho n'.tag hh, update_self]
      · exact hns n' hn'
    · rw [map_cons, mem_cons, not_or] at ht
      rw [ho t ht.2, update_of_ne ht.1]

theorem newResolver_spec (hd : (config.map tag).Nodup) : (newResolver config).1 = config.map tag ∧
      (∀ n ∈ config, (newResolver config).2 n.tag = some n) ∧
      ∀ t n, (newResolver config).2 t = some n → n ∈ config ∧ n.tag = t := by
  obtain ⟨hord, hns, ho⟩ := index_loop hd [] (fun _ => none)
    fun _ _ => rfl
  refine ⟨by simpa [newResolver] using hord, hns, fun t n hn => ?_⟩
  by_cases ht : t ∈ config.map tag
  · obtain ⟨n', hn', rfl⟩ := mem_map.mp ht
    obtain rfl : n' = n := some.inj ((hns n' hn').symm.trans hn)
    exact ⟨hn', rfl⟩
  · have hno := ho t ht
    rw [newResolver] at hn
    rw [hn] at hno
    cases hno

section

variable {policy : Policy} {nodes : String → Option Node} {size : ℕ} {rank : String → ℕ}

/-- The loop of `Align`: when it ends, every node is done. -/
theorem align_loop (hrank : IsRank nodes size rank) (tags : List String)
    {r : Resolver} (h : r.Inv policy nodes size) (hi : ∀ k, r.Clear rank k) :
    let r' := tags.foldl
      (fun r t => (alignNode policy (capacity policy (size + 1)) t r).2) r
    r'.Inv policy nodes size ∧
      ∀ t, (t ∈ tags ∨ r.aligning t = .done) → (nodes t).isSome → r'.aligning t = .done := by
  induction tags generalizing r with
  | nil => exact ⟨h, fun t ht _ => ht.resolve_left (by simp)⟩
  | cons t tags ih =>
    obtain ⟨hd, hinv, hfr⟩ := alignNode_spec hrank
      (capacity_spec hrank (size + 1)) (t := t) h fun _ =>
        ⟨(hrank.le t).trans (Nat.le_succ _), fun u hu => (hi _ u (.inl hu)).le,
          fun u hu => hi _ u (.inr hu)⟩
    obtain ⟨hi', hd'⟩ := ih hinv fun k => (hi k).frame hfr
    refine ⟨hi', fun u hu hs => hd' u ?_ hs⟩
    rcases hu with hu | hu
    · rcases mem_cons.mp hu with rfl | hu
      · obtain ⟨n, hn⟩ := isSome_iff_exists.mp hs
        exact .inr (hd n hn).2
      · exact .inl hu
    · exact .inr (hfr.done u hu)

end

theorem exists_isRank (hd : (config.map tag).Nodup) (ha : Acyclic (Edge (newResolver config).2)) :
    ∃ rank, IsRank (newResolver config).2 config.length rank := by
  obtain ⟨-, -, hm⟩ := newResolver_spec hd
  obtain ⟨rank, hlt, hle⟩ := ha.exists_rank (config.map tag)
  refine ⟨rank, fun t u he hs => hlt t u he ?_, fun t => by simpa using hle t⟩
  obtain ⟨n, hn⟩ := isSome_iff_exists.mp hs
  obtain ⟨hin, rfl⟩ := hm u n hn
  exact mem_map_of_mem hin

/-- What `Align` has done to a configuration with distinct tags and no cycle: each node has its
outcome, and the decisions are returned in the order of the configuration. -/
theorem align_ok {policy : Policy} (hm : policy.mode ≠ .off) (hd : (config.map tag).Nodup)
    (hac : Acyclic (Edge (newResolver config).2)) {decisions : List Decision} {r : Resolver}
    (h : align policy config = .ok (decisions, r)) :
    let outcome := aligned policy (newResolver config).2 config.length
    decisions = config.flatMap (fun n => (outcome n).decisions) ∧
      ∀ n ∈ config, r.nodes n.tag = some (outcome n).node ∧
        r.effective n.tag = (outcome n).mtu := by
  obtain ⟨ho, hns, -⟩ := newResolver_spec hd
  obtain ⟨rank, hrank⟩ := exists_isRank hd hac
  have hinit : Resolver.Inv policy (newResolver config).2 config.length
      { nodes := (newResolver config).2 } :=
    ⟨by simp, by simp, fun t ht => ⟨ht, rfl⟩, by simp⟩
  obtain ⟨hi, hdo⟩ := align_loop hrank (newResolver config).1 hinit
    (by simp [Resolver.Clear])
  simp only [align, hm, if_false] at h
  split at h
  · cases h
  · have hl : (newResolver config).1.length = config.length := by rw [ho]; simp
    simp only [Except.ok.injEq, Prod.mk.injEq, hl] at h
    obtain ⟨hdec, rfl⟩ := h
    have ha : ∀ n ∈ config, _ := fun n hn => hi.done n.tag n
      (hdo n.tag (.inl (by rw [ho]; exact mem_map_of_mem hn)) (by simp [hns n hn]))
      (hns n hn)
    refine ⟨?_, fun n hn => ⟨(ha n hn).1, (ha n hn).2.2⟩⟩
    have hmap : ∀ f : String → List Decision,
        (newResolver config).1.flatMap f = config.flatMap fun n => f n.tag := fun f => by
      rw [ho, flatMap_map]
    rw [← hdec, hmap]
    exact flatMap_congr fun n hn => (ha n hn).2.1

end SingBox.LxMTU
