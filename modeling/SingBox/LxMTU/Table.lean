import Mathlib

/-!
# Packet sizes: tables and modes

A node that sits on top of an IP tunnel has its packet size aligned with what the tunnel can carry.
This module has what the alignment of the `detour` graph and that of a chain share: the overheads,
the floors, and the mode table `Policy.apply`.

Sizes are natural numbers where the source has `uint32`, and integers where a limit can be negative.
-/

namespace SingBox.LxMTU

/-- The types of nodes, the ones that the alignment knows and all others. -/
inductive NodeType where
  | wireguard
  | masque
  | openVPNClient
  | openConnect
  | tailscale
  | hysteria2
  | tuic
  | hysteria
  | direct
  | block
  | selector
  | urltest
  | chain
  | other (name : String)
deriving DecidableEq

/-- The name of a type in a configuration. -/
def NodeType.name : NodeType → String
  | wireguard => "wireguard"
  | masque => "masque"
  | openVPNClient => "openvpn-client"
  | openConnect => "openconnect"
  | tailscale => "tailscale"
  | hysteria2 => "hysteria2"
  | tuic => "tuic"
  | hysteria => "hysteria"
  | direct => "direct"
  | block => "block"
  | selector => "selector"
  | urltest => "urltest"
  | chain => "chain"
  | other name => name

/-- A server, and whether `netip.ParseAddr` reads it as an IPv4 address, possibly mapped. -/
structure Server where
  name : String
  is4 : Bool
deriving DecidableEq

def Server.family (server : Server) : String := if server.is4 then "ipv4" else "ipv6"

/-- `IPUDP`: the outer headers towards the server. -/
def ipUDP (server : Server) : ℕ := if server.is4 then 28 else 48

/-- `WGOverhead` and `MASQUEDatagramOverhead`. -/
def wgOverhead : ℕ := 32

@[inherit_doc wgOverhead]
def masqueDatagramOverhead : ℕ := 51

/-- `QUICMinPacketSize` and `QUICMaxPacketSize`. -/
def quicMinPacketSize : ℕ := 1200

@[inherit_doc quicMinPacketSize]
def quicMaxPacketSize : ℕ := 1452

def ipv6MinimumMTU : ℕ := 1280

def defaultTailscaleMTU : ℕ := 1280

def isTunnelType : NodeType → Bool
  | .wireguard | .masque | .openVPNClient | .openConnect => true
  | _ => false

def isQUICType : NodeType → Bool
  | .hysteria2 | .tuic | .hysteria => true
  | _ => false

/-- `TunnelDefaultMTU`: zero if the default is not known. -/
def tunnelDefaultMTU : NodeType → ℕ
  | .wireguard => 1408
  | .masque => 1280
  | _ => 0

/-- `TunnelOverhead`: what a tunnel adds to each inner packet, if that is known. -/
def tunnelOverhead (type : NodeType) (server : Server) (padding : ℕ) : Option ℕ :=
  match type with
  | .wireguard => some (wgOverhead + padding + ipUDP server)
  | .masque => some (masqueDatagramOverhead + ipUDP server)
  | _ => none

def overheadText (overhead : ℕ) (server : Server) (padding : ℕ) : String :=
  "− " ++ toString overhead ++ " " ++ server.family ++
    if 0 < padding then " (s4 " ++ toString padding ++ ")" else ""

/-- `FloorIPv6`: the size, and whether the limit was raised to it. -/
def floorIPv6 (limit : ℤ) (carriesIPv6 : Bool) : ℤ × Bool :=
  if carriesIPv6 ∧ limit < ipv6MinimumMTU then (ipv6MinimumMTU, true) else (limit, false)

def floorWarning (tag : String) (mtu : ℕ) (limit : ℤ) (reason : String) : String :=
  tag ++ " mtu " ++ toString mtu ++ " is above the path: " ++ reason ++ " leaves " ++
    toString limit ++ " bytes, below the IPv6 minimum " ++ toString ipv6MinimumMTU ++
    "; outer packets will be fragmented"

/-- `QUICClamp`: the size, and whether the limit was below the minimum of QUIC. -/
def quicClamp (limit : ℤ) : ℤ × Bool :=
  if limit < quicMinPacketSize then (quicMinPacketSize, true)
  else if quicMaxPacketSize < limit then (quicMaxPacketSize, false)
  else (limit, false)

/-- The warning about a size that was raised to the minimum of QUIC. -/
def quicWarning (tag : String) (size limit : ℤ) : String :=
  tag ++ " initial_packet_size " ++ toString size ++ " will not fit: path limit " ++
    toString limit ++ " is below the QUIC minimum " ++ toString quicMinPacketSize

def joinWarning (existing added : String) : String :=
  if existing = "" then added else existing ++ "; " ++ added

inductive Mode where
  | clamp
  | fill
  | off
deriving DecidableEq

/-- `Policy`: a mode, and the tags that are never touched. -/
structure Policy where
  mode : Mode
  except : List String
deriving DecidableEq

/-- The policy of mode `clamp` without exceptions. -/
def clampAll : Policy := ⟨.clamp, []⟩

def Policy.excepted (p : Policy) (tag : String) : Bool := p.except.contains tag

structure Decision where
  tag : String
  field : String
  configured : ℕ
  effective : ℕ
  explicit : Bool
  changed : Bool := false
  reason : String := ""
  warning : String := ""
deriving DecidableEq

/-- The warning about an explicit value that is kept in mode `fill`. -/
def fillWarning (tag field : String) (configured limit : ℕ) (reason : String) : String :=
  tag ++ " " ++ field ++ " " ++ toString configured ++ " does not fit (" ++ reason ++ "; limit " ++
    toString limit ++ ")"

/-- `Apply`: the decision about one field, of which `limit` is the largest value that fits. -/
def Policy.apply (p : Policy) (tag field : String) (configured : ℕ) (explicit : Bool) (limit : ℕ)
    (reason : String) : Decision :=
  let decision : Decision := { tag, field, configured, effective := configured, explicit }
  if p.mode = .off then decision
  else if p.excepted tag then { decision with reason := "kept (excepted)" }
  else if configured = 0 then { decision with effective := limit, changed := true, reason }
  else if configured ≤ limit then { decision with reason := "fits (" ++ reason ++ ")" }
  else if explicit ∧ p.mode = .fill then
    { decision with
      reason := "kept (explicit, fill)"
      warning := fillWarning tag field configured limit reason }
  else { decision with effective := limit, changed := true, reason }

/-! ### Facts about the tables -/

theorem tunnelOverhead_eq_some {type : NodeType} {server : Server} {padding overhead : ℕ}
    (h : tunnelOverhead type server padding = some overhead) :
    isTunnelType type = true ∧ tunnelDefaultMTU type ≠ 0 ∧ 0 < overhead := by
  cases type <;> simp_all [tunnelOverhead, isTunnelType, tunnelDefaultMTU, wgOverhead,
    masqueDatagramOverhead] <;> omega

/-- The three ranges of `quicClamp`. -/
theorem quicClamp_cases (limit : ℤ) : (limit < 1200 ∧ quicClamp limit = (1200, true)) ∨
      (1452 < limit ∧ quicClamp limit = (1452, false)) ∨
      (1200 ≤ limit ∧ limit ≤ 1452 ∧ quicClamp limit = (limit, false)) := by
  unfold quicClamp
  by_cases hm : limit < (quicMinPacketSize : ℕ)
  · exact .inl ⟨hm, if_pos hm⟩
  by_cases hmax : ((quicMaxPacketSize : ℕ) : ℤ) < limit
  · exact .inr (.inl ⟨hmax, (if_neg hm).trans (if_pos hmax)⟩)
  · exact .inr (.inr ⟨not_lt.mp hm, not_lt.mp hmax, (if_neg hm).trans (if_neg hmax)⟩)

theorem quicClamp_spec (limit : ℤ) :
    0 < (quicClamp limit).1 ∧ ((quicClamp limit).2 = false → (quicClamp limit).1 ≤ limit) := by
  rcases quicClamp_cases limit with ⟨-, h⟩ | ⟨hlt, h⟩ | ⟨hle, -, h⟩ <;> rw [h]
  · exact ⟨by decide, by simp⟩
  · exact ⟨by decide, fun _ => Int.le_of_lt hlt⟩
  · exact ⟨by dsimp only; omega, fun _ => Int.le_refl _⟩

/-- The two cases of `floorIPv6`. -/
theorem floorIPv6_cases (limit : ℤ) (carriesIPv6 : Bool) :
    (carriesIPv6 = true ∧ limit < 1280 ∧ floorIPv6 limit carriesIPv6 = (1280, true)) ∨
      (¬ (carriesIPv6 = true ∧ limit < 1280) ∧ floorIPv6 limit carriesIPv6 = (limit, false)) := by
  unfold floorIPv6
  by_cases h : carriesIPv6 = true ∧ limit < (ipv6MinimumMTU : ℕ)
  · exact .inl ⟨h.1, h.2, if_pos h⟩
  · exact .inr ⟨h, if_neg h⟩

theorem append_ne_empty_right {s t : String} (h : t ≠ "") : s ++ t ≠ "" := by
  simp [h]

theorem floorWarning_ne_empty (tag : String) (mtu : ℕ) (limit : ℤ) (reason : String) :
    floorWarning tag mtu limit reason ≠ "" :=
  append_ne_empty_right (by decide)

theorem quicWarning_ne_empty (tag : String) (size limit : ℤ) : quicWarning tag size limit ≠ "" := by
  simp [quicWarning]

theorem fillWarning_ne_empty (tag field : String) (configured limit : ℕ) (reason : String) :
    fillWarning tag field configured limit reason ≠ "" :=
  append_ne_empty_right (by decide)

theorem joinWarning_ne_empty {existing added : String} (h : added ≠ "") :
    joinWarning existing added ≠ "" := by
  simp only [joinWarning]
  split_ifs
  · exact h
  · exact append_ne_empty_right h

namespace Policy

variable {p : Policy} {tag field reason : String} {configured limit : ℕ} {explicit : Bool}

@[simp] theorem apply_tag : (p.apply tag field configured explicit limit reason).tag = tag := by
  simp only [apply]
  split_ifs <;> rfl

theorem apply_cases (hm : p.mode ≠ .off) {P : Decision → Prop} (excepted : p.excepted tag = true →
      P { tag, field, configured, effective := configured, explicit, reason := "kept (excepted)" })
    (filled : p.excepted tag = false → configured = 0 →
      P { tag, field, configured, effective := limit, explicit, changed := true, reason })
    (fits : p.excepted tag = false → configured ≠ 0 → configured ≤ limit →
      P { tag, field, configured, effective := configured, explicit,
          reason := "fits (" ++ reason ++ ")" })
    (kept : p.excepted tag = false → configured ≠ 0 → limit < configured → explicit = true →
      p.mode = .fill →
      P { tag, field, configured, effective := configured, explicit,
          reason := "kept (explicit, fill)"
          warning := fillWarning tag field configured limit reason })
    (lowered : p.excepted tag = false → configured ≠ 0 → limit < configured →
      ¬ (explicit = true ∧ p.mode = .fill) →
      P { tag, field, configured, effective := limit, explicit, changed := true, reason }) :
    P (p.apply tag field configured explicit limit reason) := by
  simp only [apply, if_neg hm]
  split_ifs with he h0 hfi hf
  · exact excepted he
  · exact filled (Bool.eq_false_iff.mpr he) h0
  · exact fits (Bool.eq_false_iff.mpr he) h0 hfi
  · exact kept (Bool.eq_false_iff.mpr he) h0 (Nat.lt_of_not_le hfi) hf.1 hf.2
  · exact lowered (Bool.eq_false_iff.mpr he) h0 (Nat.lt_of_not_le hfi) hf

end Policy

end SingBox.LxMTU
