import Yanet.Dataplane.Packet

set_option autoImplicit false

-- `parse_packet` (lib/dataplane/packet/packet.c). Each header parser returns the
-- next header type and offset, or `none` where the C routine returns -1. The
-- IPv6 extension walk is a `while` loop whose exit the code does not guarantee,
-- so it runs on fuel, and `parsePacket` answers `none` when the fuel runs out.

namespace Yanet

open Mem

def parseEtherHeader (p : Packet) (offset : UInt16) : Option (UInt16 × UInt16) :=
  if p.mbuf.pktLen < offset.toNat + 14 then none
  else some (p.mbuf.load16 (offset.toNat + 12), offset + 14)

def parseVlanHeader (p : Packet) (offset : UInt16) : Option (Packet × UInt16 × UInt16) :=
  if p.mbuf.pktLen < offset.toNat + 4 then none
  else
    some ({ p with vlan := rte_be_to_cpu_16 (p.mbuf.load16 offset.toNat) &&& 0x0fff },
      p.mbuf.load16 (offset.toNat + 2), offset + 4)

def parseIpv4Header (p : Packet) (offset : UInt16) : Option (Packet × UInt16 × UInt16) :=
  let base := offset.toNat
  let totalLength := rte_be_to_cpu_16 (p.mbuf.load16 (base + 2))
  let ihl := p.mbuf.byte base &&& 0x0F
  if p.mbuf.pktLen < base + 20 then none
  else if p.mbuf.pktLen < base + totalLength.toNat then none
  else if ihl < 0x05 then none
  else if totalLength.toNat < 4 * ihl.toNat then none
  else
    let raw := p.mbuf.load16 (base + 6)
    let p := if raw &&& 0xFF3F ≠ 0 then
        { p with flags := p.flags ||| 1, fragmentOffset := rte_be_to_cpu_16 (raw &&& 0xFF1F) }
      else p
    some (p, (p.mbuf.byte (base + 9)).toUInt16, offset + UInt16.ofNat (4 * ihl.toNat))

-- The state of the extension-header loop of parse_ipv6_header.
structure ExtWalk where
  offset : UInt16
  extType : UInt8
  flags : UInt16
  fragmentOffset : UInt16

inductive ExtStep where
  | next (walk : ExtWalk)
  | exit (walk : ExtWalk)
  | fail

-- One iteration of `while (*offset < max_offset)`; `exit` covers both the loop test and the `break`.
def extStep (m : Mbuf) (maxOffset : UInt16) (w : ExtWalk) : ExtStep :=
  let base := w.offset.toNat
  if w.offset < maxOffset then
    if w.extType = IPPROTO_HOPOPTS ∨ w.extType = IPPROTO_ROUTING ∨ w.extType = IPPROTO_DSTOPTS then
      if maxOffset.toNat < base + 8 then .fail
      else .next { w with
        extType := m.byte base
        offset := w.offset + UInt16.ofNat ((1 + (m.byte (base + 1)).toNat) * 8) }
    else if w.extType = IPPROTO_AH then
      if maxOffset.toNat < base + 8 then .fail
      else .next { w with
        extType := m.byte base
        offset := w.offset + UInt16.ofNat ((2 + (m.byte (base + 1)).toNat) * 4) }
    else if w.extType = IPPROTO_FRAGMENT then
      if maxOffset.toNat < base + 8 then .fail
      else
        let raw := m.load16 (base + 2)
        let w' := if raw &&& 0xF9FF ≠ 0 then
            { w with flags := w.flags ||| 1, fragmentOffset := rte_be_to_cpu_16 (raw &&& 0xF8FF) }
          else w
        .next { w' with extType := m.byte base, offset := w.offset + 8 }
    else .exit w
  else .exit w

-- The loop on fuel: `none` when the fuel runs out, `some none` where the C code returns -1.
def extLoop (m : Mbuf) (maxOffset : UInt16) : Nat → ExtWalk → Option (Option ExtWalk)
  | 0, _ => none
  | fuel + 1, w =>
    match extStep m maxOffset w with
    | .next w' => extLoop m maxOffset fuel w'
    | .exit w' => some (some w')
    | .fail => some none

def parseIpv6Header (fuel : Nat) (p : Packet) (offset : UInt16) : Option (Option (Packet × UInt16 × UInt16)) :=
  let base := offset.toNat
  let payloadLen := rte_be_to_cpu_16 (p.mbuf.load16 (base + 4))
  if p.mbuf.pktLen < base + 40 then some none
  else if p.mbuf.pktLen < base + 40 + payloadLen.toNat then some none
  else
    let start := offset + 40
    let maxOffset := start + payloadLen
    let walk : ExtWalk := ⟨start, p.mbuf.byte (base + 6), p.flags, p.fragmentOffset⟩
    (extLoop p.mbuf maxOffset fuel walk).map fun result =>
      result.bind fun w =>
        if maxOffset < w.offset then none
        else some ({ p with flags := w.flags, fragmentOffset := w.fragmentOffset }, w.extType.toUInt16, w.offset)

-- The transport checks at the end of parse_packet.
def parseTransport (p : Packet) (type offset : UInt16) : Int × Packet :=
  let p := { p with transportHeader := ⟨type, offset⟩ }
  if type = IPPROTO_TCP.toUInt16 then
    if p.mbuf.pktLen < offset.toNat + 20 then (-1, p) else (0, p)
  else if type = IPPROTO_UDP.toUInt16 then
    if p.mbuf.pktLen < offset.toNat + 8 then (-1, p) else (0, p)
  else (0, p)

def parseNetwork (fuel : Nat) (p : Packet) (type offset : UInt16) : Option (Int × Packet) :=
  let p := { p with networkHeader := ⟨type, offset⟩ }
  if type = rte_cpu_to_be_16 RTE_ETHER_TYPE_IPV4 then
    match parseIpv4Header p offset with
    | none => some (-1, p)
    | some (p, type, offset) => some (parseTransport p type offset)
  else if type = rte_cpu_to_be_16 RTE_ETHER_TYPE_IPV6 then
    (parseIpv6Header fuel p offset).map fun
      | none => (-1, p)
      | some (p, type, offset) => parseTransport p type offset
  else some (0, p)

-- The fields parse_packet resets before it reads a header.
def Packet.resetParse (p : Packet) : Packet :=
  { p with flags := 0, fragmentOffset := 0, dataLen := UInt16.ofNat p.mbuf.dataLen }

def parsePacket (fuel : Nat) (packet : Packet) : Option (Int × Packet) :=
  let p := packet.resetParse
  match parseEtherHeader p 0 with
  | none => some (-1, p)
  | some (type, offset) =>
    if type = rte_cpu_to_be_16 RTE_ETHER_TYPE_VLAN then
      match parseVlanHeader p offset with
      | none => some (-1, p)
      | some (p, type, offset) => parseNetwork fuel p type offset
    else parseNetwork fuel p type offset

theorem parse_ipv6_header_stuck (fuel : Nat) (p : Packet) (offset : UInt16)
    (fixed : p.mbuf.pktLen ≥ offset.toNat + 40)
    (payload : p.mbuf.pktLen ≥ offset.toNat + 40 + (rte_be_to_cpu_16 (p.mbuf.load16 (offset.toNat + 4))).toNat)
    (stuck : extLoop p.mbuf (offset + 40 + rte_be_to_cpu_16 (p.mbuf.load16 (offset.toNat + 4))) fuel
      ⟨offset + 40, p.mbuf.byte (offset.toNat + 6), p.flags, p.fragmentOffset⟩ = none) :
    parseIpv6Header fuel p offset = none := by
  unfold parseIpv6Header
  rw [if_neg (by omega), if_neg (by omega)]
  simp only [stuck, Option.map_none]

theorem parse_network_ipv6 (fuel : Nat) (p : Packet) (offset : UInt16) :
    parseNetwork fuel p (rte_cpu_to_be_16 RTE_ETHER_TYPE_IPV6) offset =
      (parseIpv6Header fuel { p with networkHeader := ⟨rte_cpu_to_be_16 RTE_ETHER_TYPE_IPV6, offset⟩ } offset).map fun
        | none => (-1, { p with networkHeader := ⟨rte_cpu_to_be_16 RTE_ETHER_TYPE_IPV6, offset⟩ })
        | some (p, type, offset) => parseTransport p type offset := by
  unfold parseNetwork
  rw [if_neg (by decide), if_pos rfl]

theorem parse_packet_untagged (fuel : Nat) (p : Packet) (type offset : UInt16)
    (ether : parseEtherHeader p.resetParse 0 = some (type, offset))
    (untagged : type ≠ rte_cpu_to_be_16 RTE_ETHER_TYPE_VLAN) :
    parsePacket fuel p = parseNetwork fuel p.resetParse type offset := by
  simp only [parsePacket, ether, if_neg untagged]

-- A 65535-byte frame: Ethernet, an IPv6 header whose payload reaches the end of the frame, and a
-- Hop-by-Hop header of 2048 bytes at every offset 54 + 2048 k.
def hopByHopRing : Memory := fun a =>
  if a = 12 then 0x86 else if a = 13 then 0xDD else if a = 18 then 0xFF else if a = 19 then 0xC9
  else if a % 2048 = 55 then 255 else 0

def hopByHopRingPacket : Packet where
  mbuf := ⟨hopByHopRing, 0, 65535, 65535⟩
  rxDeviceId := 0
  txDeviceId := 0
  moduleDeviceId := 0
  flags := 0
  vlan := 0
  fragmentOffset := 0
  dataLen := 0
  networkHeader := ⟨0, 0⟩
  transportHeader := ⟨0, 0⟩

-- The walk sits on one of the 32 Hop-by-Hop headers of the ring.
def RingWalk (w : ExtWalk) : Prop := w.offset.toNat % 2048 = 54 ∧ w.extType = IPPROTO_HOPOPTS

-- 32 jumps of 2048 bytes wrap the uint16 offset back to where it started, and every header of
-- the ring ends before max_offset = 65535, so the loop never leaves it.
theorem ring_step (m : Mbuf) (ring : m.mem = hopByHopRing) (origin : m.dataOff = 0) (w : ExtWalk)
    (walk : RingWalk w) : ∃ w', extStep m 65535 w = .next w' ∧ RingWalk w' := by
  obtain ⟨residue, hop⟩ := walk
  have bound := w.offset.toNat_lt
  have header : m.byte w.offset.toNat = 0 := by
    simp only [Mbuf.byte, Mbuf.mtod, ring, origin, hopByHopRing, Nat.zero_add]
    split_ifs <;> first | rfl | omega
  have length : m.byte (w.offset.toNat + 1) = 255 := by
    simp only [Mbuf.byte, Mbuf.mtod, ring, origin, hopByHopRing, Nat.zero_add]
    split_ifs <;> first | rfl | omega
  refine ⟨{ w with
    extType := m.byte w.offset.toNat
    offset := w.offset + UInt16.ofNat ((1 + (m.byte (w.offset.toNat + 1)).toNat) * 8) }, ?_, ?_, header⟩
  · have live : w.offset < 65535 := by
      rw [UInt16.lt_iff_toNat_lt]
      simp only [UInt16.reduceToNat]
      omega
    simp only [extStep, live, if_true, hop, true_or]
    rw [if_neg (by simp only [UInt16.reduceToNat]; omega)]
  · simp only [length, UInt16.toNat_add]
    simp only [UInt8.reduceToNat, Nat.reduceAdd, Nat.reduceMul, UInt16.toNat_ofNat', Nat.reducePow, Nat.reduceMod]
    omega

theorem ring_loop (m : Mbuf) (ring : m.mem = hopByHopRing) (origin : m.dataOff = 0) :
    ∀ (fuel : Nat) (w : ExtWalk), RingWalk w → extLoop m 65535 fuel w = none := by
  intro fuel
  induction fuel with
  | zero => intro w _; rfl
  | succ fuel ih =>
      intro w walk
      obtain ⟨w', step, walk'⟩ := ring_step m ring origin w walk
      simp only [extLoop, step]
      exact ih w' walk'

theorem parse_packet_never_returns (fuel : Nat) : parsePacket fuel hopByHopRingPacket = none := by
  have ether : parseEtherHeader hopByHopRingPacket.resetParse 0 =
      some (rte_cpu_to_be_16 RTE_ETHER_TYPE_IPV6, 14) := by decide
  rw [parse_packet_untagged fuel _ _ _ ether (by decide), parse_network_ipv6]
  rw [parse_ipv6_header_stuck fuel _ 14 (by decide) (by decide)]
  · rfl
  exact ring_loop hopByHopRingPacket.mbuf rfl rfl fuel ⟨54, 0, 0, 0⟩ ⟨rfl, rfl⟩

end Yanet
