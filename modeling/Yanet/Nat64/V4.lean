import Yanet.Nat64.Config

set_option autoImplicit false

-- nat64_handle_v4 (modules/nat64/dataplane/nat64dp.c): an IPv4 packet whose
-- destination has a mapping becomes an IPv6 packet in the same buffer. The mbuf
-- grows at the front by delta bytes, the L2 header moves to the new start, and
-- copy_ipv4_to_ipv6_hdr writes the IPv6 header (and for a fragment the Fragment
-- header) over bytes that still hold the IPv4 header it reads from: the IPv4
-- header stays at its old address. ICMP is translated by icmp_v4_to_v6, which
-- is a parameter. `none` is a packet the module drops.

namespace Yanet

open Mem

-- The options walk of nat64_handle_v4, one step per option from `options` to `optionsEnd`; false
-- drops the packet (a source route, whose ICMP error is not sent, or an option that runs past the end).
def nat64Ipv4Options (m : Memory) (optionsEnd : Nat) : Nat → Nat → Bool
  | 0, _ => true
  | fuel + 1, options =>
    if optionsEnd ≤ options then true
    else
      let optionType := m options
      if optionType = RTE_IPV4_HDR_OPT_EOL then true
      else if optionType = IPOPT_LSRR ∨ optionType = IPOPT_SSRR then false
      else if optionType = RTE_IPV4_HDR_OPT_NOP then nat64Ipv4Options m optionsEnd fuel (options + 1)
      else if optionsEnd ≤ options + 1 then false
      else
        let optionLen := m (options + 1)
        if optionLen < 2 ∨ optionsEnd < options + optionLen.toNat then false
        else nat64Ipv4Options m optionsEnd fuel (options + optionLen.toNat)

-- The options of a header longer than RTE_IPV4_MIN_IHL words; every option takes a byte at least, so
-- their length bounds the walk.
def nat64Ipv4OptionsOk (m : Memory) (ipv4Header : Nat) : Bool :=
  let ihl := m ipv4Header &&& RTE_IPV4_HDR_IHL_MASK
  if ihl > RTE_IPV4_MIN_IHL then
    let optionsLen := (ihl - RTE_IPV4_MIN_IHL) * RTE_IPV4_IHL_MULTIPLIER
    nat64Ipv4Options m (ipv4Header + 20 + optionsLen.toNat) optionsLen.toNat (ipv4Header + 20)
  else true

-- The fragment bits nat64_handle_v4 keeps in a uint8_t: the low byte of the MF flag and the offset.
def nat64Ipv4IsFragmented (fragData : UInt16) : UInt8 :=
  (fragData &&& (RTE_IPV4_HDR_MF_FLAG ||| RTE_IPV4_HDR_OFFSET_MASK)).toUInt8

-- The fragment check of nat64_handle_v4 and the growth of delta by the Fragment header.
def nat64Ipv4FragmentDelta (m : Memory) (ipv4Header : Nat) (fragData : UInt16) (isFragmented : UInt8)
    (delta : Int) : Option Int :=
  if isFragmented = 0 then some delta
  else
    let fragOffset := (fragData &&& RTE_IPV4_HDR_OFFSET_MASK) <<< 3
    let moreFragments := fragData &&& RTE_IPV4_HDR_MF_FLAG ≠ 0
    let totalLen := rte_be_to_cpu_16 (load16 m (ipv4Header + 2))
    let headerLen := (m ipv4Header &&& RTE_IPV4_HDR_IHL_MASK).toUInt16 * 4
    let fragSize := totalLen - headerLen
    if validateFragmentParams fragOffset fragSize totalLen moreFragments (m (ipv4Header + 9) = IPPROTO_ICMP)
        .FRAGMENT_TOTAL_LEN_CHECK then
      some ((delta + RTE_IPV6_FRAG_HDR_SIZE).bmod 65536)
    else none

-- The fragment branch of copy_ipv4_to_ipv6_hdr: the next header becomes Fragment and the Fragment
-- header is written at `fragHdr`.
def copyIpv4FragmentHdr (m : Memory) (ipv4Header newIpv6Header fragHdr : Nat) : Option Memory :=
  let fragOffset := rte_be_to_cpu_16 (load16 m (ipv4Header + 6))
  let moreFragments : UInt16 := if fragOffset &&& RTE_IPV4_HDR_MF_FLAG ≠ 0 then 1 else 0
  let offsetValue := (fragOffset &&& RTE_IPV4_HDR_OFFSET_MASK) <<< 3
  if offsetValue % 8 ≠ 0 then none
  else
    let m := store8 m (newIpv6Header + 6) IPPROTO_FRAGMENT
    let proto := m (ipv4Header + 9)
    let m := store8 m fragHdr (if proto = IPPROTO_ICMP then IPPROTO_ICMPV6 else proto)
    let m := store8 m (fragHdr + 1) 0
    let m := store16 m (fragHdr + 2) (rte_cpu_to_be_16 (RTE_IPV6_SET_FRAG_DATA (offsetValue >>> 3) moreFragments))
    some (store32 m (fragHdr + 4) (rte_cpu_to_be_32 (rte_be_to_cpu_16 (load16 m (ipv4Header + 4))).toUInt32))

-- SET_IPV4_MAPPED_IPV6 from an address in the packet: the prefix, then the four bytes at `ip4` as the
-- prefix's copy left them.
def setIpv4MappedIpv6 (m : Memory) (ip6 : Nat) (pfx : Vector UInt8 12) (ip4 : Nat) : Memory :=
  let m := storeVector m ip6 pfx
  storeVector m (ip6 + 12) (loadVector m ip4 4)

-- copy_ipv4_to_ipv6_hdr; `none` is its -1. Every field is read from the memory as the preceding writes
-- left it.
def copyIpv4ToIpv6Hdr (mbuf : Mbuf) (ipv4Header newIpv6Header l3Off : Nat) (pfx : Vector UInt8 12)
    (ip6 : Vector UInt8 16) (isFragmented : UInt8) (delta : Int) (swapAddr : Bool) : Option Memory :=
  let m := mbuf.mem
  let tos := (m (ipv4Header + 1)).toUInt32
  let m := store32 m newIpv6Header (rte_cpu_to_be_32 (((6 : UInt32) <<< 28) ||| (tos <<< RTE_IPV6_HDR_TC_SHIFT)))
  let payloadLen := UInt16.ofInt ((rte_be_to_cpu_16 (load16 m (ipv4Header + 2))).toNat - delta)
  let m := store16 m (newIpv6Header + 4) (rte_cpu_to_be_16 payloadLen)
  let m := store8 m (newIpv6Header + 7) (m (ipv4Header + 8))
  let m := store8 m (newIpv6Header + 6) (m (ipv4Header + 9))
  -- the destination is saved before the Fragment header may overwrite it; the source is not
  let dstAddr := loadVector m (ipv4Header + 16) 4
  let fragmented := if isFragmented = 0 then some m
    else copyIpv4FragmentHdr m ipv4Header newIpv6Header (mbuf.mtod (l3Off + 40))
  fragmented.map fun m =>
    if swapAddr then
      -- SET_IPV4_MAPPED_IPV6 from the saved destination
      let m := storeVector (storeVector m (newIpv6Header + 24) pfx) (newIpv6Header + 36) dstAddr
      storeVector m (newIpv6Header + 8) ip6
    else storeVector (setIpv4MappedIpv6 m (newIpv6Header + 8) pfx (ipv4Header + 12)) (newIpv6Header + 24) ip6

-- The protocol branches of nat64_handle_v4 on the translated packet.
def nat64Ipv4Transport (dpdk : Dpdk) (icmpV4ToV6 : Nat64ModuleConfig → Packet → Nat → Vector UInt8 12 → Vector UInt8 16 → Option Packet)
    (config : Nat64ModuleConfig) (packet : Packet) (newIpv6Header : Nat) (pfx : Vector UInt8 12)
    (ip6 : Vector UInt8 16) : Option Packet :=
  let mbuf := packet.mbuf
  let proto := mbuf.mem (newIpv6Header + 6)
  if proto = IPPROTO_ICMP then
    let mbuf := { mbuf with mem := store8 mbuf.mem (newIpv6Header + 6) IPPROTO_ICMPV6 }
    icmpV4ToV6 config { packet with mbuf } newIpv6Header pfx ip6
  else if proto = IPPROTO_UDP then
    some (packet.setL4Cksum 6 fun mbuf => dpdk.rteIpv6UdptcpCksumMbuf mbuf newIpv6Header packet.transportHeader.offset.toNat)
  else if proto = IPPROTO_TCP then
    some (packet.setL4Cksum 16 fun mbuf => dpdk.rteIpv6UdptcpCksumMbuf mbuf newIpv6Header packet.transportHeader.offset.toNat)
  else some packet

-- nat64_handle_v4 from the prepend on.
def nat64Ipv4Translate (dpdk : Dpdk) (icmpV4ToV6 : Nat64ModuleConfig → Packet → Nat → Vector UInt8 12 → Vector UInt8 16 → Option Packet)
    (config : Nat64ModuleConfig) (packet : Packet) (entry : Ip4to6) (isFragmented : UInt8) (delta : Int) :
    Option Packet :=
  if delta < 0 then none
  else
    match dpdk.rtePktmbufPrepend packet.mbuf delta.toNat with
    | none => none
    | some mbuf =>
      let nh := packet.networkHeader.offset.toNat
      let ipv4Header := packet.mbuf.mtod nh
      let mbuf := { mbuf with mem := copy mbuf.mem (mbuf.mtod 0) (mbuf.mtod delta.toNat) nh }
      let newIpv6Header := mbuf.mtod nh
      let pfx := config.prefixOf entry
      match copyIpv4ToIpv6Hdr mbuf ipv4Header newIpv6Header nh pfx entry.ip6 isFragmented delta false with
      | none => none
      | some mem =>
        let packet := { packet with
          mbuf := { mbuf with mem }
          dataLen := UInt16.ofNat mbuf.dataLen
          transportHeader := { packet.transportHeader with
            offset := packet.transportHeader.offset + UInt16.ofInt delta } }
        (nat64Ipv4Transport dpdk icmpV4ToV6 config packet newIpv6Header pfx entry.ip6).map fun packet =>
          packet.setEtherType 12 RTE_ETHER_TYPE_IPV6

def nat64HandleV4 (dpdk : Dpdk) (icmpV4ToV6 : Nat64ModuleConfig → Packet → Nat → Vector UInt8 12 → Vector UInt8 16 → Option Packet)
    (config : Nat64ModuleConfig) (packet : Packet) : Option Packet :=
  let mbuf := packet.mbuf
  let nh := packet.networkHeader.offset.toNat
  let ipv4Header := mbuf.mtod nh
  match findIp4to6 config (loadVector mbuf.mem (ipv4Header + 16) 4) with
  | none => if config.dropUnknownMapping then none else some packet
  | some entry =>
    if !nat64Ipv4OptionsOk mbuf.mem ipv4Header then none
    else
      -- int16_t delta = sizeof(struct rte_ipv6_hdr) - (transport offset - network offset)
      let delta : Int := (40 - ((packet.transportHeader.offset.toNat : Int) - nh)).bmod 65536
      let fragData := rte_be_to_cpu_16 (load16 mbuf.mem (ipv4Header + 6))
      let isFragmented := nat64Ipv4IsFragmented fragData
      match nat64Ipv4FragmentDelta mbuf.mem ipv4Header fragData isFragmented delta with
      | none => none
      | some delta => nat64Ipv4Translate dpdk icmpV4ToV6 config packet entry isFragmented delta

end Yanet
