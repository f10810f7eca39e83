import Yanet.Nat64.V4

set_option autoImplicit false

-- nat64_handle_v6 (modules/nat64/dataplane/nat64dp.c): an IPv6 packet whose
-- source has a mapping becomes an IPv4 packet. process_ipv6_extension_headers
-- walks the extension headers in the uint16_t and uint8_t variables of the C
-- code; the IPv4 header is then written just before the transport header, the
-- L2 header moves up to meet it and the mbuf is trimmed at the front. ICMPv6 is
-- translated by icmp_v6_to_v4, which is a parameter. `none` is a packet the
-- module drops.

namespace Yanet

open Mem

def MAX_IPV6_EXT_HEADERS : UInt8 := 8
def MAX_DSTOPTS_HEADERS : UInt8 := 2

def SEEN_HOPOPTS : UInt8 := 0x01
def SEEN_ROUTING : UInt8 := 0x02
def SEEN_FRAGMENT : UInt8 := 0x04
def SEEN_DSTOPTS : UInt8 := 0x08
def SEEN_AH : UInt8 := 0x10
def SEEN_ESP : UInt8 := 0x20

-- The variables of process_ipv6_extension_headers, its out-parameters included.
structure Ipv6ExtWalk where
  currentOffset : UInt16
  nextHeader : UInt8
  seenHeaders : UInt8
  dstoptsCount : UInt8
  countHeader : UInt8
  isFragmented : UInt8
  fragOffset : UInt16
  fragFlags : UInt16
  fragId : UInt32
  extHdrsLen : UInt16
deriving DecidableEq, Repr

inductive Ipv6ExtStep where
  | done
  | fail
  | next (walk : Ipv6ExtWalk)
deriving DecidableEq, Repr

def isIpv6ExtHeader (nextHeader : UInt8) : Bool :=
  nextHeader = IPPROTO_HOPOPTS ∨ nextHeader = IPPROTO_ROUTING ∨ nextHeader = IPPROTO_FRAGMENT ∨
    nextHeader = IPPROTO_DSTOPTS ∨ nextHeader = IPPROTO_AH ∨ nextHeader = IPPROTO_ESP

-- The bit of seen_headers a header type sets.
def seenBit (nextHeader : UInt8) : UInt8 :=
  if nextHeader = IPPROTO_HOPOPTS then SEEN_HOPOPTS
  else if nextHeader = IPPROTO_ROUTING then SEEN_ROUTING
  else if nextHeader = IPPROTO_FRAGMENT then SEEN_FRAGMENT
  else if nextHeader = IPPROTO_DSTOPTS then SEEN_DSTOPTS
  else if nextHeader = IPPROTO_AH then SEEN_AH
  else if nextHeader = IPPROTO_ESP then SEEN_ESP
  else 0

-- A Hop-by-Hop, Destination Options or Routing header at `ext`: its length, (extension_length + 1) * 8,
-- is kept in a uint8_t.
def skipIpv6ExtHeader (mbuf : Mbuf) (walk : Ipv6ExtWalk) (ext : Nat) : Ipv6ExtStep :=
  let hdrLen : UInt8 := (mbuf.mem (ext + 1) + 1) * 8
  if mbuf.dataLen < walk.currentOffset.toNat + hdrLen.toNat then .fail
  else .next { walk with
    nextHeader := mbuf.mem ext
    currentOffset := walk.currentOffset + hdrLen.toUInt16
    extHdrsLen := walk.extHdrsLen + hdrLen.toUInt16 }

-- A Fragment header at `ext`: the identification is kept as the 32-bit field reads in memory.
def readIpv6FragmentHeader (mbuf : Mbuf) (walk : Ipv6ExtWalk) (ext : Nat) : Ipv6ExtStep :=
  if mbuf.dataLen < walk.currentOffset.toNat + 8 then .fail
  else
    let nextHeader := mbuf.mem ext
    let fragData := rte_be_to_cpu_16 (load16 mbuf.mem (ext + 2))
    if nextHeader = IPPROTO_ICMPV6 then .fail
    else .next { walk with
      isFragmented := 1
      nextHeader
      fragOffset := RTE_IPV6_GET_FO fragData
      fragFlags := RTE_IPV6_GET_MF fragData
      fragId := load32 mbuf.mem (ext + 4)
      currentOffset := walk.currentOffset + 8
      extHdrsLen := walk.extHdrsLen + 8 }

-- The body of the loop of process_ipv6_extension_headers, for a walk still inside the mbuf.
def processIpv6ExtensionHeader (mbuf : Mbuf) (walk : Ipv6ExtWalk) : Ipv6ExtStep :=
  let nextHeader := walk.nextHeader
  if !isIpv6ExtHeader nextHeader then .done
  else
    let countHeader := walk.countHeader + 1
    let seen := walk.seenHeaders
    if countHeader ≥ MAX_IPV6_EXT_HEADERS then .fail
    else if countHeader > 1 ∧ nextHeader = IPPROTO_HOPOPTS then .fail
    else if nextHeader = IPPROTO_HOPOPTS ∧ seen &&& SEEN_HOPOPTS ≠ 0 then .fail
    else if nextHeader = IPPROTO_ROUTING ∧ seen &&& SEEN_ROUTING ≠ 0 then .fail
    else if nextHeader = IPPROTO_FRAGMENT ∧ seen &&& SEEN_FRAGMENT ≠ 0 then .fail
    else if nextHeader = IPPROTO_DSTOPTS ∧ walk.dstoptsCount ≥ MAX_DSTOPTS_HEADERS then .fail
    else if nextHeader = IPPROTO_AH ∧ seen &&& SEEN_AH ≠ 0 then .fail
    else if nextHeader = IPPROTO_ESP ∧ seen &&& SEEN_ESP ≠ 0 then .fail
    else
      let walk := { walk with
        countHeader
        seenHeaders := seen ||| seenBit nextHeader
        dstoptsCount := if nextHeader = IPPROTO_DSTOPTS then walk.dstoptsCount + 1 else walk.dstoptsCount }
      let ext := mbuf.mtod walk.currentOffset.toNat
      if nextHeader = IPPROTO_HOPOPTS ∨ nextHeader = IPPROTO_DSTOPTS then skipIpv6ExtHeader mbuf walk ext
      else if nextHeader = IPPROTO_ROUTING then
        -- a type 0 Routing header is dropped
        if mbuf.mem (ext + 2) = 0 then .fail else skipIpv6ExtHeader mbuf walk ext
      else if nextHeader = IPPROTO_FRAGMENT then readIpv6FragmentHeader mbuf walk ext
      -- AH and ESP are not translated
      else .fail

-- The loop of process_ipv6_extension_headers. Every pass raises count_header, and the pass that
-- raises it to MAX_IPV6_EXT_HEADERS fails, so MAX_IPV6_EXT_HEADERS passes of fuel never run out.
def processIpv6ExtensionHeadersLoop (mbuf : Mbuf) : Nat → Ipv6ExtWalk → Option Ipv6ExtWalk
  | 0, _ => none
  | fuel + 1, walk =>
    if walk.currentOffset.toNat < mbuf.dataLen then
      match processIpv6ExtensionHeader mbuf walk with
      | .done => some walk
      | .fail => none
      | .next walk => processIpv6ExtensionHeadersLoop mbuf fuel walk
    else some walk

section Loop

variable {mbuf : Mbuf} {fuel : Nat} {walk : Ipv6ExtWalk}

theorem processIpv6ExtensionHeadersLoop_next {walk' : Ipv6ExtWalk} (inside : walk.currentOffset.toNat < mbuf.dataLen)
    (step : processIpv6ExtensionHeader mbuf walk = .next walk') :
    processIpv6ExtensionHeadersLoop mbuf (fuel + 1) walk = processIpv6ExtensionHeadersLoop mbuf fuel walk' := by
  simp only [processIpv6ExtensionHeadersLoop, inside, if_true, step]

theorem processIpv6ExtensionHeadersLoop_done (inside : walk.currentOffset.toNat < mbuf.dataLen)
    (step : processIpv6ExtensionHeader mbuf walk = .done) :
    processIpv6ExtensionHeadersLoop mbuf (fuel + 1) walk = some walk := by
  simp only [processIpv6ExtensionHeadersLoop, inside, if_true, step]

end Loop

-- The walk's start: just after the fixed header, at the header's next header.
def Ipv6ExtWalk.start (nh : UInt16) (nextHeader : UInt8) : Ipv6ExtWalk :=
  ⟨nh + 40, nextHeader, 0, 0, 0, 0, 0, 0, 0, 0⟩

-- process_ipv6_extension_headers; the transport offset it sets is nh + 40 + ext_hdrs_len, which
-- nat64_handle_v6 sets again.
def processIpv6ExtensionHeaders (packet : Packet) : Option Ipv6ExtWalk :=
  let mbuf := packet.mbuf
  let nh := packet.networkHeader.offset
  let start := Ipv6ExtWalk.start nh (mbuf.byte (nh.toNat + 6))
  match processIpv6ExtensionHeadersLoop mbuf MAX_IPV6_EXT_HEADERS.toNat start with
  | none => none
  | some walk => if mbuf.dataLen ≤ walk.currentOffset.toNat then none else some walk

-- The fragment check of nat64_handle_v6, against no total length.
def nat64Ipv6FragmentValid (m : Memory) (ipv6Header : Nat) (walk : Ipv6ExtWalk) : Bool :=
  let totalLen := rte_be_to_cpu_16 (load16 m (ipv6Header + 4))
  let fragSize := totalLen - walk.extHdrsLen
  let fragOffsetBytes := walk.fragOffset * 8
  validateFragmentParams fragOffsetBytes fragSize totalLen (walk.fragFlags ≠ 0) (walk.nextHeader = IPPROTO_ICMPV6)
    .FRAGMENT_TOTAL_LEN_SKIP

-- The IPv4 header nat64_handle_v6 writes at `newIpv4Header` from the IPv6 header at `ipv6Header`.
def nat64Ipv6Header (m : Memory) (ipv6Header newIpv4Header : Nat) (newSrcAddr : Ip4to6) (walk : Ipv6ExtWalk) :
    Memory :=
  let translatedPayloadLength := rte_be_to_cpu_16 (load16 m (ipv6Header + 4)) - walk.extHdrsLen
  let dstAddr := loadVector m (ipv6Header + 36) 4
  let m := store8 m newIpv4Header RTE_IPV4_VHL_DEF
  let m := store8 m (newIpv4Header + 1) ((rte_be_to_cpu_32 (load32 m ipv6Header) >>> 20) &&& 0xff).toUInt8
  let m := store16 m (newIpv4Header + 2) (rte_cpu_to_be_16 (translatedPayloadLength + 20))
  let m := if walk.isFragmented ≠ 0 then
      -- packet_id = frag_id: the uint32_t as it reads in memory, cut to 16 bits
      let m := store16 m (newIpv4Header + 4) walk.fragId.toUInt16
      store16 m (newIpv4Header + 6)
        (rte_cpu_to_be_16 (walk.fragOffset ||| if walk.fragFlags ≠ 0 then RTE_IPV4_HDR_MF_FLAG else 0))
    else store16 (store16 m (newIpv4Header + 4) 0) (newIpv4Header + 6) 0
  let m := store8 m (newIpv4Header + 8) (m (ipv6Header + 7))
  let m := store8 m (newIpv4Header + 9) walk.nextHeader
  let m := store16 m (newIpv4Header + 10) 0
  let m := store32 m (newIpv4Header + 12) newSrcAddr.ip4
  storeVector m (newIpv4Header + 16) dstAddr

-- The protocol branches of nat64_handle_v6; a fragment past the first has no transport header.
def nat64Ipv6Transport (dpdk : Dpdk) (icmpV6ToV4 : Nat64ModuleConfig → Packet → Nat → Nat → Option Packet)
    (config : Nat64ModuleConfig) (packet : Packet) (newIpv4Header : Nat) (walk : Ipv6ExtWalk) : Option Packet :=
  let hasTransportHeader := walk.isFragmented = 0 ∨ walk.fragOffset = 0
  if hasTransportHeader ∧ walk.nextHeader = IPPROTO_ICMPV6 then
    let mbuf := { packet.mbuf with mem := store8 packet.mbuf.mem (newIpv4Header + 9) IPPROTO_ICMP }
    icmpV6ToV4 config { packet with mbuf } newIpv4Header (newIpv4Header + 12)
  else if hasTransportHeader ∧ walk.nextHeader = IPPROTO_UDP then
    some (packet.setL4Cksum 6 fun mbuf => dpdk.rteIpv4UdptcpCksumMbuf mbuf newIpv4Header packet.transportHeader.offset.toNat)
  else if hasTransportHeader ∧ walk.nextHeader = IPPROTO_TCP then
    some (packet.setL4Cksum 16 fun mbuf => dpdk.rteIpv4UdptcpCksumMbuf mbuf newIpv4Header packet.transportHeader.offset.toNat)
  else some packet

-- The end of nat64_handle_v6: the L2 header moves up to meet the IPv4 header at `newIpv4Header`, whose
-- checksum is then set, and the mbuf is trimmed by delta at the front.
def nat64Ipv6Shrink (dpdk : Dpdk) (packet : Packet) (delta : UInt16) (newIpv4Header : Nat) : Option Packet :=
  let mbuf := packet.mbuf
  let nh := packet.networkHeader.offset
  let mem := copy mbuf.mem (mbuf.mtod delta.toNat) (mbuf.mtod 0) nh.toNat
  let mem := store16 mem (newIpv4Header + 10) (dpdk.rteIpv4Cksum mem newIpv4Header)
  match dpdk.rtePktmbufAdj { mbuf with mem } delta.toNat with
  | none => none
  | some mbuf =>
    let packet := { packet with
      mbuf
      dataLen := UInt16.ofNat mbuf.dataLen
      transportHeader := { packet.transportHeader with offset := nh + 20 } }
    some (packet.setEtherType (nh.toNat - 2) RTE_ETHER_TYPE_IPV4)

-- nat64_handle_v6 after the extension headers.
def nat64Ipv6Translate (dpdk : Dpdk) (icmpV6ToV4 : Nat64ModuleConfig → Packet → Nat → Nat → Option Packet)
    (config : Nat64ModuleConfig) (packet : Packet) (newSrcAddr : Ip4to6) (walk : Ipv6ExtWalk) : Option Packet :=
  let mbuf := packet.mbuf
  let nh := packet.networkHeader.offset
  let th := nh + 40 + walk.extHdrsLen
  let delta : UInt16 := th - nh - 20
  let ipv6Header := mbuf.mtod nh.toNat
  let newIpv4Header := mbuf.mtod (nh.toNat + delta.toNat)
  let mem := nat64Ipv6Header mbuf.mem ipv6Header newIpv4Header newSrcAddr walk
  let packet := { packet with mbuf := { mbuf with mem }, transportHeader := { packet.transportHeader with offset := th } }
  match nat64Ipv6Transport dpdk icmpV6ToV4 config packet newIpv4Header walk with
  | none => none
  | some packet => nat64Ipv6Shrink dpdk packet delta newIpv4Header

def nat64HandleV6 (dpdk : Dpdk) (icmpV6ToV4 : Nat64ModuleConfig → Packet → Nat → Nat → Option Packet)
    (config : Nat64ModuleConfig) (packet : Packet) : Option Packet :=
  let mbuf := packet.mbuf
  let ipv6Header := mbuf.mtod packet.networkHeader.offset.toNat
  match findIp6to4 config (loadVector mbuf.mem (ipv6Header + 8) 16) with
  | none =>
    if config.dropUnknownPrefix ∧ config.v6Prefixes (loadVector mbuf.mem (ipv6Header + 8) 12) = LPM_VALUE_INVALID then
      none
    else if config.dropUnknownMapping then none
    else some packet
  | some newSrcAddr =>
    match processIpv6ExtensionHeaders packet with
    | none => none
    | some walk =>
      if walk.isFragmented ≠ 0 ∧ !nat64Ipv6FragmentValid mbuf.mem ipv6Header walk then none
      else nat64Ipv6Translate dpdk icmpV6ToV4 config packet newSrcAddr walk

-- nat64_handle_packets over the input list: the packets output and those dropped. A packet that is
-- neither IPv4 nor IPv6 is dropped.
def nat64HandlePackets (dpdk : Dpdk) (icmpV4ToV6 : Nat64ModuleConfig → Packet → Nat → Vector UInt8 12 → Vector UInt8 16 → Option Packet)
    (icmpV6ToV4 : Nat64ModuleConfig → Packet → Nat → Nat → Option Packet) (config : Nat64ModuleConfig) :
    List Packet → List Packet × List Packet
  | [] => ([], [])
  | packet :: packets =>
    let result :=
      if packet.networkHeader.type = rte_cpu_to_be_16 RTE_ETHER_TYPE_IPV4 then nat64HandleV4 dpdk icmpV4ToV6 config packet
      else if packet.networkHeader.type = rte_cpu_to_be_16 RTE_ETHER_TYPE_IPV6 then
        nat64HandleV6 dpdk icmpV6ToV4 config packet
      else none
    let (output, drop) := nat64HandlePackets dpdk icmpV4ToV6 icmpV6ToV4 config packets
    match result with
    | some packet => (packet :: output, drop)
    | none => (output, packet :: drop)

end Yanet
