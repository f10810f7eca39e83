import Mathlib
import Yanet.Nat64.V6
import Yanet.Nat64.V4Spec

set_option autoImplicit false

-- What nat64_handle_v6 makes of an IPv6 packet whose extension headers its walk
-- accepts, against the translation RFC 7915 gives (`ipv4HdrOfIpv6`): past the
-- walk, the IPv4 header is RFC 7915's but for the identification, every payload
-- byte but the transport checksum is kept and the mbuf is trimmed by the
-- difference. For a packet whose only extension header is a Fragment header the
-- walk is computed, and the identification is the high-order half of the
-- Fragment header's.

namespace Yanet

open Mem

def Packet.ipv6FragmentExt (p : Packet) : Ipv6FragmentExt := Ipv6FragmentExt.load p.mbuf.mem (p.networkHeaderAddr + 40)

-- A mapped IPv6 packet whose only extension header is a valid Fragment header followed by an
-- upper-layer protocol other than ICMPv6, inside the mbuf and within 16-bit offsets.
structure V6Fragment (config : Nat64ModuleConfig) (p : Packet) (entry : Ip4to6) : Prop where
  mapped : findIp6to4 config p.ipv6Hdr.srcAddr = some entry
  fragment : p.ipv6Hdr.proto = IPPROTO_FRAGMENT
  upper : isIpv6ExtHeader p.ipv6FragmentExt.nextHeader = false
  notIcmp : p.ipv6FragmentExt.nextHeader ≠ IPPROTO_ICMPV6
  valid : validateFragmentParams (RTE_IPV6_GET_FO (rte_be_to_cpu_16 p.ipv6FragmentExt.fragData) * 8)
    (rte_be_to_cpu_16 p.ipv6Hdr.payloadLen - 8) (rte_be_to_cpu_16 p.ipv6Hdr.payloadLen)
    (RTE_IPV6_GET_MF (rte_be_to_cpu_16 p.ipv6FragmentExt.fragData) ≠ 0) false .FRAGMENT_TOTAL_LEN_SKIP = true
  l2 : 2 ≤ p.networkHeader.offset.toNat
  inside : p.networkHeader.offset.toNat + 48 < p.mbuf.dataLen
  fits : p.networkHeader.offset.toNat + 48 < 65536

-- The walk process_ipv6_extension_headers ends with on such a packet.
def fragmentWalk (p : Packet) : Ipv6ExtWalk where
  currentOffset := p.networkHeader.offset + 48
  nextHeader := p.ipv6FragmentExt.nextHeader
  seenHeaders := SEEN_FRAGMENT
  dstoptsCount := 0
  countHeader := 1
  isFragmented := 1
  fragOffset := RTE_IPV6_GET_FO (rte_be_to_cpu_16 p.ipv6FragmentExt.fragData)
  fragFlags := RTE_IPV6_GET_MF (rte_be_to_cpu_16 p.ipv6FragmentExt.fragData)
  fragId := p.ipv6FragmentExt.id
  extHdrsLen := 8

-- The IPv4 header RFC 7915 gives the IPv6 header `h` from the source `src` (in network byte order),
-- when its extension headers are summed up by `walk`: their length, the upper-layer protocol and the
-- Fragment header's fields. The identification is the low-order 16 bits of the Fragment header's; the
-- checksum is left 0.
def ipv4HdrOfIpv6 (h : Ipv6Hdr) (src : UInt32) (walk : Ipv6ExtWalk) : Ipv4Hdr where
  versionIhl := RTE_IPV4_VHL_DEF
  typeOfService := ((rte_be_to_cpu_32 h.vtcFlow >>> 20) &&& 0xff).toUInt8
  totalLength := rte_cpu_to_be_16 (rte_be_to_cpu_16 h.payloadLen - walk.extHdrsLen + 20)
  packetId := if walk.isFragmented ≠ 0 then rte_cpu_to_be_16 (rte_be_to_cpu_32 walk.fragId).toUInt16 else 0
  fragmentOffset :=
    if walk.isFragmented ≠ 0 then
      rte_cpu_to_be_16 (walk.fragOffset ||| if walk.fragFlags ≠ 0 then RTE_IPV4_HDR_MF_FLAG else 0)
    else 0
  timeToLive := h.hopLimits
  nextProtoId := walk.nextHeader
  hdrChecksum := 0
  srcAddr := ⟨(le32 src).toArray, by simp⟩
  dstAddr := Vector.ofFn fun i => h.dstAddr.get ⟨12 + i, by omega⟩

-- The header nat64_handle_v6 writes is RFC 7915's but for the identification, which is the Fragment
-- header's 32-bit field as it lies in memory, cut to 16 bits.
theorem nat64Ipv6Header_load (m : Memory) {ipv6Header newIpv4Header : Nat} (newSrcAddr : Ip4to6)
    (walk : Ipv6ExtWalk) (after : ipv6Header + 8 ≤ newIpv4Header) :
    Ipv4Hdr.load (nat64Ipv6Header m ipv6Header newIpv4Header newSrcAddr walk) newIpv4Header =
      { ipv4HdrOfIpv6 (Ipv6Hdr.load m ipv6Header) newSrcAddr.ip4 walk with
        packetId := if walk.isFragmented ≠ 0 then walk.fragId.toUInt16 else 0 } := by
  have tos : load32 (store8 m newIpv4Header RTE_IPV4_VHL_DEF) ipv6Header = load32 m ipv6Header := by
    simp (disch := omega) only [load32, store8_other]
  have dst : (Vector.ofFn fun i : Fin 4 => (loadVector m (ipv6Header + 24) 16).get ⟨12 + i, by omega⟩) =
      loadVector m (ipv6Header + 36) 4 := by
    apply Vector.ext
    intro i hi
    simp only [loadVector, Vector.getElem_ofFn, Vector.get, Fin.cast, Vector.getElem_toArray]
    congr 1
    omega
  -- a fragment's identification and offset, or zeros; every other write is the same
  by_cases fragmented : walk.isFragmented = 0
  all_goals
    simp only [nat64Ipv6Header, ipv4HdrOfIpv6, Ipv4Hdr.load, Ipv6Hdr.load, tos, dst, fragmented, ne_eq,
      not_true, not_false_eq_true, if_true, if_false, Ipv4Hdr.mk.injEq]
    refine ⟨byte_of_bytes ?_, byte_of_bytes ?_, load16_of_bytes ?_, load16_of_bytes ?_, load16_of_bytes ?_,
      byte_of_bytes ?_, byte_of_bytes ?_, load16_of_bytes ?_, loadVector_of_bytes ?_, loadVector_of_bytes ?_⟩ <;>
    simp (disch := omega) only [bytes_store16_of_disjoint, bytes_store8_of_disjoint, bytes_storeVector_of_disjoint,
      bytes_store32_of_disjoint, bytes_store32_self, bytes_store16_self, bytes_store8_self, bytes_storeVector_self,
      store8_other, store16_apply_of_disjoint]
  all_goals rfl

theorem nat64Ipv6Header_apply_of_disjoint (m : Memory) {ipv6Header newIpv4Header a : Nat} (newSrcAddr : Ip4to6)
    (walk : Ipv6ExtWalk) (outside : a < newIpv4Header ∨ newIpv4Header + 20 ≤ a) :
    nat64Ipv6Header m ipv6Header newIpv4Header newSrcAddr walk a = m a := by
  by_cases fragmented : walk.isFragmented = 0 <;>
  simp (disch := omega) only [nat64Ipv6Header, fragmented, ne_eq, not_true, not_false_eq_true, if_true, if_false,
    store8_other, store16_apply_of_disjoint, store32_apply_of_disjoint, storeVector_apply_of_disjoint]

-- What the protocol branches and the end of nat64_handle_v6 need of a packet and its walk: the
-- upper-layer protocol is not ICMPv6 (whose translation is a parameter), the L2 header has its ether type,
-- the headers lie in the mbuf and their offsets in 16 bits.
structure V6Walk (p : Packet) (walk : Ipv6ExtWalk) : Prop where
  notIcmp : walk.nextHeader ≠ IPPROTO_ICMPV6
  l2 : 2 ≤ p.networkHeader.offset.toNat
  inside : p.networkHeader.offset.toNat + 40 + walk.extHdrsLen.toNat ≤ p.mbuf.dataLen
  fits : p.networkHeader.offset.toNat + 40 + walk.extHdrsLen.toNat < 65536

-- The packet nat64_handle_v6 hands its protocol branches: the IPv4 header written `20 + extLen` bytes
-- after the IPv6 header, the transport header after the extension headers.
def v6HeaderPacket (p : Packet) (newSrcAddr : Ip4to6) (walk : Ipv6ExtWalk) : Packet :=
  let nh := p.networkHeader.offset
  { p with
    mbuf := { p.mbuf with
      mem := nat64Ipv6Header p.mbuf.mem (p.mbuf.mtod nh.toNat) (p.mbuf.mtod (nh.toNat + (20 + walk.extHdrsLen.toNat)))
        newSrcAddr walk }
    transportHeader := { p.transportHeader with offset := nh + 40 + walk.extHdrsLen } }

-- `q` is `p` translated with the IPv4 header `hdr` (its checksum apart): the header stands just
-- before the bytes that followed `extLen` bytes of extension headers, the L2 header has moved up to it and
-- every byte from there on is `p`'s but for the transport checksum.
structure V6Translated (p q : Packet) (hdr : Ipv4Hdr) (extLen : Nat) (proto : UInt8) : Prop where
  networkHeader : q.networkHeader = ⟨rte_cpu_to_be_16 RTE_ETHER_TYPE_IPV4, p.networkHeader.offset⟩
  transportHeader : q.transportHeader.offset = p.networkHeader.offset + 20
  dataOff : q.mbuf.dataOff = p.mbuf.dataOff + 20 + extLen
  dataLen : q.mbuf.dataLen + 20 + extLen = p.mbuf.dataLen
  header : { q.ipv4Hdr with hdrChecksum := 0 } = hdr
  l2 : bytes q.mbuf.mem (q.mbuf.mtod 0) (p.networkHeader.offset.toNat - 2) =
    bytes p.mbuf.mem (p.mbuf.mtod 0) (p.networkHeader.offset.toNat - 2)
  etherType : load16 q.mbuf.mem (q.mbuf.mtod (p.networkHeader.offset.toNat - 2)) = rte_cpu_to_be_16 RTE_ETHER_TYPE_IPV4
  payload : ∀ a, p.networkHeaderAddr + 40 + extLen ≤ a → OutsideL4Cksum proto (p.networkHeaderAddr + 40 + extLen) a →
    q.mbuf.mem a = p.mbuf.mem a

section Walk

variable {p : Packet} {newSrcAddr : Ip4to6} {walk : Ipv6ExtWalk}

@[simp] theorem v6HeaderPacket_dataOff : (v6HeaderPacket p newSrcAddr walk).mbuf.dataOff = p.mbuf.dataOff := rfl

@[simp] theorem v6HeaderPacket_dataLen : (v6HeaderPacket p newSrcAddr walk).mbuf.dataLen = p.mbuf.dataLen := rfl

@[simp] theorem v6HeaderPacket_networkHeader : (v6HeaderPacket p newSrcAddr walk).networkHeader = p.networkHeader := rfl

theorem v6HeaderPacket_mem :
    (v6HeaderPacket p newSrcAddr walk).mbuf.mem =
      nat64Ipv6Header p.mbuf.mem p.networkHeaderAddr (p.networkHeaderAddr + (20 + walk.extHdrsLen.toNat)) newSrcAddr walk := by
  simp only [v6HeaderPacket, Packet.networkHeaderAddr, Mbuf.mtod, Nat.add_assoc]

-- delta = transport offset - network offset - 20, which no offset within 16 bits wraps.
theorem v6Delta_toNat (w : V6Walk p walk) :
    (p.networkHeader.offset + 40 + walk.extHdrsLen - p.networkHeader.offset - 20).toNat = 20 + walk.extHdrsLen.toNat := by
  have fits := w.fits
  have delta : p.networkHeader.offset + 40 + walk.extHdrsLen - p.networkHeader.offset - 20 = 20 + walk.extHdrsLen := by
    grind
  rw [delta, UInt16.toNat_add]
  simp only [show (20 : UInt16).toNat = 20 from rfl]
  omega

theorem nat64Ipv6Shrink_translated {dpdk : Dpdk} (documented : dpdk.Documented) (w : V6Walk p walk) (mem : Memory)
    (unchanged : ∀ a, OutsideL4Cksum walk.nextHeader (p.networkHeaderAddr + 40 + walk.extHdrsLen.toNat) a →
      mem a = (v6HeaderPacket p newSrcAddr walk).mbuf.mem a) :
    ∃ q, nat64Ipv6Shrink dpdk { v6HeaderPacket p newSrcAddr walk with
          mbuf := { (v6HeaderPacket p newSrcAddr walk).mbuf with mem } }
        (p.networkHeader.offset + 40 + walk.extHdrsLen - p.networkHeader.offset - 20)
        (p.mbuf.mtod (p.networkHeader.offset.toNat +
          (p.networkHeader.offset + 40 + walk.extHdrsLen - p.networkHeader.offset - 20).toNat)) = some q ∧
      V6Translated p q { ipv4HdrOfIpv6 p.ipv6Hdr newSrcAddr.ip4 walk with
        packetId := if walk.isFragmented ≠ 0 then walk.fragId.toUInt16 else 0 } walk.extHdrsLen.toNat walk.nextHeader := by
  have inside := w.inside
  have l2 := w.l2
  rw [v6Delta_toNat w]
  simp only [nat64Ipv6Shrink, v6Delta_toNat w, Mbuf.mtod]
  rw [documented.adj _ _ (by simp only [v6HeaderPacket]; omega)]
  refine ⟨_, rfl, ?_⟩
  simp only [v6HeaderPacket_dataOff, v6HeaderPacket_dataLen, v6HeaderPacket_networkHeader, Nat.add_zero]
  simp only [v6HeaderPacket_mem, Packet.networkHeaderAddr, Mbuf.mtod, Nat.add_assoc] at unchanged
  -- the copy of the L2 header ends where the IPv4 header starts
  set copied := copy mem (p.mbuf.dataOff + (20 + walk.extHdrsLen.toNat)) p.mbuf.dataOff p.networkHeader.offset.toNat
  have above (a : Nat) (ge : p.mbuf.dataOff + (p.networkHeader.offset.toNat + (20 + walk.extHdrsLen.toNat)) ≤ a) :
      copied a = mem a :=
    copy_apply_of_disjoint (by omega)
  have moved (i : Nat) (lt : i < p.networkHeader.offset.toNat) :
      copied (p.mbuf.dataOff + (20 + walk.extHdrsLen.toNat) + i) = mem (p.mbuf.dataOff + i) :=
    copy_apply_add lt
  have header (a : Nat) (lt : a < p.mbuf.dataOff + (p.networkHeader.offset.toNat + (40 + walk.extHdrsLen.toNat))) :
      mem a = nat64Ipv6Header p.mbuf.mem (p.mbuf.dataOff + p.networkHeader.offset.toNat)
        (p.mbuf.dataOff + (p.networkHeader.offset.toNat + (20 + walk.extHdrsLen.toNat))) newSrcAddr walk a :=
    unchanged a fun _ _ => Or.inl (by omega)
  constructor
  case networkHeader => rfl
  case transportHeader => rfl
  case dataOff => simp only [Packet.setEtherType]; omega
  case dataLen => simp only [Packet.setEtherType]; omega
  case header =>
    simp only [Packet.setEtherType, Packet.ipv4Hdr, Packet.networkHeaderAddr, Mbuf.mtod]
    rw [show p.mbuf.dataOff + (20 + walk.extHdrsLen.toNat) + p.networkHeader.offset.toNat =
      p.mbuf.dataOff + (p.networkHeader.offset.toNat + (20 + walk.extHdrsLen.toNat)) by omega]
    -- the ether type lies below the header, the checksum is its own field, and the rest is as written
    rw [Ipv4Hdr.load_congr fun i hi => store16_apply_of_disjoint (by omega), Ipv4Hdr.load_store16_cksum,
      Ipv4Hdr.load_congr fun i hi => (above _ (by omega)).trans (header _ (by omega)), nat64Ipv6Header_load _ _ _ (by omega)]
    rfl
  case l2 =>
    simp only [Packet.setEtherType, Mbuf.mtod, Nat.add_zero]
    apply bytes_shift
    intro i hi
    rw [store16_apply_of_disjoint (by omega), store16_apply_of_disjoint (by omega), moved i (by omega),
      header _ (by omega), nat64Ipv6Header_apply_of_disjoint _ _ _ (by omega)]
  case etherType => exact load16_of_bytes (bytes_store16_self _)
  case payload =>
    intro a after outside
    simp only [Packet.networkHeaderAddr, Mbuf.mtod, Nat.add_assoc] at after outside
    simp only [Packet.setEtherType, Mbuf.mtod]
    rw [store16_apply_of_disjoint (by omega), store16_apply_of_disjoint (by omega), above _ (by omega),
      unchanged a outside, nat64Ipv6Header_apply_of_disjoint _ _ _ (by omega)]

theorem v6HeaderPacket_cksumAt (newSrcAddr : Ip4to6) (w : V6Walk p walk) (field : Nat) :
    (v6HeaderPacket p newSrcAddr walk).mbuf.mtod
        ((v6HeaderPacket p newSrcAddr walk).transportHeader.offset.toNat + field) =
      p.networkHeaderAddr + 40 + walk.extHdrsLen.toNat + field := by
  have fits := w.fits
  simp only [v6HeaderPacket, Mbuf.mtod, Packet.networkHeaderAddr, UInt16.toNat_add, show (40 : UInt16).toNat = 40 from rfl]
  omega

theorem nat64Ipv6Translate_eq (dpdk : Dpdk) (icmpV6ToV4 : Nat64ModuleConfig → Packet → Nat → Nat → Option Packet)
    (config : Nat64ModuleConfig) (w : V6Walk p walk) :
    nat64Ipv6Translate dpdk icmpV6ToV4 config p newSrcAddr walk =
      (nat64Ipv6Transport dpdk icmpV6ToV4 config (v6HeaderPacket p newSrcAddr walk)
        (p.mbuf.mtod (p.networkHeader.offset.toNat + (20 + walk.extHdrsLen.toNat))) walk).bind fun packet =>
        nat64Ipv6Shrink dpdk packet (p.networkHeader.offset + 40 + walk.extHdrsLen - p.networkHeader.offset - 20)
          (p.mbuf.mtod (p.networkHeader.offset.toNat +
            (p.networkHeader.offset + 40 + walk.extHdrsLen - p.networkHeader.offset - 20).toNat)) := by
  simp only [nat64Ipv6Translate, v6Delta_toNat w, v6HeaderPacket]
  cases nat64Ipv6Transport _ _ _ _ _ _ <;> rfl

-- Past the extension headers, nat64_handle_v6 writes RFC 7915's IPv4 header but for the identification,
-- keeps every byte of the payload but the transport checksum and trims the mbuf by the difference.
theorem nat64Ipv6Translate_translated {dpdk : Dpdk} (documented : dpdk.Documented) (icmpV6ToV4 : Nat64ModuleConfig → Packet → Nat → Nat → Option Packet)
    (config : Nat64ModuleConfig) (newSrcAddr : Ip4to6) (w : V6Walk p walk) :
    ∃ q, nat64Ipv6Translate dpdk icmpV6ToV4 config p newSrcAddr walk = some q ∧
      V6Translated p q { ipv4HdrOfIpv6 p.ipv6Hdr newSrcAddr.ip4 walk with
        packetId := if walk.isFragmented ≠ 0 then walk.fragId.toUInt16 else 0 } walk.extHdrsLen.toNat walk.nextHeader := by
  have notIcmp := w.notIcmp
  have cksumAt := v6HeaderPacket_cksumAt newSrcAddr w
  rw [nat64Ipv6Translate_eq dpdk icmpV6ToV4 config w]
  simp only [nat64Ipv6Transport, notIcmp, and_false, if_false]
  -- a UDP or TCP packet with its transport header gets its checksum set, any other one nothing
  by_cases udp : (walk.isFragmented = 0 ∨ walk.fragOffset = 0) ∧ walk.nextHeader = IPPROTO_UDP
  · rw [if_pos udp, Option.bind_some, Packet.setL4Cksum_eq]
    refine nat64Ipv6Shrink_translated documented w _ fun a outside => ?_
    have field := outside 6 (by rw [l4CksumOffset, if_pos udp.2])
    exact Packet.setL4Cksum_apply_of_disjoint _ _ _ (by rw [cksumAt]; omega)
  rw [if_neg udp]
  by_cases tcp : (walk.isFragmented = 0 ∨ walk.fragOffset = 0) ∧ walk.nextHeader = IPPROTO_TCP
  · rw [if_pos tcp, Option.bind_some, Packet.setL4Cksum_eq]
    refine nat64Ipv6Shrink_translated documented w _ fun a outside => ?_
    have field := outside 16 (by rw [l4CksumOffset, if_neg (fun u => udp ⟨tcp.1, u⟩), if_pos tcp.2])
    exact Packet.setL4Cksum_apply_of_disjoint _ _ _ (by rw [cksumAt]; omega)
  rw [if_neg tcp, Option.bind_some]
  exact nat64Ipv6Shrink_translated documented w _ fun _ _ => rfl

end Walk

section Fragment

variable {config : Nat64ModuleConfig} {p : Packet} {entry : Ip4to6}

theorem processIpv6ExtensionHeader_fragment (h : V6Fragment config p entry) :
    processIpv6ExtensionHeader p.mbuf (Ipv6ExtWalk.start p.networkHeader.offset IPPROTO_FRAGMENT) = .next (fragmentWalk p) := by
  have fits := h.fits
  have inside := h.inside
  have notIcmp := h.notIcmp
  have start : (p.networkHeader.offset + 40).toNat = p.networkHeader.offset.toNat + 40 := by
    simp only [UInt16.toNat_add, show (40 : UInt16).toNat = 40 from rfl]
    omega
  simp only [Packet.ipv6FragmentExt, Ipv6FragmentExt.load, Packet.networkHeaderAddr, Mbuf.mtod, Nat.add_assoc] at notIcmp
  have room : ¬ p.mbuf.dataLen < p.networkHeader.offset.toNat + 40 + 8 := by omega
  -- the walk's counters start at zero, so every check but the ones on the packet is decided
  simp +decide only [processIpv6ExtensionHeader, Ipv6ExtWalk.start, readIpv6FragmentHeader, start, Mbuf.mtod, room,
    notIcmp, Nat.add_assoc, if_false, if_true]
  simp only [fragmentWalk, Packet.ipv6FragmentExt, Ipv6FragmentExt.load, Packet.networkHeaderAddr, Mbuf.mtod,
    Ipv6ExtStep.next.injEq, Ipv6ExtWalk.mk.injEq, UInt16.add_assoc, Nat.add_assoc]
  exact ⟨rfl, trivial, by decide, trivial, rfl, trivial, trivial, trivial, trivial, rfl⟩

theorem processIpv6ExtensionHeaders_fragment (h : V6Fragment config p entry) :
    processIpv6ExtensionHeaders p = some (fragmentWalk p) := by
  have fits := h.fits
  have inside := h.inside
  have proto : p.mbuf.byte (p.networkHeader.offset.toNat + 6) = IPPROTO_FRAGMENT := h.fragment
  have start : (p.networkHeader.offset + 40).toNat < p.mbuf.dataLen := by
    simp only [UInt16.toNat_add, show (40 : UInt16).toNat = 40 from rfl]
    omega
  have after : (fragmentWalk p).currentOffset.toNat = p.networkHeader.offset.toNat + 48 := by
    simp only [fragmentWalk, UInt16.toNat_add, show (48 : UInt16).toNat = 48 from rfl]
    omega
  -- the header after the Fragment header is the upper-layer one, where the walk stops
  have upper : processIpv6ExtensionHeader p.mbuf (fragmentWalk p) = .done := by
    simp [processIpv6ExtensionHeader, fragmentWalk, h.upper]
  have stays : ¬ p.mbuf.dataLen ≤ (fragmentWalk p).currentOffset.toNat := by omega
  rw [processIpv6ExtensionHeaders, proto, show MAX_IPV6_EXT_HEADERS.toNat = 6 + 1 + 1 from rfl,
    processIpv6ExtensionHeadersLoop_next start (processIpv6ExtensionHeader_fragment h),
    processIpv6ExtensionHeadersLoop_done (by omega) upper]
  simp only [stays, if_false]

theorem nat64Ipv6FragmentValid_fragment (h : V6Fragment config p entry) :
    nat64Ipv6FragmentValid p.mbuf.mem p.networkHeaderAddr (fragmentWalk p) = true := by
  simp only [nat64Ipv6FragmentValid, fragmentWalk, h.notIcmp, decide_false]
  exact h.valid

theorem v6Walk_fragment (h : V6Fragment config p entry) : V6Walk p (fragmentWalk p) where
  notIcmp := h.notIcmp
  l2 := h.l2
  inside := by have := h.inside; simp only [fragmentWalk, show (8 : UInt16).toNat = 8 from rfl]; omega
  fits := by have := h.fits; simp only [fragmentWalk, show (8 : UInt16).toNat = 8 from rfl]; omega

theorem nat64HandleV6_fragment (dpdk : Dpdk) (icmpV6ToV4 : Nat64ModuleConfig → Packet → Nat → Nat → Option Packet)
    (h : V6Fragment config p entry) :
    nat64HandleV6 dpdk icmpV6ToV4 config p = nat64Ipv6Translate dpdk icmpV6ToV4 config p entry (fragmentWalk p) := by
  have mapped : findIp6to4 config (loadVector p.mbuf.mem (p.mbuf.mtod p.networkHeader.offset.toNat + 8) 16) =
      some entry := h.mapped
  have valid := nat64Ipv6FragmentValid_fragment h
  simp only [Packet.networkHeaderAddr] at valid
  simp only [nat64HandleV6, mapped, processIpv6ExtensionHeaders_fragment h, valid, Bool.not_true]
  simp [fragmentWalk]

end Fragment

-- A mapped IPv6 fragment is translated as RFC 7915 translates it but for the identification, which
-- nat64_handle_v6 takes from the first two bytes of the Fragment header's 32-bit Identification, its
-- high-order half.
theorem nat64_handle_v6_fragment_id_high_half
    {dpdk : Dpdk} (documented : dpdk.Documented) (icmpV6ToV4 : Nat64ModuleConfig → Packet → Nat → Nat → Option Packet)
    {config : Nat64ModuleConfig} {p : Packet} {entry : Ip4to6} (h : V6Fragment config p entry) :
    ∃ q, nat64HandleV6 dpdk icmpV6ToV4 config p = some q ∧
      V6Translated p q { ipv4HdrOfIpv6 p.ipv6Hdr entry.ip4 (fragmentWalk p) with
        packetId := load16 p.mbuf.mem (p.networkHeaderAddr + 44) } 8 p.ipv6FragmentExt.nextHeader := by
  obtain ⟨q, translated, spec⟩ :=
    nat64Ipv6Translate_translated documented icmpV6ToV4 config entry (v6Walk_fragment h)
  refine ⟨q, (nat64HandleV6_fragment dpdk icmpV6ToV4 h).trans translated, ?_⟩
  -- the walk keeps the identification as it lies 4 bytes into the Fragment header
  have id : (if (fragmentWalk p).isFragmented ≠ 0 then (fragmentWalk p).fragId.toUInt16 else 0) =
      load16 p.mbuf.mem (p.networkHeaderAddr + 44) := by
    simp only [fragmentWalk, Packet.ipv6FragmentExt, Ipv6FragmentExt.load, load32_toUInt16, Nat.add_assoc]
    rfl
  rw [id] at spec
  exact spec

-- An Ethernet frame at 128 with an IPv6 packet from 2001:db8::1 to 64:ff9b::c000:201 whose Fragment
-- header (offset 0, M set, Identification 0x00010002) carries 16 bytes of UDP.
def v6UdpFragment : Packet :=
  let ethernet : List UInt8 := [2, 0, 0, 0, 0, 1, 2, 0, 0, 0, 0, 2, 0x86, 0xdd]
  let ipv6 : List UInt8 := [0x60, 0, 0, 0, 0, 24, 44, 64,
    0x20, 1, 0xd, 0xb8, 0, 0, 0, 0, 0, 0, 0, 0, 0, 0, 0, 1,
    0, 0x64, 0xff, 0x9b, 0, 0, 0, 0, 0, 0, 0, 0, 192, 0, 2, 1]
  let fragment : List UInt8 := [17, 0, 0, 1, 0, 1, 0, 2]
  let udp : List UInt8 := [0x13, 0x88, 0, 0x35, 0, 0x10, 0, 0, 1, 2, 3, 4, 5, 6, 7, 8]
  { mbuf := ⟨ofBytes 128 (ethernet ++ ipv6 ++ fragment ++ udp), 128, 78, 300⟩, rxDeviceId := 0, txDeviceId := 0,
    moduleDeviceId := 0, flags := 0, vlan := 0, fragmentOffset := 0, dataLen := 78,
    networkHeader := ⟨rte_cpu_to_be_16 RTE_ETHER_TYPE_IPV6, 14⟩, transportHeader := ⟨17, 62⟩ }

def v6UdpEntry : Ip4to6 := ⟨0x0100000a, v4UdpEntry.ip6, 0⟩

def v6UdpConfig : Nat64ModuleConfig where
  mappings := [v6UdpEntry]
  v4ToV6 := fun _ => LPM_VALUE_INVALID
  v6ToV4 := fun key => if key = v6UdpEntry.ip6 then 0 else LPM_VALUE_INVALID
  dropUnknownMapping := true
  -- 64:ff9b::/96, as on the IPv4 side
  prefixes := v4UdpConfig.prefixes
  dropUnknownPrefix := false
  v6Prefixes := fun _ => LPM_VALUE_INVALID
  prefixIndex_lt := by decide

-- With the Identification 0x00010002 the IPv4 identification is 1 where RFC 7915 gives 2.
theorem nat64_handle_v6_fragment_id_high_half_udp :
    (ipv4HdrOfIpv6 v6UdpFragment.ipv6Hdr v6UdpEntry.ip4 (fragmentWalk v6UdpFragment)).packetId ≠
        load16 v6UdpFragment.mbuf.mem (v6UdpFragment.networkHeaderAddr + 44) ∧
      ∃ q, nat64HandleV6 dpdkSingleSegment (fun _ _ _ _ => none) v6UdpConfig v6UdpFragment = some q ∧
        V6Translated v6UdpFragment q { ipv4HdrOfIpv6 v6UdpFragment.ipv6Hdr v6UdpEntry.ip4 (fragmentWalk v6UdpFragment) with
          packetId := load16 v6UdpFragment.mbuf.mem (v6UdpFragment.networkHeaderAddr + 44) } 8
          v6UdpFragment.ipv6FragmentExt.nextHeader :=
  ⟨by decide +kernel, nat64_handle_v6_fragment_id_high_half dpdkSingleSegment_documented _
    ⟨by decide +kernel, by decide +kernel, by decide +kernel, by decide +kernel, by decide +kernel, by decide,
      by decide, by decide⟩⟩

end Yanet
