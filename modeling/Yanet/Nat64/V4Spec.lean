import Yanet.Nat64.V4

set_option autoImplicit false

-- What nat64_handle_v4 makes of an IPv4 packet without options, against the
-- translation RFC 7915 gives (`ipv6HdrOfIpv4`). A packet whose fragment bits
-- keep nothing in the uint8_t is_fragmented gets the header of an unfragmented
-- packet and its UDP or TCP checksum recomputed over the bytes it carries; this
-- holds for a first fragment (only MF set) and for every fragment whose offset
-- is a multiple of 256 units.

namespace Yanet

open Mem

-- The IPv6 header RFC 7915 gives an IPv4 header whose destination maps to `ip6`: the source is the
-- IPv4 source under the prefix, and a fragment gets a Fragment header after it.
def ipv6HdrOfIpv4 (h : Ipv4Hdr) (pfx : Vector UInt8 12) (ip6 : Vector UInt8 16) (fragment : Bool) : Ipv6Hdr where
  vtcFlow := rte_cpu_to_be_32 (((6 : UInt32) <<< 28) ||| (h.typeOfService.toUInt32 <<< 20))
  payloadLen := rte_cpu_to_be_16 (rte_be_to_cpu_16 h.totalLength - 20 + if fragment then 8 else 0)
  proto := if fragment then IPPROTO_FRAGMENT else h.nextProtoId
  hopLimits := h.timeToLive
  srcAddr := pfx ++ h.srcAddr
  dstAddr := ip6

theorem nat64Ipv4IsFragmented_eq_zero_iff (fragData : UInt16) :
    nat64Ipv4IsFragmented fragData = 0 ↔ (fragData &&& 0x3fff).toNat % 256 = 0 := by
  simp only [nat64Ipv4IsFragmented, RTE_IPV4_HDR_MF_FLAG, RTE_IPV4_HDR_OFFSET_MASK]
  rw [← UInt8.toNat_inj, UInt16.toNat_toUInt8]
  rfl

theorem setIpv4MappedIpv6_eq {m : Memory} {ip6 ip4 : Nat} (pfx : Vector UInt8 12)
    (disjoint : ip4 + 4 ≤ ip6 ∨ ip6 + 12 ≤ ip4) :
    setIpv4MappedIpv6 m ip6 pfx ip4 = storeVector m ip6 (pfx ++ loadVector m ip4 4) := by
  have unchanged : loadVector (storeVector m ip6 pfx) ip4 4 = loadVector m ip4 4 := by
    simp (disch := omega) only [loadVector, storeVector_apply_of_disjoint]
  simp only [setIpv4MappedIpv6, unchanged]
  simp only [storeVector, Vector.toList_append, storeBytes_append, Vector.length_toList]

-- With the IPv4 header 20 bytes after the new IPv6 header, no field is overwritten before it is read,
-- and copy_ipv4_to_ipv6_hdr writes RFC 7915's header.
theorem copyIpv4ToIpv6Hdr_unfragmented (mbuf : Mbuf) (newIpv6Header l3Off : Nat) (pfx : Vector UInt8 12)
    (ip6 : Vector UInt8 16) :
    copyIpv4ToIpv6Hdr mbuf (newIpv6Header + 20) newIpv6Header l3Off pfx ip6 0 20 false =
      some (Ipv6Hdr.store mbuf.mem newIpv6Header
        (ipv6HdrOfIpv4 (Ipv4Hdr.load mbuf.mem (newIpv6Header + 20)) pfx ip6 false)) := by
  have payloadLen (total : UInt16) : UInt16.ofInt ((total.toNat : Int) - 20) = total - 20 := by
    simpa using uint16_ofInt_toNat_sub total 20
  simp (disch := omega) only [copyIpv4ToIpv6Hdr, Ipv6Hdr.store, ipv6HdrOfIpv4, Ipv4Hdr.load, setIpv4MappedIpv6_eq,
    load16, loadVector, store8_other, store16_apply_of_disjoint, store32_apply_of_disjoint, if_true,
    Option.map_some, Bool.false_eq_true, if_false, payloadLen, UInt16.add_zero, RTE_IPV6_HDR_TC_SHIFT]

-- An IPv4 packet without options whose destination has the mapping `entry`, its transport header right
-- after the 20-byte header and an Ethernet header at least before it.
structure V4Mapped (config : Nat64ModuleConfig) (p : Packet) (entry : Ip4to6) : Prop where
  mapped : findIp4to6 config p.ipv4Hdr.dstAddr = some entry
  ihl : p.ipv4Hdr.versionIhl &&& RTE_IPV4_HDR_IHL_MASK = RTE_IPV4_MIN_IHL
  transport : p.transportHeader.offset.toNat = p.networkHeader.offset.toNat + 20
  l2 : 14 ≤ p.networkHeader.offset.toNat
  fits : p.networkHeader.offset.toNat + 48 < 65536

theorem nat64Ipv4OptionsOk_of_ihl {m : Memory} {ipv4Header : Nat}
    (ihl : m ipv4Header &&& RTE_IPV4_HDR_IHL_MASK = RTE_IPV4_MIN_IHL) : nat64Ipv4OptionsOk m ipv4Header = true := by
  simp [nat64Ipv4OptionsOk, ihl]

section Mapped

variable (dpdk : Dpdk) (icmpV4ToV6 : Nat64ModuleConfig → Packet → Nat → Vector UInt8 12 → Vector UInt8 16 → Option Packet)
  {config : Nat64ModuleConfig} {p : Packet} {entry : Ip4to6}

theorem nat64HandleV4_of_mapped (h : V4Mapped config p entry) :
    nat64HandleV4 dpdk icmpV4ToV6 config p =
      (nat64Ipv4FragmentDelta p.mbuf.mem p.networkHeaderAddr (rte_be_to_cpu_16 p.ipv4Hdr.fragmentOffset)
        (nat64Ipv4IsFragmented (rte_be_to_cpu_16 p.ipv4Hdr.fragmentOffset)) 20).bind
        (nat64Ipv4Translate dpdk icmpV4ToV6 config p entry (nat64Ipv4IsFragmented (rte_be_to_cpu_16 p.ipv4Hdr.fragmentOffset))) := by
  have delta : (40 - ((p.transportHeader.offset.toNat : Int) - p.networkHeader.offset.toNat)).bmod 65536 = 20 := by
    rw [h.transport]
    push_cast
    rw [show (40 : Int) - (↑p.networkHeader.offset.toNat + 20 - ↑p.networkHeader.offset.toNat) = 20 by omega]
    rfl
  have mapped := h.mapped
  have ihl := h.ihl
  simp only [Packet.ipv4Hdr, Ipv4Hdr.load, Packet.networkHeaderAddr] at mapped ihl ⊢
  simp only [nat64HandleV4, mapped, nat64Ipv4OptionsOk_of_ihl ihl, delta, Bool.not_true]
  cases nat64Ipv4FragmentDelta _ _ _ _ _ <;> rfl

end Mapped

-- The mbuf of an unfragmented translation: 20 bytes longer at the front, the L2 header moved there and
-- the IPv6 header `hdr` written where the IPv4 header ended 20 bytes before.
def v4UnfragmentedMbuf (p : Packet) (hdr : Ipv6Hdr) : Mbuf :=
  let mbuf := { p.mbuf with dataOff := p.mbuf.dataOff - 20, dataLen := p.mbuf.dataLen + 20 }
  let nh := p.networkHeader.offset.toNat
  { mbuf with mem := Ipv6Hdr.store (copy p.mbuf.mem (mbuf.mtod 0) (mbuf.mtod 20) nh) (mbuf.mtod nh) hdr }

-- The packet nat64_handle_v4 hands its protocol branches: that mbuf, the transport header 20 bytes
-- further from the start.
def v4UnfragmentedPacket (p : Packet) (hdr : Ipv6Hdr) : Packet :=
  let mbuf := v4UnfragmentedMbuf p hdr
  { p with
    mbuf
    dataLen := UInt16.ofNat mbuf.dataLen
    transportHeader := { p.transportHeader with offset := p.transportHeader.offset + 20 } }

@[simp] theorem v4UnfragmentedMbuf_dataOff (p : Packet) (hdr : Ipv6Hdr) :
    (v4UnfragmentedMbuf p hdr).dataOff = p.mbuf.dataOff - 20 := rfl

theorem v4UnfragmentedMbuf_mem (p : Packet) (hdr : Ipv6Hdr) :
    (v4UnfragmentedMbuf p hdr).mem =
      Ipv6Hdr.store (copy p.mbuf.mem (p.mbuf.dataOff - 20 + 0) (p.mbuf.dataOff - 20 + 20) p.networkHeader.offset.toNat)
        (p.mbuf.dataOff - 20 + p.networkHeader.offset.toNat) hdr := rfl

@[simp] theorem v4UnfragmentedPacket_mbuf (p : Packet) (hdr : Ipv6Hdr) :
    (v4UnfragmentedPacket p hdr).mbuf = v4UnfragmentedMbuf p hdr := rfl

@[simp] theorem v4UnfragmentedPacket_transportHeader (p : Packet) (hdr : Ipv6Hdr) :
    (v4UnfragmentedPacket p hdr).transportHeader = { p.transportHeader with offset := p.transportHeader.offset + 20 } :=
  rfl

theorem v4UnfragmentedPacket_proto (p : Packet) (hdr : Ipv6Hdr) :
    (v4UnfragmentedPacket p hdr).mbuf.mem ((v4UnfragmentedMbuf p hdr).mtod p.networkHeader.offset.toNat + 6) =
      hdr.proto :=
  Ipv6Hdr.store_proto _ _ _

theorem nat64Ipv4Translate_unfragmented {dpdk : Dpdk} (documented : dpdk.Documented)
    (icmpV4ToV6 : Nat64ModuleConfig → Packet → Nat → Vector UInt8 12 → Vector UInt8 16 → Option Packet)
    (config : Nat64ModuleConfig) (p : Packet) (entry : Ip4to6) (headroom : 20 ≤ p.mbuf.dataOff) :
    nat64Ipv4Translate dpdk icmpV4ToV6 config p entry 0 20 =
      let hdr := ipv6HdrOfIpv4 p.ipv4Hdr (config.prefixOf entry) entry.ip6 false
      (nat64Ipv4Transport dpdk icmpV4ToV6 config (v4UnfragmentedPacket p hdr)
        ((v4UnfragmentedMbuf p hdr).mtod p.networkHeader.offset.toNat) (config.prefixOf entry) entry.ip6).map
        fun packet => packet.setEtherType 12 RTE_ETHER_TYPE_IPV6 := by
  have addr : p.mbuf.dataOff + p.networkHeader.offset.toNat =
      p.mbuf.dataOff - 20 + p.networkHeader.offset.toNat + 20 := by
    omega
  -- the L2 header moves below the IPv4 header, which stays where it was
  have unmoved : Ipv4Hdr.load (copy p.mbuf.mem (p.mbuf.dataOff - 20 + 0) (p.mbuf.dataOff - 20 + 20)
      p.networkHeader.offset.toNat) (p.mbuf.dataOff - 20 + p.networkHeader.offset.toNat + 20) = p.ipv4Hdr := by
    simp only [Packet.ipv4Hdr, Packet.networkHeaderAddr, Mbuf.mtod, addr]
    simp (disch := omega) only [Ipv4Hdr.load, load16, loadVector, copy_apply_of_disjoint]
  have low : ¬ ((20 : Int) < 0) := by decide
  have twenty : (20 : Int).toNat = 20 := rfl
  simp only [nat64Ipv4Translate, low, if_false, twenty, documented.prepend _ _ headroom, Mbuf.mtod]
  rw [addr, copyIpv4ToIpv6Hdr_unfragmented, unmoved]
  rfl

section Unfragmented

variable {dpdk : Dpdk} (documented : dpdk.Documented) (icmpV4ToV6 : Nat64ModuleConfig → Packet → Nat → Vector UInt8 12 → Vector UInt8 16 → Option Packet)
  {config : Nat64ModuleConfig} {p : Packet} {entry : Ip4to6}

include documented in
theorem nat64HandleV4_unfragmented_eq (h : V4Mapped config p entry) (headroom : 20 ≤ p.mbuf.dataOff)
    (unfragmented : nat64Ipv4IsFragmented (rte_be_to_cpu_16 p.ipv4Hdr.fragmentOffset) = 0) :
    nat64HandleV4 dpdk icmpV4ToV6 config p =
      let hdr := ipv6HdrOfIpv4 p.ipv4Hdr (config.prefixOf entry) entry.ip6 false
      (nat64Ipv4Transport dpdk icmpV4ToV6 config (v4UnfragmentedPacket p hdr)
        ((v4UnfragmentedMbuf p hdr).mtod p.networkHeader.offset.toNat) (config.prefixOf entry) entry.ip6).map
        fun packet => packet.setEtherType 12 RTE_ETHER_TYPE_IPV6 := by
  rw [nat64HandleV4_of_mapped dpdk icmpV4ToV6 h, unfragmented]
  simp only [nat64Ipv4FragmentDelta, if_true, Option.bind_some]
  exact nat64Ipv4Translate_unfragmented documented _ _ _ _ headroom

theorem v4UnfragmentedPacket_cksumAt (h : V4Mapped config p entry) (headroom : 20 ≤ p.mbuf.dataOff) (hdr : Ipv6Hdr)
    (field : Nat) :
    (v4UnfragmentedPacket p hdr).mbuf.mtod ((v4UnfragmentedPacket p hdr).transportHeader.offset.toNat + field) =
      p.transportHeaderAddr + field := by
  have transport := h.transport
  have fits := h.fits
  simp only [Mbuf.mtod, v4UnfragmentedPacket_mbuf, v4UnfragmentedMbuf_dataOff, v4UnfragmentedPacket_transportHeader,
    Packet.transportHeaderAddr, UInt16.toNat_add, show (20 : UInt16).toNat = 20 from rfl]
  omega

end Unfragmented

-- `q` is `p` translated with the IPv6 header `hdr`: the header stands 20 bytes before the IPv4 header's
-- end, the L2 header has moved with the start, and every byte from the transport header on is `p`'s but for
-- the transport checksum.
structure V4Translated (p q : Packet) (hdr : Ipv6Hdr) : Prop where
  networkHeader : q.networkHeader = ⟨rte_cpu_to_be_16 RTE_ETHER_TYPE_IPV6, p.networkHeader.offset⟩
  transportHeader : q.transportHeader.offset.toNat = p.transportHeader.offset.toNat + 20
  dataOff : q.mbuf.dataOff + 20 = p.mbuf.dataOff
  dataLen : q.mbuf.dataLen = p.mbuf.dataLen + 20
  header : q.ipv6Hdr = hdr
  l2 : bytes q.mbuf.mem (q.mbuf.mtod 0) 12 = bytes p.mbuf.mem (p.mbuf.mtod 0) 12
  etherType : load16 q.mbuf.mem (q.mbuf.mtod 12) = rte_cpu_to_be_16 RTE_ETHER_TYPE_IPV6
  payload : ∀ a, p.transportHeaderAddr ≤ a → OutsideL4Cksum p.ipv4Hdr.nextProtoId p.transportHeaderAddr a →
    q.mbuf.mem a = p.mbuf.mem a

theorem v4Translated_of_transport {config : Nat64ModuleConfig} {p : Packet} {entry : Ip4to6}
    (h : V4Mapped config p entry) (headroom : 20 ≤ p.mbuf.dataOff) {hdr : Ipv6Hdr} (mem : Memory)
    (unchanged : ∀ a, OutsideL4Cksum p.ipv4Hdr.nextProtoId p.transportHeaderAddr a →
      mem a = (v4UnfragmentedMbuf p hdr).mem a) :
    V4Translated p ({ v4UnfragmentedPacket p hdr with mbuf := { (v4UnfragmentedPacket p hdr).mbuf with mem } }.setEtherType
      12 RTE_ETHER_TYPE_IPV6) hdr := by
  have transport := h.transport
  have l2 := h.l2
  have fits := h.fits
  -- below the transport header `mem` is the moved mbuf, whose IPv6 header ends where the transport header starts
  have below (a : Nat) (lt : a < p.transportHeaderAddr) : mem a = (v4UnfragmentedMbuf p hdr).mem a :=
    unchanged a fun _ _ => Or.inl (by omega)
  simp only [Packet.transportHeaderAddr, Mbuf.mtod] at below unchanged
  constructor
  case networkHeader => rfl
  case transportHeader =>
    simp only [Packet.setEtherType, v4UnfragmentedPacket_transportHeader, UInt16.toNat_add,
      show (20 : UInt16).toNat = 20 from rfl]
    omega
  case dataOff =>
    simp only [Packet.setEtherType, v4UnfragmentedPacket_mbuf, v4UnfragmentedMbuf_dataOff]
    omega
  case dataLen => rfl
  case header =>
    simp only [Packet.ipv6Hdr, Packet.networkHeaderAddr, Packet.setEtherType, v4UnfragmentedPacket_mbuf,
      v4UnfragmentedMbuf_dataOff, Mbuf.mtod]
    rw [Ipv6Hdr.load_congr (m := (v4UnfragmentedMbuf p hdr).mem) fun i hi => ?_]
    · exact Ipv6Hdr.load_store _ _ _
    · rw [store16_apply_of_disjoint (by simp only [v4UnfragmentedPacket]; omega),
        below _ (by simp only [v4UnfragmentedPacket]; omega)]
  case l2 =>
    simp only [Packet.setEtherType, v4UnfragmentedPacket_mbuf, v4UnfragmentedMbuf_dataOff, Mbuf.mtod]
    apply bytes_shift
    intro i hi
    rw [store16_apply_of_disjoint (by omega), below _ (by omega), v4UnfragmentedMbuf_mem,
      Ipv6Hdr.store_apply_of_disjoint _ (by omega), copy, if_pos (by omega)]
    congr 1
    omega
  case etherType => exact load16_of_bytes (bytes_store16_self _)
  case payload =>
    intro a above outside
    simp only [Packet.transportHeaderAddr, Mbuf.mtod] at above
    simp only [Packet.setEtherType, v4UnfragmentedPacket_mbuf, v4UnfragmentedMbuf_dataOff, Mbuf.mtod]
    rw [store16_apply_of_disjoint (by omega), unchanged a outside, v4UnfragmentedMbuf_mem,
      Ipv6Hdr.store_apply_of_disjoint _ (by omega), copy_apply_of_disjoint (by omega)]

-- A mapped IPv4 packet without options that keeps nothing in is_fragmented and is not ICMP is translated
-- as RFC 7915 translates an unfragmented packet.
theorem nat64HandleV4_unfragmented
    {dpdk : Dpdk} (documented : dpdk.Documented) (icmpV4ToV6 : Nat64ModuleConfig → Packet → Nat → Vector UInt8 12 → Vector UInt8 16 → Option Packet)
    {config : Nat64ModuleConfig} {p : Packet} {entry : Ip4to6} (h : V4Mapped config p entry)
    (headroom : 20 ≤ p.mbuf.dataOff) (unfragmented : nat64Ipv4IsFragmented (rte_be_to_cpu_16 p.ipv4Hdr.fragmentOffset) = 0)
    (notIcmp : p.ipv4Hdr.nextProtoId ≠ IPPROTO_ICMP) :
    ∃ q, nat64HandleV4 dpdk icmpV4ToV6 config p = some q ∧
      V4Translated p q (ipv6HdrOfIpv4 p.ipv4Hdr (config.prefixOf entry) entry.ip6 false) := by
  rw [nat64HandleV4_unfragmented_eq documented icmpV4ToV6 h headroom unfragmented]
  set hdr := ipv6HdrOfIpv4 p.ipv4Hdr (config.prefixOf entry) entry.ip6 false
  have proto : (v4UnfragmentedPacket p hdr).mbuf.mem ((v4UnfragmentedMbuf p hdr).mtod p.networkHeader.offset.toNat + 6) =
      p.ipv4Hdr.nextProtoId :=
    v4UnfragmentedPacket_proto p hdr
  have cksumAt := v4UnfragmentedPacket_cksumAt h headroom hdr
  simp only [nat64Ipv4Transport, proto, notIcmp, if_false]
  -- UDP and TCP rewrite their checksum field, any other protocol nothing
  split_ifs with udp tcp
  · refine ⟨_, rfl, ?_⟩
    rw [Packet.setL4Cksum_eq]
    refine v4Translated_of_transport h headroom _ fun a outside => ?_
    have field := outside 6 (by rw [l4CksumOffset, if_pos udp])
    exact Packet.setL4Cksum_apply_of_disjoint _ _ _ (by rw [cksumAt]; omega)
  · refine ⟨_, rfl, ?_⟩
    rw [Packet.setL4Cksum_eq]
    refine v4Translated_of_transport h headroom _ fun a outside => ?_
    have field := outside 16 (by rw [l4CksumOffset, if_neg udp, if_pos tcp])
    exact Packet.setL4Cksum_apply_of_disjoint _ _ _ (by rw [cksumAt]; omega)
  · exact ⟨_, rfl, v4Translated_of_transport h headroom _ fun _ _ => rfl⟩

-- A first fragment (MF set, offset 0) keeps nothing in is_fragmented: nat64_handle_v4 sends it as an
-- unfragmented packet, with no Fragment header, a next header that is its own protocol and a payload
-- length without the Fragment header's 8 bytes.
theorem nat64_handle_v4_first_fragment_unmarked
    {dpdk : Dpdk} (documented : dpdk.Documented) (icmpV4ToV6 : Nat64ModuleConfig → Packet → Nat → Vector UInt8 12 → Vector UInt8 16 → Option Packet)
    {config : Nat64ModuleConfig} {p : Packet} {entry : Ip4to6} (h : V4Mapped config p entry)
    (headroom : 20 ≤ p.mbuf.dataOff)
    (first : rte_be_to_cpu_16 p.ipv4Hdr.fragmentOffset &&& (RTE_IPV4_HDR_MF_FLAG ||| RTE_IPV4_HDR_OFFSET_MASK) =
      RTE_IPV4_HDR_MF_FLAG)
    (notIcmp : p.ipv4Hdr.nextProtoId ≠ IPPROTO_ICMP) (notFragment : p.ipv4Hdr.nextProtoId ≠ IPPROTO_FRAGMENT) :
    ∃ q, nat64HandleV4 dpdk icmpV4ToV6 config p = some q ∧
      V4Translated p q (ipv6HdrOfIpv4 p.ipv4Hdr (config.prefixOf entry) entry.ip6 false) ∧
      q.ipv6Hdr ≠ ipv6HdrOfIpv4 p.ipv4Hdr (config.prefixOf entry) entry.ip6 true := by
  have unfragmented : nat64Ipv4IsFragmented (rte_be_to_cpu_16 p.ipv4Hdr.fragmentOffset) = 0 := by
    rw [nat64Ipv4IsFragmented, first]
    rfl
  obtain ⟨q, handled, translated⟩ := nat64HandleV4_unfragmented documented icmpV4ToV6 h headroom unfragmented notIcmp
  refine ⟨q, handled, translated, fun fragmentHdr => notFragment ?_⟩
  have proto := congrArg Ipv6Hdr.proto (translated.header.symm.trans fragmentHdr)
  simpa [ipv6HdrOfIpv4] using proto


-- An Ethernet frame at 128 with a UDP datagram of 16 bytes from 10.0.0.1 to 192.0.2.1 whose fragment
-- field is `fragData` (big endian) and whose payload, after the 8-byte UDP header, is `data`.
def v4UdpFrame (fragData : UInt16) (data : List UInt8) : Packet :=
  let ethernet : List UInt8 := [2, 0, 0, 0, 0, 1, 2, 0, 0, 0, 0, 2, 0x08, 0x00]
  let ipv4 : List UInt8 := [0x45, 0, 0, 0x24, 0x12, 0x34, (fragData >>> 8).toUInt8, fragData.toUInt8, 0x40, 0x11, 0, 0,
    10, 0, 0, 1, 192, 0, 2, 1]
  let udp : List UInt8 := [0x13, 0x88, 0, 0x35, 0, 0x10, 0, 0]
  let frame := ethernet ++ ipv4 ++ udp ++ data
  { mbuf := ⟨ofBytes 128 frame, 128, 50, 300⟩, rxDeviceId := 0, txDeviceId := 0, moduleDeviceId := 0, flags := 0,
    vlan := 0, fragmentOffset := 0, dataLen := 50, networkHeader := ⟨rte_cpu_to_be_16 RTE_ETHER_TYPE_IPV4, 14⟩,
    transportHeader := ⟨17, 34⟩ }

def v4UdpEntry : Ip4to6 := ⟨0, #v[0x20, 1, 0xd, 0xb8, 0, 0, 0, 0, 0, 0, 0, 0, 0, 0, 0, 1], 0⟩

-- 192.0.2.1 maps to 2001:db8::1 under 64:ff9b::/96.
def v4UdpConfig : Nat64ModuleConfig where
  mappings := [v4UdpEntry]
  v4ToV6 := fun key => if key = #v[192, 0, 2, 1] then 0 else LPM_VALUE_INVALID
  v6ToV4 := fun _ => LPM_VALUE_INVALID
  dropUnknownMapping := true
  prefixes := [#v[0, 0x64, 0xff, 0x9b, 0, 0, 0, 0, 0, 0, 0, 0]]
  dropUnknownPrefix := false
  v6Prefixes := fun _ => LPM_VALUE_INVALID
  prefixIndex_lt := by decide

theorem nat64_handle_v4_first_fragment_unmarked_udp :
    rte_be_to_cpu_16 (v4UdpFrame 0x2000 [1, 2, 3, 4, 5, 6, 7, 8]).ipv4Hdr.fragmentOffset = RTE_IPV4_HDR_MF_FLAG ∧
      ∃ q, nat64HandleV4 dpdkSingleSegment (fun _ _ _ _ _ => none) v4UdpConfig (v4UdpFrame 0x2000 [1, 2, 3, 4, 5, 6, 7, 8]) = some q ∧
        V4Translated (v4UdpFrame 0x2000 [1, 2, 3, 4, 5, 6, 7, 8]) q
          (ipv6HdrOfIpv4 (v4UdpFrame 0x2000 [1, 2, 3, 4, 5, 6, 7, 8]).ipv4Hdr
            (v4UdpConfig.prefixOf v4UdpEntry) v4UdpEntry.ip6 false) ∧
        q.ipv6Hdr ≠ ipv6HdrOfIpv4 (v4UdpFrame 0x2000 [1, 2, 3, 4, 5, 6, 7, 8]).ipv4Hdr
          (v4UdpConfig.prefixOf v4UdpEntry) v4UdpEntry.ip6 true :=
  ⟨by decide +kernel, nat64_handle_v4_first_fragment_unmarked dpdkSingleSegment_documented _ (show V4Mapped v4UdpConfig _ v4UdpEntry from ⟨by decide +kernel, by decide +kernel, by decide, by decide, by decide⟩) (by decide) (by decide +kernel)
    (by decide +kernel) (by decide +kernel)⟩

-- A UDP packet whose fragment bits keep nothing in is_fragmented, a fragment of any offset that is a
-- multiple of 256 units among them, has its checksum field recomputed: the bytes there are never 0 after.
theorem nat64_handle_v4_udp_cksum_rewritten
    {dpdk : Dpdk} (documented : dpdk.Documented) (icmpV4ToV6 : Nat64ModuleConfig → Packet → Nat → Vector UInt8 12 → Vector UInt8 16 → Option Packet)
    {config : Nat64ModuleConfig} {p : Packet} {entry : Ip4to6} (h : V4Mapped config p entry)
    (headroom : 20 ≤ p.mbuf.dataOff)
    (truncated : (rte_be_to_cpu_16 p.ipv4Hdr.fragmentOffset &&& 0x3fff).toNat % 256 = 0)
    (udp : p.ipv4Hdr.nextProtoId = IPPROTO_UDP) :
    ∃ q, nat64HandleV4 dpdk icmpV4ToV6 config p = some q ∧ load16 q.mbuf.mem (p.transportHeaderAddr + 6) ≠ 0 := by
  have unfragmented := (nat64Ipv4IsFragmented_eq_zero_iff _).mpr truncated
  rw [nat64HandleV4_unfragmented_eq documented icmpV4ToV6 h headroom unfragmented]
  set hdr := ipv6HdrOfIpv4 p.ipv4Hdr (config.prefixOf entry) entry.ip6 false
  have proto : (v4UnfragmentedPacket p hdr).mbuf.mem ((v4UnfragmentedMbuf p hdr).mtod p.networkHeader.offset.toNat + 6) =
      IPPROTO_UDP :=
    (v4UnfragmentedPacket_proto p hdr).trans udp
  have cksumAt := v4UnfragmentedPacket_cksumAt h headroom hdr 6
  have transport := h.transport
  have notIcmp : IPPROTO_UDP ≠ IPPROTO_ICMP := by decide
  simp only [nat64Ipv4Transport, proto, notIcmp, if_false, if_true, Option.map_some]
  refine ⟨_, rfl, ?_⟩
  have th : p.transportHeaderAddr = p.mbuf.dataOff + p.networkHeader.offset.toNat + 20 := by
    simp only [Packet.transportHeaderAddr, Mbuf.mtod, transport, Nat.add_assoc]
  -- the ether type lies below the checksum field, the IPv6 next header it is computed with too
  rw [Packet.load16_setEtherType_of_disjoint _ _ _ ?outside, ← cksumAt, Packet.load16_setL4Cksum]
  · apply documented.ipv6_udp
    dsimp only
    rw [store16_apply_of_disjoint (Or.inl ?below), proto]
    rw [cksumAt, th]
    simp only [Mbuf.mtod, v4UnfragmentedMbuf_dataOff]
    omega
  case outside =>
    simp only [Mbuf.mtod, Packet.setL4Cksum_dataOff, v4UnfragmentedPacket_mbuf, v4UnfragmentedMbuf_dataOff, th]
    omega

-- The last fragment of a 2064-byte datagram, at offset 256 units, has its data bytes 6 and 7 rewritten.
theorem nat64_handle_v4_udp_cksum_rewritten_fragment :
    rte_be_to_cpu_16 (v4UdpFrame 0x0100 [0, 0, 0, 0, 0, 0, 0, 0]).ipv4Hdr.fragmentOffset &&& RTE_IPV4_HDR_OFFSET_MASK = 256 ∧
      load16 (v4UdpFrame 0x0100 [0, 0, 0, 0, 0, 0, 0, 0]).mbuf.mem
        ((v4UdpFrame 0x0100 [0, 0, 0, 0, 0, 0, 0, 0]).transportHeaderAddr + 6) = 0 ∧
      ∃ q, nat64HandleV4 dpdkSingleSegment (fun _ _ _ _ _ => none) v4UdpConfig (v4UdpFrame 0x0100 [0, 0, 0, 0, 0, 0, 0, 0]) = some q ∧
        load16 q.mbuf.mem ((v4UdpFrame 0x0100 [0, 0, 0, 0, 0, 0, 0, 0]).transportHeaderAddr + 6) ≠ 0 :=
  ⟨by decide +kernel, by decide +kernel,
    nat64_handle_v4_udp_cksum_rewritten dpdkSingleSegment_documented _ (show V4Mapped v4UdpConfig _ v4UdpEntry from ⟨by decide +kernel, by decide +kernel, by decide, by decide, by decide⟩) (by decide) (by decide +kernel) (by decide +kernel)⟩

end Yanet
