import Yanet.Dataplane.Dpdk
import Yanet.Dataplane.IpHdr
import Yanet.Lpm.Basic

set_option autoImplicit false

-- modules/nat64/dataplane/config.h and the lookups of nat64dp.c: the mappings
-- between IPv4 and IPv6 addresses, the NAT64 prefixes and the fragment checks
-- both directions share. An LPM table is given by its lookup, which answers
-- LPM_VALUE_INVALID for a key no prefix covers.

namespace Yanet

def RTE_IPV4_HDR_MF_FLAG : UInt16 := 0x2000
def RTE_IPV4_HDR_OFFSET_MASK : UInt16 := 0x1fff
def RTE_IPV4_HDR_IHL_MASK : UInt8 := 0x0f
def RTE_IPV4_MIN_IHL : UInt8 := 5
def RTE_IPV4_IHL_MULTIPLIER : UInt8 := 4
def RTE_IPV4_VHL_DEF : UInt8 := 0x45
def RTE_IPV4_HDR_OPT_EOL : UInt8 := 0
def RTE_IPV4_HDR_OPT_NOP : UInt8 := 1
def IPOPT_LSRR : UInt8 := 0x83
def IPOPT_SSRR : UInt8 := 0x89
def RTE_IPV6_FRAG_HDR_SIZE : Nat := 8
def RTE_IPV6_HDR_TC_SHIFT : UInt32 := 20
def RTE_IPV6_EHDR_MF_MASK : UInt16 := 1
def RTE_IPV6_EHDR_FO_SHIFT : UInt16 := 3
def RTE_IPV6_EHDR_FO_MASK : UInt16 := 0xfff8

def RTE_IPV6_GET_FO (fragData : UInt16) : UInt16 := fragData >>> RTE_IPV6_EHDR_FO_SHIFT
def RTE_IPV6_GET_MF (fragData : UInt16) : UInt16 := fragData &&& RTE_IPV6_EHDR_MF_MASK

def RTE_IPV6_SET_FRAG_DATA (fo mf : UInt16) : UInt16 :=
  (fo &&& RTE_IPV6_EHDR_FO_MASK) ||| (mf &&& RTE_IPV6_EHDR_MF_MASK)

structure Ip4to6 where
  -- in network byte order
  ip4 : UInt32
  ip6 : Vector UInt8 16
  prefixIndex : Nat
deriving DecidableEq

-- struct nat64_module_config less the MTUs, which only a log line reads, and the counters. Every
-- mapping names one of the configured prefixes.
structure Nat64ModuleConfig where
  mappings : List Ip4to6
  v4ToV6 : Vector UInt8 4 → UInt32
  v6ToV4 : Vector UInt8 16 → UInt32
  dropUnknownMapping : Bool
  prefixes : List (Vector UInt8 12)
  dropUnknownPrefix : Bool
  v6Prefixes : Vector UInt8 12 → UInt32
  prefixIndex_lt : ∀ entry ∈ mappings, entry.prefixIndex < prefixes.length

namespace Nat64ModuleConfig

-- prefixes[entry->prefix_index].prefix.
def prefixOf (config : Nat64ModuleConfig) (entry : Ip4to6) : Vector UInt8 12 :=
  config.prefixes.getD entry.prefixIndex (Vector.replicate 12 0)

end Nat64ModuleConfig

-- The mapping an LPM answer names; an index past the list is no mapping.
def mappingAt (config : Nat64ModuleConfig) (index : UInt32) : Option Ip4to6 :=
  if index = LPM_VALUE_INVALID then none else config.mappings[index.toNat]?

def findIp6to4 (config : Nat64ModuleConfig) (ip6 : Vector UInt8 16) : Option Ip4to6 :=
  mappingAt config (config.v6ToV4 ip6)

def findIp4to6 (config : Nat64ModuleConfig) (ip4 : Vector UInt8 4) : Option Ip4to6 :=
  mappingAt config (config.v4ToV6 ip4)

inductive FragmentTotalLenCheck where
  | FRAGMENT_TOTAL_LEN_SKIP
  | FRAGMENT_TOTAL_LEN_CHECK
deriving DecidableEq, Repr

-- validate_fragment_params: true is 0, false is -1.
def validateFragmentParams (fragOffset fragSize totalLen : UInt16) (moreFragments isIcmp : Bool)
    (totalLenCheck : FragmentTotalLenCheck) : Bool :=
  if isIcmp then false
  else if fragOffset % 8 ≠ 0 then false
  else if moreFragments ∧ fragSize % 8 ≠ 0 then false
  else if fragSize < 8 then false
  else if totalLenCheck = .FRAGMENT_TOTAL_LEN_CHECK ∧ fragOffset.toNat + fragSize.toNat > totalLen.toNat then false
  else true

theorem validateFragmentParams_eq_true {fragOffset fragSize totalLen : UInt16} {moreFragments isIcmp : Bool}
    {totalLenCheck : FragmentTotalLenCheck} :
    validateFragmentParams fragOffset fragSize totalLen moreFragments isIcmp totalLenCheck = true ↔
      isIcmp = false ∧ fragOffset % 8 = 0 ∧ (moreFragments = true → fragSize % 8 = 0) ∧ 8 ≤ fragSize ∧
        (totalLenCheck = .FRAGMENT_TOTAL_LEN_CHECK → fragOffset.toNat + fragSize.toNat ≤ totalLen.toNat) := by
  unfold validateFragmentParams
  cases isIcmp <;> cases moreFragments <;> cases totalLenCheck <;> simp

-- Against its own total length, a fragment passes the check only when its offset is at most the
-- header length: the payload already fills the rest.
namespace Packet

-- A TCP or UDP checksum `field` bytes into the transport header, zeroed and then set to `cksum` of the
-- packet with the zero in it.
def setL4Cksum (packet : Packet) (field : Nat) (cksum : Mbuf → UInt16) : Packet :=
  let mbuf := packet.mbuf
  let addr := mbuf.mtod (packet.transportHeader.offset.toNat + field)
  let mbuf := { mbuf with mem := Mem.store16 mbuf.mem addr 0 }
  { packet with mbuf := { mbuf with mem := Mem.store16 mbuf.mem addr (cksum mbuf) } }

theorem setL4Cksum_eq (packet : Packet) (field : Nat) (cksum : Mbuf → UInt16) :
    packet.setL4Cksum field cksum =
      { packet with mbuf := { packet.mbuf with mem := (packet.setL4Cksum field cksum).mbuf.mem } } := rfl

theorem setL4Cksum_apply_of_disjoint (packet : Packet) (field : Nat) (cksum : Mbuf → UInt16) {a : Nat}
    (outside : a < packet.mbuf.mtod (packet.transportHeader.offset.toNat + field) ∨
      packet.mbuf.mtod (packet.transportHeader.offset.toNat + field) + 2 ≤ a) :
    (packet.setL4Cksum field cksum).mbuf.mem a = packet.mbuf.mem a := by
  simp only [setL4Cksum, Mem.store16_apply_of_disjoint outside]

@[simp] theorem setL4Cksum_dataOff (packet : Packet) (field : Nat) (cksum : Mbuf → UInt16) :
    (packet.setL4Cksum field cksum).mbuf.dataOff = packet.mbuf.dataOff := rfl

theorem load16_setL4Cksum (packet : Packet) (field : Nat) (cksum : Mbuf → UInt16) :
    Mem.load16 (packet.setL4Cksum field cksum).mbuf.mem (packet.mbuf.mtod (packet.transportHeader.offset.toNat + field)) =
      cksum { packet.mbuf with
        mem := Mem.store16 packet.mbuf.mem (packet.mbuf.mtod (packet.transportHeader.offset.toNat + field)) 0 } :=
  Mem.load16_of_bytes (Mem.bytes_store16_self _)

-- The ether type before the network header, and the header's type, set to `type`.
def setEtherType (packet : Packet) (offset : Nat) (type : UInt16) : Packet :=
  { packet with
    mbuf := { packet.mbuf with mem := Mem.store16 packet.mbuf.mem (packet.mbuf.mtod offset) (rte_cpu_to_be_16 type) }
    networkHeader := { packet.networkHeader with type := rte_cpu_to_be_16 type } }

theorem load16_setEtherType_of_disjoint (packet : Packet) (offset : Nat) (type : UInt16) {a : Nat}
    (outside : a + 2 ≤ packet.mbuf.mtod offset ∨ packet.mbuf.mtod offset + 2 ≤ a) :
    Mem.load16 (packet.setEtherType offset type).mbuf.mem a = Mem.load16 packet.mbuf.mem a := by
  simp (disch := omega) only [setEtherType, Mem.load16, Mem.store16_apply_of_disjoint]

end Packet

-- The offset nat64 rewrites the transport checksum at: UDP's dgram_cksum, TCP's cksum.
def l4CksumOffset (proto : UInt8) : Option Nat :=
  if proto = IPPROTO_UDP then some 6 else if proto = IPPROTO_TCP then some 16 else none

-- The byte at `a` is not in the checksum of a `proto` transport header at `th`.
def OutsideL4Cksum (proto : UInt8) (th a : Nat) : Prop :=
  ∀ field, l4CksumOffset proto = some field → a < th + field ∨ th + field + 2 ≤ a

end Yanet
