import Yanet.Dataplane.Packet

set_option autoImplicit false

-- struct rte_ipv4_hdr, struct rte_ipv6_hdr and the IPv6 Fragment header as
-- they read from memory: multi-byte fields keep their network byte order, as
-- the C structs do, and addresses are their bytes.

namespace Yanet

open Mem

structure Ipv4Hdr where
  versionIhl : UInt8
  typeOfService : UInt8
  totalLength : UInt16
  packetId : UInt16
  fragmentOffset : UInt16
  timeToLive : UInt8
  nextProtoId : UInt8
  hdrChecksum : UInt16
  srcAddr : Vector UInt8 4
  dstAddr : Vector UInt8 4
deriving DecidableEq, Repr

def Ipv4Hdr.load (m : Memory) (a : Nat) : Ipv4Hdr :=
  ⟨m a, m (a + 1), load16 m (a + 2), load16 m (a + 4), load16 m (a + 6), m (a + 8), m (a + 9), load16 m (a + 10),
    loadVector m (a + 12) 4, loadVector m (a + 16) 4⟩

namespace Ipv4Hdr

theorem load_congr {m m' : Memory} {a : Nat} (same : ∀ i < 20, m' (a + i) = m (a + i)) : load m' a = load m a := by
  have first : m' a = m a := same 0 (by omega)
  simp (disch := omega) only [load, load16, loadVector, Nat.add_assoc, same, first]

theorem load_store16_cksum (m : Memory) (a : Nat) (cksum : UInt16) :
    load (store16 m (a + 10) cksum) a = { load m a with hdrChecksum := cksum } := by
  simp only [load]
  rw [load16_of_bytes (bytes_store16_self cksum)]
  simp (disch := omega) only [load16, loadVector, store16_apply_of_disjoint]

end Ipv4Hdr

structure Ipv6Hdr where
  vtcFlow : UInt32
  payloadLen : UInt16
  proto : UInt8
  hopLimits : UInt8
  srcAddr : Vector UInt8 16
  dstAddr : Vector UInt8 16
deriving DecidableEq, Repr

def Ipv6Hdr.load (m : Memory) (a : Nat) : Ipv6Hdr :=
  ⟨load32 m a, load16 m (a + 4), m (a + 6), m (a + 7), loadVector m (a + 8) 16, loadVector m (a + 24) 16⟩

namespace Ipv6Hdr

-- The header written field by field, as the dataplane writes one.
def store (m : Memory) (a : Nat) (hdr : Ipv6Hdr) : Memory :=
  let m := store32 m a hdr.vtcFlow
  let m := store16 m (a + 4) hdr.payloadLen
  let m := store8 m (a + 7) hdr.hopLimits
  let m := store8 m (a + 6) hdr.proto
  let m := storeVector m (a + 8) hdr.srcAddr
  storeVector m (a + 24) hdr.dstAddr

theorem store_apply_of_disjoint {m : Memory} {addr a : Nat} (hdr : Ipv6Hdr) (outside : a < addr ∨ addr + 40 ≤ a) :
    store m addr hdr a = m a := by
  simp (disch := omega) only [store, store8_other, store16_apply_of_disjoint, store32_apply_of_disjoint,
    storeVector_apply_of_disjoint]

theorem store_proto (m : Memory) (a : Nat) (hdr : Ipv6Hdr) : store m a hdr (a + 6) = hdr.proto :=
  byte_of_bytes (by simp (disch := omega) only [store, bytes_storeVector_of_disjoint, bytes_store8_self])

theorem load_store (m : Memory) (addr : Nat) (hdr : Ipv6Hdr) : load (store m addr hdr) addr = hdr := by
  obtain ⟨vtcFlow, payloadLen, proto, hopLimits, srcAddr, dstAddr⟩ := hdr
  simp only [load, mk.injEq]
  -- each field is read back from its own store; every store after it lies elsewhere
  refine ⟨load32_of_bytes ?_, load16_of_bytes ?_, byte_of_bytes ?_, byte_of_bytes ?_, loadVector_of_bytes ?_,
    loadVector_of_bytes ?_⟩ <;>
  simp (disch := omega) only [store, bytes_store16_of_disjoint, bytes_store8_of_disjoint,
    bytes_storeVector_of_disjoint, bytes_store32_self, bytes_store16_self, bytes_store8_self, bytes_storeVector_self]

theorem load_congr {m m' : Memory} {a : Nat} (same : ∀ i < 40, m' (a + i) = m (a + i)) : load m' a = load m a := by
  have first : m' a = m a := same 0 (by omega)
  simp (disch := omega) only [load, load32, load16, loadVector, Nat.add_assoc, same, first]

end Ipv6Hdr

-- struct rte_ipv6_fragment_ext.
structure Ipv6FragmentExt where
  nextHeader : UInt8
  reserved : UInt8
  fragData : UInt16
  id : UInt32
deriving DecidableEq, Repr

def Ipv6FragmentExt.load (m : Memory) (a : Nat) : Ipv6FragmentExt :=
  ⟨m a, m (a + 1), load16 m (a + 2), load32 m (a + 4)⟩

namespace Packet

def networkHeaderAddr (p : Packet) : Nat := p.mbuf.mtod p.networkHeader.offset.toNat

def transportHeaderAddr (p : Packet) : Nat := p.mbuf.mtod p.transportHeader.offset.toNat

def ipv4Hdr (p : Packet) : Ipv4Hdr := Ipv4Hdr.load p.mbuf.mem p.networkHeaderAddr

def ipv6Hdr (p : Packet) : Ipv6Hdr := Ipv6Hdr.load p.mbuf.mem p.networkHeaderAddr

end Packet

end Yanet
