import Yanet.Dataplane.Packet
import Yanet.Fwstate.Fwmap

set_option autoImplicit false

-- The fwstate records (lib/fwstate/types.h, config.h, ops.h): the state keys with
-- the bytes fwmap hashes, the state value and the functions the state maps are
-- created with, and the packed sync frame as it lies in a packet.

namespace Yanet

open Mem

def FW_STATE_ADDR_TYPE_IP4 : UInt8 := 4
def FW_STATE_ADDR_TYPE_IP6 : UInt8 := 6

def FWSTATE_FIN : UInt8 := 0x01
def FWSTATE_SYN : UInt8 := 0x02
def FWSTATE_RST : UInt8 := 0x04
def FWSTATE_ACK : UInt8 := 0x08

def FWSTATE_TTL48_MAX : UInt64 := ((1 : UInt64) <<< 48) - 1

-- struct fw_state_key_hdr; `pad` is the member named `_`.
structure FwStateKeyHdr where
  proto : UInt16
  srcPort : UInt16
  dstPort : UInt16
  pad : UInt16
deriving DecidableEq, Repr

structure Fw4StateKey where
  hdr : FwStateKeyHdr
  srcAddr : UInt32
  dstAddr : UInt32
deriving DecidableEq, Repr

structure Fw6StateKey where
  hdr : FwStateKeyHdr
  srcAddr : Vector UInt8 16
  dstAddr : Vector UInt8 16
deriving DecidableEq, Repr

def FwStateKeyHdr.bytes (hdr : FwStateKeyHdr) : List UInt8 :=
  le16 hdr.proto ++ le16 hdr.srcPort ++ le16 hdr.dstPort ++ le16 hdr.pad

-- The 16 bytes of a key that fwmap_hash_fnv1a reads.
def Fw4StateKey.bytes (key : Fw4StateKey) : List UInt8 := key.hdr.bytes ++ le32 key.srcAddr ++ le32 key.dstAddr

-- The 40 bytes of a key that fwmap_hash_fnv1a reads.
def Fw6StateKey.bytes (key : Fw6StateKey) : List UInt8 := key.hdr.bytes ++ key.srcAddr.toList ++ key.dstAddr.toList

def fwmapFw4KeyEqual (k1 k2 : Fw4StateKey) : Bool :=
  k1.hdr.proto == k2.hdr.proto && k1.hdr.srcPort == k2.hdr.srcPort && k1.hdr.dstPort == k2.hdr.dstPort &&
    k1.srcAddr == k2.srcAddr && k1.dstAddr == k2.dstAddr

-- The `half`-th native `uint64_t` of a 16-byte address.
def addrHalf (addr : Vector UInt8 16) (half : Nat) : UInt64 :=
  UInt64.ofNat (((addr.toList.drop (8 * half)).take 8).foldr (fun byte acc => byte.toNat + 256 * acc) 0)

def fwmapFw6KeyEqual (k1 k2 : Fw6StateKey) : Bool :=
  k1.hdr.proto == k2.hdr.proto && k1.hdr.srcPort == k2.hdr.srcPort && k1.hdr.dstPort == k2.hdr.dstPort &&
    addrHalf k1.srcAddr 0 == addrHalf k2.srcAddr 0 && addrHalf k1.srcAddr 1 == addrHalf k2.srcAddr 1 &&
    addrHalf k1.dstAddr 0 == addrHalf k2.dstAddr 0 && addrHalf k1.dstAddr 1 == addrHalf k2.dstAddr 1

-- union fw_state_flags_u: the `src` nibble low, the `dst` nibble high.
def FwStateFlags.setSrc (raw nibble : UInt8) : UInt8 := (raw &&& (0xF0 : UInt8)) ||| (nibble &&& (0x0F : UInt8))

def FwStateFlags.setDst (raw nibble : UInt8) : UInt8 := (raw &&& (0x0F : UInt8)) ||| ((nibble &&& (0x0F : UInt8)) <<< 4)

def FwStateFlags.src (raw : UInt8) : UInt8 := raw &&& 0x0F

def FwStateFlags.dst (raw : UInt8) : UInt8 := (raw >>> 4) &&& 0x0F

def fwstateFlagsFromTcp (tcpFlags : UInt8) : UInt8 := (tcpFlags &&& (7 : UInt8)) ||| ((tcpFlags >>> 1) &&& FWSTATE_ACK)

structure FwStateValue where
  external : Bool
  flags : UInt8
  -- a 48-bit bitfield
  lastTtl : UInt64
  createdAt : UInt64
  updatedAt : UInt64
  packetsBackward : UInt64
  packetsForward : UInt64
deriving DecidableEq, Repr

structure FwstateTimeouts where
  tcpSynAck : UInt64
  tcpSyn : UInt64
  tcpFin : UInt64
  tcp : UInt64
  udp : UInt64
  default_ : UInt64
deriving DecidableEq, Repr

def fwstateValueSetLastTtl (value : FwStateValue) (ttlNs : UInt64) : FwStateValue :=
  { value with lastTtl := ttlNs &&& FWSTATE_TTL48_MAX }

def fwstateEntryTtl (proto : UInt16) (rawFlags : UInt8) (t : FwstateTimeouts) : UInt64 :=
  if proto = IPPROTO_UDP.toUInt16 then t.udp
  else if proto = IPPROTO_TCP.toUInt16 then
    let tcpFlags := FwStateFlags.src rawFlags ||| FwStateFlags.dst rawFlags
    let ttl :=
      if tcpFlags &&& FWSTATE_ACK ≠ 0 then t.tcpSynAck
      else if tcpFlags &&& FWSTATE_SYN ≠ 0 then t.tcpSyn
      else t.tcp
    if tcpFlags &&& FWSTATE_FIN ≠ 0 then t.tcpFin else ttl
  else t.default_

def fwmapUpdateValueFwstate (dst src : FwStateValue) (dstEmpty : Bool) : FwStateValue :=
  if dstEmpty then src
  else
    { src with
      createdAt := dst.createdAt
      flags := src.flags ||| dst.flags
      packetsForward := src.packetsForward + dst.packetsForward
      packetsBackward := src.packetsBackward + dst.packetsBackward }

-- Every field of the new slot is written, so its old contents do not matter.
def fwmapPromoteValueFwstate (_dst newValue oldValue : FwStateValue) : FwStateValue where
  external := newValue.external
  updatedAt := newValue.updatedAt
  createdAt := oldValue.createdAt
  lastTtl := newValue.lastTtl
  flags := newValue.flags ||| oldValue.flags
  packetsBackward := newValue.packetsBackward + oldValue.packetsBackward
  packetsForward := newValue.packetsForward + oldValue.packetsForward

-- fwstate_init_config: FNV-1a over the key bytes, the fwstate update and promote.
def fw4StateFuncs : FwmapFuncs Fw4StateKey FwStateValue where
  hash key seed := fwmapHashFnv1a key.bytes seed
  keyEqual := fwmapFw4KeyEqual
  updateValue := fwmapUpdateValueFwstate
  promoteValue := fwmapPromoteValueFwstate

def fw6StateFuncs : FwmapFuncs Fw6StateKey FwStateValue where
  hash key seed := fwmapHashFnv1a key.bytes seed
  keyEqual := fwmapFw6KeyEqual
  updateValue := fwmapUpdateValueFwstate
  promoteValue := fwmapPromoteValueFwstate

theorem fwmapFw4KeyEqual_self (key : Fw4StateKey) : fwmapFw4KeyEqual key key = true := by
  simp [fwmapFw4KeyEqual]

theorem fwmapFw6KeyEqual_self (key : Fw6StateKey) : fwmapFw6KeyEqual key key = true := by
  simp [fwmapFw6KeyEqual]

-- struct fw_state_sync_frame, packed: 56 bytes.
structure FwStateSyncFrame where
  dstIp : UInt32
  srcIp : UInt32
  dstPort : UInt16
  srcPort : UInt16
  fib : UInt8
  proto : UInt8
  flags : UInt8
  addrType : UInt8
  dstIp6 : Vector UInt8 16
  srcIp6 : Vector UInt8 16
  flowId6 : UInt32
  extra : UInt32
deriving DecidableEq, Repr

namespace FwStateSyncFrame

def zero : FwStateSyncFrame :=
  ⟨0, 0, 0, 0, 0, 0, 0, 0, Vector.replicate 16 0, Vector.replicate 16 0, 0, 0⟩

-- The frame written field by field at `addr`, in the packed layout.
def store (m : Memory) (addr : Nat) (frame : FwStateSyncFrame) : Memory :=
  let m := store32 m addr frame.dstIp
  let m := store32 m (addr + 4) frame.srcIp
  let m := store16 m (addr + 8) frame.dstPort
  let m := store16 m (addr + 10) frame.srcPort
  let m := store8 m (addr + 12) frame.fib
  let m := store8 m (addr + 13) frame.proto
  let m := store8 m (addr + 14) frame.flags
  let m := store8 m (addr + 15) frame.addrType
  let m := storeVector m (addr + 16) frame.dstIp6
  let m := storeVector m (addr + 32) frame.srcIp6
  let m := store32 m (addr + 48) frame.flowId6
  store32 m (addr + 52) frame.extra

-- The fields a `struct fw_state_sync_frame *` at `addr` reads.
def load (m : Memory) (addr : Nat) : FwStateSyncFrame where
  dstIp := load32 m addr
  srcIp := load32 m (addr + 4)
  dstPort := load16 m (addr + 8)
  srcPort := load16 m (addr + 10)
  fib := m (addr + 12)
  proto := m (addr + 13)
  flags := m (addr + 14)
  addrType := m (addr + 15)
  dstIp6 := loadVector m (addr + 16) 16
  srcIp6 := loadVector m (addr + 32) 16
  flowId6 := load32 m (addr + 48)
  extra := load32 m (addr + 52)

theorem bytes_store_of_disjoint {m : Memory} {addr a n : Nat} (frame : FwStateSyncFrame)
    (disjoint : a + n ≤ addr ∨ addr + 56 ≤ a) : bytes (store m addr frame) a n = bytes m a n := by
  simp (disch := omega) only [store, bytes_store32_of_disjoint, bytes_store16_of_disjoint, bytes_store8_of_disjoint,
    bytes_storeVector_of_disjoint]

theorem load_store (m : Memory) (addr : Nat) (frame : FwStateSyncFrame) : load (store m addr frame) addr = frame := by
  obtain ⟨dstIp, srcIp, dstPort, srcPort, fib, proto, flags, addrType, dstIp6, srcIp6, flowId6, extra⟩ := frame
  simp only [load, mk.injEq]
  -- each field is read back from its own store; every store after it lies elsewhere
  refine ⟨load32_of_bytes ?_, load32_of_bytes ?_, load16_of_bytes ?_, load16_of_bytes ?_, byte_of_bytes ?_,
    byte_of_bytes ?_, byte_of_bytes ?_, byte_of_bytes ?_, loadVector_of_bytes ?_, loadVector_of_bytes ?_,
    load32_of_bytes ?_, load32_of_bytes ?_⟩ <;>
  simp (disch := omega) only [store, bytes_store32_of_disjoint, bytes_store16_of_disjoint, bytes_store8_of_disjoint,
    bytes_storeVector_of_disjoint, bytes_store32_self, bytes_store16_self, bytes_store8_self, bytes_storeVector_self]

end FwStateSyncFrame

end Yanet
