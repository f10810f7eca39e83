import Yanet.Dataplane.Dpdk
import Yanet.Fwstate.Types

set_option autoImplicit false

-- lib/fwstate/sync.c: the sync frame a packet's 5-tuple is written into, and the
-- sync packet around it (Ethernet, VLAN, IPv6, UDP, frame). The frame is built
-- as a value and then written in its packed layout, which leaves the same bytes
-- as the C code's memset and field assignments.

namespace Yanet

open Mem

inductive SyncPacketDirection where
  | SYNC_NONE
  | SYNC_INGRESS
  | SYNC_EGRESS
deriving DecidableEq, Repr

-- struct fwstate_sync_config, less the unicast address and port, which nothing modelled reads.
structure FwstateSyncConfig where
  srcAddr : Vector UInt8 16
  dstEther : Vector UInt8 6
  dstAddrMulticast : Vector UInt8 16
  -- in network byte order
  portMulticast : UInt16
  timeouts : FwstateTimeouts

-- The addresses and protocol of the network header, swapped for SYNC_EGRESS.
def fwstateFillSyncAddrs (packet : Packet) (egress : Bool) (frame : FwStateSyncFrame) : FwStateSyncFrame :=
  if packet.networkHeader.type = rte_cpu_to_be_16 RTE_ETHER_TYPE_IPV4 then
    let src := packet.ipv4SrcAddr
    let dst := packet.ipv4DstAddr
    let frame := { frame with proto := packet.ipv4NextProtoId, addrType := FW_STATE_ADDR_TYPE_IP4 }
    if egress then { frame with srcIp := dst, dstIp := src } else { frame with srcIp := src, dstIp := dst }
  else if packet.networkHeader.type = rte_cpu_to_be_16 RTE_ETHER_TYPE_IPV6 then
    let src := packet.ipv6SrcAddr
    let dst := packet.ipv6DstAddr
    let frame := { frame with proto := packet.ipv6Proto, addrType := FW_STATE_ADDR_TYPE_IP6 }
    let frame := if egress then { frame with srcIp6 := dst, dstIp6 := src } else { frame with srcIp6 := src, dstIp6 := dst }
    { frame with flowId6 := rte_be_to_cpu_32 packet.ipv6VtcFlow &&& 0x000FFFFF }
  else frame

-- The ports in host order, swapped for SYNC_EGRESS, and for TCP the packet's flags in the nibble of
-- its side.
def fwstateFillSyncPorts (packet : Packet) (egress : Bool) (frame : FwStateSyncFrame) : FwStateSyncFrame :=
  let src := rte_be_to_cpu_16 packet.l4SrcPort
  let dst := rte_be_to_cpu_16 packet.l4DstPort
  if frame.proto = IPPROTO_TCP then
    let flags := fwstateFlagsFromTcp packet.tcpFlags
    if egress then { frame with srcPort := dst, dstPort := src, flags := FwStateFlags.setDst frame.flags flags }
    else { frame with srcPort := src, dstPort := dst, flags := FwStateFlags.setSrc frame.flags flags }
  else if frame.proto = IPPROTO_UDP then
    if egress then { frame with srcPort := dst, dstPort := src } else { frame with srcPort := src, dstPort := dst }
  else frame

def fwstateFillSyncFrame (packet : Packet) (direction : SyncPacketDirection) : FwStateSyncFrame :=
  let egress := direction == .SYNC_EGRESS
  let frame := { FwStateSyncFrame.zero with fib := if egress then 1 else 0 }
  fwstateFillSyncPorts packet egress (fwstateFillSyncAddrs packet egress frame)

namespace SyncPacket

-- Where each header of a sync packet starts, as sizeof the headers before it.
def ethOffset : Nat := 0
def vlanOffset : Nat := ethOffset + 14
def ipv6Offset : Nat := vlanOffset + 4
def udpOffset : Nat := ipv6Offset + 40
def payloadOffset : Nat := udpOffset + 8

end SyncPacket

open SyncPacket

-- The header writes of fwstate_craft_state_sync_packet, `pos` giving the address of an offset.
def fwstateSyncHeaders (syncConfig : FwstateSyncConfig) (m : Memory) (pos : Nat → Nat) : Memory :=
  let m := store16 m (pos (ethOffset + 12)) (rte_cpu_to_be_16 RTE_ETHER_TYPE_VLAN)
  let m := storeVector m (pos ethOffset) syncConfig.dstEther
  let m := store16 m (pos (vlanOffset + 2)) (rte_cpu_to_be_16 RTE_ETHER_TYPE_IPV6)
  let m := store32 m (pos ipv6Offset) (rte_cpu_to_be_32 ((0x6 : UInt32) <<< 28))
  let m := store16 m (pos (ipv6Offset + 4)) (rte_cpu_to_be_16 (8 + 56))
  let m := store8 m (pos (ipv6Offset + 6)) IPPROTO_UDP
  let m := store8 m (pos (ipv6Offset + 7)) 64
  let m := fill m (pos (ipv6Offset + 8)) 16 0
  let m := storeVector m (pos (ipv6Offset + 24)) syncConfig.dstAddrMulticast
  let m := store16 m (pos udpOffset) syncConfig.portMulticast
  let m := store16 m (pos (udpOffset + 2)) syncConfig.portMulticast
  let m := store16 m (pos (udpOffset + 4)) (rte_cpu_to_be_16 (8 + 56))
  store16 m (pos (udpOffset + 6)) 0

-- The appended buffer with the headers and the frame written into it.
def fwstateSyncPacketMbuf (syncConfig : FwstateSyncConfig) (packet : Packet) (direction : SyncPacketDirection)
    (mbuf : Mbuf) : Mbuf :=
  let mem := fwstateSyncHeaders syncConfig mbuf.mem mbuf.mtod
  { mbuf with mem := FwStateSyncFrame.store mem (mbuf.mtod payloadOffset) (fwstateFillSyncFrame packet direction) }

def fwstateCraftStateSyncPacket (dpdk : Dpdk) (syncConfig : FwstateSyncConfig) (packet : Packet) (direction : SyncPacketDirection)
    (syncPkt : Packet) : Option Packet :=
  match dpdk.rtePktmbufAppend syncPkt.mbuf (payloadOffset + 56) with
  | none => none
  | some mbuf =>
    let mbuf := fwstateSyncPacketMbuf syncConfig packet direction mbuf
    some { syncPkt with
      mbuf
      rxDeviceId := packet.rxDeviceId
      txDeviceId := packet.txDeviceId
      networkHeader := ⟨rte_cpu_to_be_16 RTE_ETHER_TYPE_IPV6, UInt16.ofNat ipv6Offset⟩
      transportHeader := ⟨IPPROTO_UDP.toUInt16, UInt16.ofNat udpOffset⟩
      dataLen := UInt16.ofNat mbuf.dataLen }

end Yanet
