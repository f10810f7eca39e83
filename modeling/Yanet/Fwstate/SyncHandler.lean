import Yanet.Fwstate.Lookup

set_option autoImplicit false

-- modules/fwstate/dataplane/dataplane.c: the fwstate module takes the sync
-- packets out of the packet stream and puts each of their frames into the state
-- map of its family. rte_ipv6_udptcp_cksum, which the pass-through of an
-- internal sync packet stores, is a parameter.

namespace Yanet

open Mem SyncPacket

structure FwstateConfig where
  fw4state : Layermap Fw4StateKey FwStateValue
  fw6state : Layermap Fw6StateKey FwStateValue
  syncConfig : FwstateSyncConfig

-- The claimed UDP payload length when it is fully resident, read as the C code reads it in 16 bits.
def fwstateSyncPayloadLen (mbuf : Mbuf) (ipv6Offset : Nat) (payloadOffset : UInt16) : Option UInt16 :=
  let avail := UInt16.ofNat mbuf.dataLen
  if avail < payloadOffset then none
  else
    let usable := avail - payloadOffset
    let claimed := rte_be_to_cpu_16 (mbuf.load16 (ipv6Offset + 4))
    if claimed < 8 then none
    else
      let claimedPayload := claimed - 8
      if usable < claimedPayload then none else some claimedPayload

def isFwStateSyncPacket (packet : Packet) (syncConfig : FwstateSyncConfig) : Bool :=
  let mbuf := packet.mbuf
  if mbuf.byte ethOffset &&& 1 = 0 then false
  else if mbuf.load16 (ethOffset + 12) ≠ rte_cpu_to_be_16 RTE_ETHER_TYPE_VLAN then false
  else if mbuf.load16 (vlanOffset + 2) ≠ rte_cpu_to_be_16 RTE_ETHER_TYPE_IPV6 then false
  else if packet.transportHeader.type ≠ IPPROTO_UDP.toUInt16 then false
  else if mbuf.load16 (udpOffset + 2) ≠ syncConfig.portMulticast then false
  else if mbuf.loadVector (ipv6Offset + 24) 16 ≠ syncConfig.dstAddrMulticast then false
  else
    match fwstateSyncPayloadLen mbuf ipv6Offset (UInt16.ofNat payloadOffset) with
    | none => false
    | some len => len % 56 = 0

-- struct fwstate: the TTL of a frame's state and its value.
structure Fwstate where
  ttl : UInt64
  value : FwStateValue

def fwstateBuildValue (syncFrame : FwStateSyncFrame) (isExternal : Bool) (now : UInt64) (timeouts : FwstateTimeouts) :
    Fwstate :=
  -- fib 0 is a forward (ingress) frame, any other a backward one
  let forward : UInt64 := if syncFrame.fib = 0 then 1 else 0
  let backward : UInt64 := if syncFrame.fib = 0 then 0 else 1
  let value : FwStateValue := ⟨isExternal, syncFrame.flags, 0, now, now, backward, forward⟩
  let ttl := fwstateEntryTtl syncFrame.proto.toUInt16 value.flags timeouts
  ⟨ttl, fwstateValueSetLastTtl value ttl⟩

-- The key of fwstate_process_sync_v4.
def fwstateSyncKeyV4 (syncFrame : FwStateSyncFrame) : Fw4StateKey :=
  ⟨⟨syncFrame.proto.toUInt16, syncFrame.srcPort, syncFrame.dstPort, 0⟩, syncFrame.srcIp, syncFrame.dstIp⟩

-- The key of fwstate_process_sync_v6.
def fwstateSyncKeyV6 (syncFrame : FwStateSyncFrame) : Fw6StateKey :=
  ⟨⟨syncFrame.proto.toUInt16, syncFrame.srcPort, syncFrame.dstPort, 0⟩, syncFrame.srcIp6, syncFrame.dstIp6⟩

-- A failed put is only logged.
def fwstateProcessSyncV4 (fw4state : Layermap Fw4StateKey FwStateValue) (workerIdx : Nat) (syncFrame : FwStateSyncFrame)
    (isExternal : Bool) (now : UInt64) (timeouts : FwstateTimeouts) : Layermap Fw4StateKey FwStateValue :=
  let state := fwstateBuildValue syncFrame isExternal now timeouts
  (layermapPut fw4StateFuncs fw4state workerIdx now state.ttl (fwstateSyncKeyV4 syncFrame) state.value).1

def fwstateProcessSyncV6 (fw6state : Layermap Fw6StateKey FwStateValue) (workerIdx : Nat) (syncFrame : FwStateSyncFrame)
    (isExternal : Bool) (now : UInt64) (timeouts : FwstateTimeouts) : Layermap Fw6StateKey FwStateValue :=
  let state := fwstateBuildValue syncFrame isExternal now timeouts
  (layermapPut fw6StateFuncs fw6state workerIdx now state.ttl (fwstateSyncKeyV6 syncFrame) state.value).1

-- The body of the frame loop: the frame goes to the map of its address type, any other type is skipped.
def fwstateProcessSyncFrame (workerIdx : Nat) (isExternal : Bool) (now : UInt64) (cfg : FwstateConfig)
    (syncFrame : FwStateSyncFrame) : FwstateConfig :=
  if syncFrame.addrType = FW_STATE_ADDR_TYPE_IP4 then
    { cfg with fw4state := fwstateProcessSyncV4 cfg.fw4state workerIdx syncFrame isExternal now cfg.syncConfig.timeouts }
  else if syncFrame.addrType = FW_STATE_ADDR_TYPE_IP6 then
    { cfg with fw6state := fwstateProcessSyncV6 cfg.fw6state workerIdx syncFrame isExternal now cfg.syncConfig.timeouts }
  else cfg

-- The `frameCount` frames of a sync packet's payload.
def fwstateSyncFrames (mbuf : Mbuf) (frameCount : Nat) : List FwStateSyncFrame :=
  (List.range frameCount).map fun idx => FwStateSyncFrame.load mbuf.mem (mbuf.mtod (payloadOffset + idx * 56))

inductive FwstateVerdict where
  | output
  | drop
deriving DecidableEq, Repr

-- One packet of fwstate_handle_packets: the maps after it, the packet as it leaves, and where it goes.
def fwstateHandlePacket (dpdk : Dpdk) (workerIdx : Nat) (now : UInt64)
    (cfg : FwstateConfig) (packet : Packet) : FwstateConfig × Packet × FwstateVerdict :=
  if !isFwStateSyncPacket packet cfg.syncConfig then (cfg, packet, .output)
  else
    let mbuf := packet.mbuf
    -- a sync packet with a source address came from another firewall
    let isExternal := mbuf.loadVector (ipv6Offset + 8) 16 ≠ Vector.replicate 16 0
    match fwstateSyncPayloadLen mbuf ipv6Offset (UInt16.ofNat payloadOffset) with
    | none => (cfg, packet, .output)
    | some udpPayloadLen =>
      let frames := fwstateSyncFrames mbuf (udpPayloadLen.toNat / 56)
      let cfg := frames.foldl (fwstateProcessSyncFrame workerIdx isExternal now) cfg
      if isExternal then (cfg, packet, .drop)
      else
        let mem := storeVector mbuf.mem (mbuf.mtod (ipv6Offset + 8)) cfg.syncConfig.srcAddr
        let mem := store16 mem (mbuf.mtod (udpOffset + 6)) 0
        let mem := store16 mem (mbuf.mtod (udpOffset + 6)) (dpdk.rteIpv6UdptcpCksum mem (mbuf.mtod ipv6Offset) (mbuf.mtod udpOffset))
        (cfg, { packet with mbuf := { mbuf with mem } }, .output)

-- fwstate_handle_packets over a packet list: the maps, the packets output and the packets dropped.
def fwstateHandlePackets (dpdk : Dpdk) (workerIdx : Nat) (now : UInt64) :
    FwstateConfig → List Packet → FwstateConfig × List Packet × List Packet
  | cfg, [] => (cfg, [], [])
  | cfg, packet :: packets =>
    let (cfg, packet, verdict) := fwstateHandlePacket dpdk workerIdx now cfg packet
    let (cfg, output, dropped) := fwstateHandlePackets dpdk workerIdx now cfg packets
    match verdict with
    | .output => (cfg, packet :: output, dropped)
    | .drop => (cfg, output, packet :: dropped)

end Yanet
