import Yanet.Fwstate.SyncHandler
import Yanet.Fwstate.FwmapShape

set_option autoImplicit false

-- A sync frame names the state its replies look up. The two paths meet at the
-- frame: the craft writes it into a sync packet that the fwstate module accepts
-- and reads back whole, and the key the module puts the frame under is the key
-- fwstate_check_state builds from a reply, for either family and either
-- direction.

namespace Yanet

open Mem SyncPacket

-- The sync packet as the module reads it

section Crafted

variable (syncConfig : FwstateSyncConfig) (packet : Packet) (direction : SyncPacketDirection) (mbuf : Mbuf)

theorem syncPacketMbuf_headers :
    let m := fwstateSyncPacketMbuf syncConfig packet direction mbuf
    m.byte ethOffset = syncConfig.dstEther[0] ∧
    m.load16 (ethOffset + 12) = rte_cpu_to_be_16 RTE_ETHER_TYPE_VLAN ∧
    m.load16 (vlanOffset + 2) = rte_cpu_to_be_16 RTE_ETHER_TYPE_IPV6 ∧
    m.load16 (ipv6Offset + 4) = rte_cpu_to_be_16 (8 + 56) ∧
    m.loadVector (ipv6Offset + 8) 16 = Vector.replicate 16 0 ∧
    m.loadVector (ipv6Offset + 24) 16 = syncConfig.dstAddrMulticast ∧
    m.load16 (udpOffset + 2) = syncConfig.portMulticast := by
  intro m
  -- each field is read back from the store that wrote it; the later stores, the frame's included, lie elsewhere
  refine ⟨show m.mem (m.mtod ethOffset) = _ from byte_of_bytes ?_, load16_of_bytes ?_, load16_of_bytes ?_,
    load16_of_bytes ?_, loadVector_of_bytes ?_, loadVector_of_bytes ?_, load16_of_bytes ?_⟩ <;>
  simp only [m, fwstateSyncPacketMbuf, fwstateSyncHeaders, Mbuf.mtod, ethOffset, vlanOffset, ipv6Offset, udpOffset,
    payloadOffset] <;>
  simp (disch := omega) only [FwStateSyncFrame.bytes_store_of_disjoint, bytes_store8_of_disjoint,
    bytes_store16_of_disjoint, bytes_store32_of_disjoint, bytes_storeVector_of_disjoint, bytes_fill_of_disjoint,
    bytes_store16_self, bytes_storeVector_self, bytes_fill_self, Vector.toList_replicate]
  -- the first of the six bytes the destination address wrote
  exact bytes_storeVector_head _ (by decide)

theorem syncPacketMbuf_frame :
    FwStateSyncFrame.load (fwstateSyncPacketMbuf syncConfig packet direction mbuf).mem
      ((fwstateSyncPacketMbuf syncConfig packet direction mbuf).mtod payloadOffset) =
      fwstateFillSyncFrame packet direction :=
  FwStateSyncFrame.load_store _ _ _

end Crafted

theorem fwstateSyncPayloadLen_of_claimed (mbuf : Mbuf) (claimed : mbuf.load16 (ipv6Offset + 4) = rte_cpu_to_be_16 (8 + 56))
    (room : payloadOffset + 56 ≤ mbuf.dataLen) (fits : mbuf.dataLen < 65536) :
    fwstateSyncPayloadLen mbuf ipv6Offset (UInt16.ofNat payloadOffset) = some 56 := by
  have avail : (UInt16.ofNat mbuf.dataLen).toNat = mbuf.dataLen := UInt16.toNat_ofNat_of_lt' fits
  have offset : (UInt16.ofNat payloadOffset).toNat = 66 := rfl
  rw [show payloadOffset = 66 from rfl] at room
  have usable : (UInt16.ofNat mbuf.dataLen - UInt16.ofNat payloadOffset).toNat = mbuf.dataLen - 66 := by
    rw [UInt16.toNat_sub_of_le _ _ (by rw [UInt16.le_iff_toNat_le, avail, offset]; omega), avail, offset]
  have swap : rte_be_to_cpu_16 (rte_cpu_to_be_16 (8 + 56)) = 64 := by decide
  simp only [fwstateSyncPayloadLen, claimed, swap, UInt16.lt_iff_toNat_lt, avail, offset, usable]
  rw [if_neg (by omega), if_neg (by decide), if_neg (by rw [show (64 - 8 : UInt16).toNat = 56 from rfl]; omega)]
  rfl

theorem fwstateCraftStateSyncPacket_some {dpdk : Dpdk} {syncConfig : FwstateSyncConfig} {packet syncPkt sync : Packet}
    {direction : SyncPacketDirection}
    (crafted : fwstateCraftStateSyncPacket dpdk syncConfig packet direction syncPkt = some sync) :
    ∃ mbuf, dpdk.rtePktmbufAppend syncPkt.mbuf (payloadOffset + 56) = some mbuf ∧
      sync.mbuf = fwstateSyncPacketMbuf syncConfig packet direction mbuf ∧
      sync.transportHeader.type = IPPROTO_UDP.toUInt16 := by
  simp only [fwstateCraftStateSyncPacket] at crafted
  split at crafted
  · cases crafted
  · rename_i mbuf appended
    cases crafted
    exact ⟨mbuf, appended, rfl, rfl⟩


section Received

variable {dpdk : Dpdk} {syncConfig : FwstateSyncConfig} {packet syncPkt sync : Packet} {direction : SyncPacketDirection}

theorem crafted_dataLen (documented : dpdk.Documented) (fits : syncPkt.mbuf.bufLen < 65536)
    (crafted : fwstateCraftStateSyncPacket dpdk syncConfig packet direction syncPkt = some sync) :
    payloadOffset + 56 ≤ sync.mbuf.dataLen ∧ sync.mbuf.dataLen < 65536 := by
  obtain ⟨mbuf, appended, hmbuf, -⟩ := fwstateCraftStateSyncPacket_some crafted
  obtain ⟨-, len, buf, within⟩ := documented.append _ _ _ appended
  rw [hmbuf]
  exact ⟨by simp only [fwstateSyncPacketMbuf]; omega, by simp only [fwstateSyncPacketMbuf]; omega⟩

theorem isFwStateSyncPacket_crafted (documented : dpdk.Documented) (multicast : syncConfig.dstEther[0] &&& 1 = 1) (fits : syncPkt.mbuf.bufLen < 65536)
    (crafted : fwstateCraftStateSyncPacket dpdk syncConfig packet direction syncPkt = some sync) :
    isFwStateSyncPacket sync syncConfig = true := by
  obtain ⟨room, short⟩ := crafted_dataLen documented fits crafted
  obtain ⟨mbuf, -, hmbuf, htype⟩ := fwstateCraftStateSyncPacket_some crafted
  rw [hmbuf] at room short
  obtain ⟨eth, vlan, ipv6, claimed, -, dst, port⟩ := syncPacketMbuf_headers syncConfig packet direction mbuf
  have payload := fwstateSyncPayloadLen_of_claimed _ claimed room short
  simp [isFwStateSyncPacket, hmbuf, htype, eth, multicast, vlan, ipv6, port, dst, payload]

theorem fwstateSyncFrames_crafted (crafted : fwstateCraftStateSyncPacket dpdk syncConfig packet direction syncPkt = some sync) :
    fwstateSyncFrames sync.mbuf ((56 : UInt16).toNat / 56) = [fwstateFillSyncFrame packet direction] := by
  obtain ⟨mbuf, -, hmbuf, -⟩ := fwstateCraftStateSyncPacket_some crafted
  have frame := syncPacketMbuf_frame syncConfig packet direction mbuf
  simp only [fwstateSyncFrames, hmbuf]
  simpa using frame

theorem fwstateHandlePacket_crafted (documented : dpdk.Documented) (workerIdx : Nat) (now : UInt64)
    {cfg : FwstateConfig} (multicast : cfg.syncConfig.dstEther[0] &&& 1 = 1) (fits : syncPkt.mbuf.bufLen < 65536)
    (crafted : fwstateCraftStateSyncPacket dpdk cfg.syncConfig packet direction syncPkt = some sync) :
    (fwstateHandlePacket dpdk workerIdx now cfg sync).1 =
      fwstateProcessSyncFrame workerIdx false now cfg (fwstateFillSyncFrame packet direction) := by
  have accepted := isFwStateSyncPacket_crafted documented multicast fits crafted
  obtain ⟨room, short⟩ := crafted_dataLen documented fits crafted
  obtain ⟨mbuf, -, hmbuf, -⟩ := fwstateCraftStateSyncPacket_some crafted
  obtain ⟨-, -, -, claimed, internal, -, -⟩ := syncPacketMbuf_headers cfg.syncConfig packet direction mbuf
  rw [← hmbuf] at claimed internal
  have payload := fwstateSyncPayloadLen_of_claimed _ claimed room short
  simp only [fwstateHandlePacket, accepted, internal, payload, fwstateSyncFrames_crafted crafted]
  simp

end Received

-- The key the frame is put under

def FwStateKeyHdr.reverse (hdr : FwStateKeyHdr) : FwStateKeyHdr := { hdr with srcPort := hdr.dstPort, dstPort := hdr.srcPort }

-- The key of the flow's other direction.
def Fw4StateKey.reverse (key : Fw4StateKey) : Fw4StateKey := ⟨key.hdr.reverse, key.dstAddr, key.srcAddr⟩

def Fw6StateKey.reverse (key : Fw6StateKey) : Fw6StateKey := ⟨key.hdr.reverse, key.dstAddr, key.srcAddr⟩

-- For TCP and UDP, `r` carries `p`'s ports the other way round.
def PortsSwapped (proto : UInt8) (p r : Packet) : Prop :=
  proto = IPPROTO_TCP ∨ proto = IPPROTO_UDP → r.l4SrcPort = p.l4DstPort ∧ r.l4DstPort = p.l4SrcPort

-- `r` goes the other way on `p`'s flow: the same family and protocol, the addresses swapped, and the
-- ports swapped where the protocol has them.
def IsReply (p r : Packet) : Prop :=
  r.networkHeader.type = p.networkHeader.type ∧
    if p.networkHeader.type = rte_cpu_to_be_16 RTE_ETHER_TYPE_IPV4 then
      r.ipv4NextProtoId = p.ipv4NextProtoId ∧ r.ipv4SrcAddr = p.ipv4DstAddr ∧ r.ipv4DstAddr = p.ipv4SrcAddr ∧
        PortsSwapped p.ipv4NextProtoId p r
    else
      r.ipv6Proto = p.ipv6Proto ∧ r.ipv6SrcAddr = p.ipv6DstAddr ∧ r.ipv6DstAddr = p.ipv6SrcAddr ∧
        PortsSwapped p.ipv6Proto p r

theorem fwstateExtractPorts_toUInt16 (packet : Packet) (proto : UInt8) :
    fwstateExtractPorts packet proto.toUInt16 =
      if proto = IPPROTO_TCP ∨ proto = IPPROTO_UDP then
        (rte_be_to_cpu_16 packet.l4SrcPort, rte_be_to_cpu_16 packet.l4DstPort)
      else (0, 0) := by
  simp only [fwstateExtractPorts, UInt8.toUInt16_inj]

theorem fwstateExtractPorts_reply {proto : UInt8} {p r : Packet} (swapped : PortsSwapped proto p r) :
    fwstateExtractPorts r proto.toUInt16 =
      ((fwstateExtractPorts p proto.toUInt16).2, (fwstateExtractPorts p proto.toUInt16).1) := by
  rw [fwstateExtractPorts_toUInt16, fwstateExtractPorts_toUInt16]
  by_cases ported : proto = IPPROTO_TCP ∨ proto = IPPROTO_UDP
  · obtain ⟨src, dst⟩ := swapped ported
    simp [ported, src, dst]
  · simp [ported]

section Family

variable {p r : Packet}

theorem fwstateBuildStateKeyV4_reply (v4 : p.networkHeader.type = rte_cpu_to_be_16 RTE_ETHER_TYPE_IPV4)
    (reply : IsReply p r) : fwstateBuildStateKeyV4 r = (fwstateBuildStateKeyV4 p).reverse := by
  obtain ⟨-, same⟩ := reply
  rw [if_pos v4] at same
  obtain ⟨proto, src, dst, ports⟩ := same
  simp only [fwstateBuildStateKeyV4, proto, src, dst, fwstateExtractPorts_reply ports, Fw4StateKey.reverse,
    FwStateKeyHdr.reverse]

theorem fwstateBuildStateKeyV6_reply (v6 : p.networkHeader.type ≠ rte_cpu_to_be_16 RTE_ETHER_TYPE_IPV4)
    (reply : IsReply p r) : fwstateBuildStateKeyV6 r = (fwstateBuildStateKeyV6 p).reverse := by
  obtain ⟨-, same⟩ := reply
  rw [if_neg v6] at same
  obtain ⟨proto, src, dst, ports⟩ := same
  simp only [fwstateBuildStateKeyV6, proto, src, dst, fwstateExtractPorts_reply ports, Fw6StateKey.reverse,
    FwStateKeyHdr.reverse]

theorem fwstateSyncKeyV4_fill (v4 : p.networkHeader.type = rte_cpu_to_be_16 RTE_ETHER_TYPE_IPV4)
    (direction : SyncPacketDirection) :
    fwstateSyncKeyV4 (fwstateFillSyncFrame p direction) =
      if direction = .SYNC_EGRESS then fwstateBuildStateKeyV4 p else (fwstateBuildStateKeyV4 p).reverse := by
  simp only [fwstateFillSyncFrame, fwstateFillSyncAddrs, if_pos v4, fwstateFillSyncPorts, fwstateSyncKeyV4,
    fwstateBuildStateKeyV4, fwstateExtractPorts_toUInt16, Fw4StateKey.reverse, FwStateKeyHdr.reverse]
  have distinct : IPPROTO_UDP ≠ IPPROTO_TCP := by decide
  cases direction <;> by_cases tcp : p.ipv4NextProtoId = IPPROTO_TCP <;>
    by_cases udp : p.ipv4NextProtoId = IPPROTO_UDP <;> simp [tcp, udp, distinct, FwStateSyncFrame.zero]

theorem fwstateSyncKeyV6_fill (v4 : p.networkHeader.type ≠ rte_cpu_to_be_16 RTE_ETHER_TYPE_IPV4)
    (v6 : p.networkHeader.type = rte_cpu_to_be_16 RTE_ETHER_TYPE_IPV6) (direction : SyncPacketDirection) :
    fwstateSyncKeyV6 (fwstateFillSyncFrame p direction) =
      if direction = .SYNC_EGRESS then fwstateBuildStateKeyV6 p else (fwstateBuildStateKeyV6 p).reverse := by
  simp only [fwstateFillSyncFrame, fwstateFillSyncAddrs, if_neg v4, if_pos v6, fwstateFillSyncPorts, fwstateSyncKeyV6,
    fwstateBuildStateKeyV6, fwstateExtractPorts_toUInt16, Fw6StateKey.reverse, FwStateKeyHdr.reverse]
  have distinct : IPPROTO_UDP ≠ IPPROTO_TCP := by decide
  cases direction <;> by_cases tcp : p.ipv6Proto = IPPROTO_TCP <;>
    by_cases udp : p.ipv6Proto = IPPROTO_UDP <;> simp [tcp, udp, distinct, FwStateSyncFrame.zero]

end Family

theorem fwstateFillSyncPorts_addrType (packet : Packet) (egress : Bool) (frame : FwStateSyncFrame) :
    (fwstateFillSyncPorts packet egress frame).addrType = frame.addrType := by
  simp only [fwstateFillSyncPorts]
  split_ifs <;> rfl

theorem fwstateFillSyncFrame_addrType (packet : Packet) (direction : SyncPacketDirection) :
    (fwstateFillSyncFrame packet direction).addrType =
      if packet.networkHeader.type = rte_cpu_to_be_16 RTE_ETHER_TYPE_IPV4 then FW_STATE_ADDR_TYPE_IP4
      else if packet.networkHeader.type = rte_cpu_to_be_16 RTE_ETHER_TYPE_IPV6 then FW_STATE_ADDR_TYPE_IP6
      else 0 := by
  simp only [fwstateFillSyncFrame, fwstateFillSyncPorts_addrType, fwstateFillSyncAddrs]
  split_ifs <;> rfl

-- The frame goes to the map of `r`'s family, under the key fwstate_check_state looks `r` up by: the same
-- key, so one the map's key comparison accepts and its hash sends to the same bucket.
def SyncFrameNames (frame : FwStateSyncFrame) (r : Packet) : Prop :=
  if r.networkHeader.type = rte_cpu_to_be_16 RTE_ETHER_TYPE_IPV4 then
    frame.addrType = FW_STATE_ADDR_TYPE_IP4 ∧ fwstateSyncKeyV4 frame = fwstateBuildStateKeyV4 r ∧
      fwmapFw4KeyEqual (fwstateSyncKeyV4 frame) (fwstateBuildStateKeyV4 r) = true ∧
      ∀ seed, fwmapHashFnv1a (fwstateSyncKeyV4 frame).bytes seed = fwmapHashFnv1a (fwstateBuildStateKeyV4 r).bytes seed
  else
    frame.addrType = FW_STATE_ADDR_TYPE_IP6 ∧ fwstateSyncKeyV6 frame = fwstateBuildStateKeyV6 r ∧
      fwmapFw6KeyEqual (fwstateSyncKeyV6 frame) (fwstateBuildStateKeyV6 r) = true ∧
      ∀ seed, fwmapHashFnv1a (fwstateSyncKeyV6 frame).bytes seed = fwmapHashFnv1a (fwstateBuildStateKeyV6 r).bytes seed

section Names

variable {p r src : Packet} {direction : SyncPacketDirection}

theorem syncFrameNames_of_reply
    (ip : p.networkHeader.type = rte_cpu_to_be_16 RTE_ETHER_TYPE_IPV4 ∨
      p.networkHeader.type = rte_cpu_to_be_16 RTE_ETHER_TYPE_IPV6)
    (reply : IsReply p r) (source : direction = .SYNC_INGRESS ∧ src = p ∨ direction = .SYNC_EGRESS ∧ src = r) :
    SyncFrameNames (fwstateFillSyncFrame src direction) r := by
  have family : r.networkHeader.type = p.networkHeader.type := reply.1
  have sameFamily : src.networkHeader.type = p.networkHeader.type := by
    rcases source with ⟨-, rfl⟩ | ⟨-, rfl⟩
    · rfl
    · exact family
  rw [SyncFrameNames, family, fwstateFillSyncFrame_addrType, sameFamily]
  by_cases v4 : p.networkHeader.type = rte_cpu_to_be_16 RTE_ETHER_TYPE_IPV4
  · have key : fwstateSyncKeyV4 (fwstateFillSyncFrame src direction) = fwstateBuildStateKeyV4 r := by
      rcases source with ⟨rfl, rfl⟩ | ⟨rfl, rfl⟩
      · rw [fwstateSyncKeyV4_fill v4, fwstateBuildStateKeyV4_reply v4 reply]
        rfl
      · rw [fwstateSyncKeyV4_fill (family.trans v4)]
        rfl
    rw [if_pos v4, if_pos v4, key]
    exact ⟨rfl, rfl, fwmapFw4KeyEqual_self _, fun _ => rfl⟩
  · have v6 := ip.resolve_left v4
    have key : fwstateSyncKeyV6 (fwstateFillSyncFrame src direction) = fwstateBuildStateKeyV6 r := by
      rcases source with ⟨rfl, rfl⟩ | ⟨rfl, rfl⟩
      · rw [fwstateSyncKeyV6_fill v4 v6, fwstateBuildStateKeyV6_reply v4 reply]
        rfl
      · rw [fwstateSyncKeyV6_fill (family ▸ v4) (family.trans v6)]
        rfl
    rw [if_neg v4, if_neg v4, if_pos v6, key]
    exact ⟨rfl, rfl, fwmapFw6KeyEqual_self _, fun _ => rfl⟩

end Names

-- The state the frame puts

-- Each timeout gives a deadline after `now` that fits in 64 bits.
def FwstateTimeouts.After (t : FwstateTimeouts) (now : UInt64) : Prop :=
  ∀ ttl ∈ [t.tcpSynAck, t.tcpSyn, t.tcpFin, t.tcp, t.udp, t.default_], now < now + ttl

def FwstateShaped (cfg : FwstateConfig) : Prop := FwmapShape cfg.fw4state.active ∧ FwmapShape cfg.fw6state.active

-- The frame's state goes into the map of `r`'s family under the key fwstate_check_state looks `r` up by.
-- Once the put takes a slot, that check finds the state, and a lookup of the key finds the frame's value
-- when no layer held the key live before.
def SyncFrameInserts (workerIdx : Nat) (now : UInt64) (cfg cfg' : FwstateConfig) (frame : FwStateSyncFrame)
    (r : Packet) : Prop :=
  let state := fwstateBuildValue frame false now cfg.syncConfig.timeouts
  if r.networkHeader.type = rte_cpu_to_be_16 RTE_ETHER_TYPE_IPV4 then
    let put := layermapPut fw4StateFuncs cfg.fw4state workerIdx now state.ttl (fwstateBuildStateKeyV4 r) state.value
    cfg' = { cfg with fw4state := put.1 } ∧
      (put.2 ≠ -1 → (fwstateCheckState cfg'.fw4state cfg'.fw6state r now).1 = true ∧
        (layermapGet fw4StateFuncs cfg.fw4state now (fwstateBuildStateKeyV4 r) = none →
          layermapGet fw4StateFuncs cfg'.fw4state now (fwstateBuildStateKeyV4 r) = some state.value))
  else
    let put := layermapPut fw6StateFuncs cfg.fw6state workerIdx now state.ttl (fwstateBuildStateKeyV6 r) state.value
    cfg' = { cfg with fw6state := put.1 } ∧
      (put.2 ≠ -1 → (fwstateCheckState cfg'.fw4state cfg'.fw6state r now).1 = true ∧
        (layermapGet fw6StateFuncs cfg.fw6state now (fwstateBuildStateKeyV6 r) = none →
          layermapGet fw6StateFuncs cfg'.fw6state now (fwstateBuildStateKeyV6 r) = some state.value))

theorem fwstateEntryTtl_after {t : FwstateTimeouts} {now : UInt64} (after : t.After now) (proto : UInt16)
    (flags : UInt8) : now < now + fwstateEntryTtl proto flags t := by
  apply after
  simp only [fwstateEntryTtl]
  split_ifs <;> simp

theorem ne_zero_of_lt_add {now ttl : UInt64} (h : now < now + ttl) : now + ttl ≠ 0 := by
  intro zero
  rw [zero] at h
  exact UInt64.not_lt_zero h

theorem fwmapUpdateValueFwstate_empty (dst src : FwStateValue) : fwmapUpdateValueFwstate dst src true = src := by
  simp [fwmapUpdateValueFwstate]

theorem fwstateLookupState_fst {K : Type} (funcs : FwmapFuncs K FwStateValue) (lm : Layermap K FwStateValue)
    (key : K) (now : UInt64) : (fwstateLookupState funcs lm key now).1 = (layermapGet funcs lm now key).isSome := by
  simp only [fwstateLookupState, layermapGet]
  rcases layermapGetInternal funcs lm now key with ⟨_ | found, stale⟩ <;> rfl

theorem fwstateCheckState_fst (fw4state : Layermap Fw4StateKey FwStateValue)
    (fw6state : Layermap Fw6StateKey FwStateValue) (packet : Packet) (now : UInt64) :
    (fwstateCheckState fw4state fw6state packet now).1 =
      if packet.networkHeader.type = rte_cpu_to_be_16 RTE_ETHER_TYPE_IPV4 then
        (layermapGet fw4StateFuncs fw4state now (fwstateBuildStateKeyV4 packet)).isSome
      else (layermapGet fw6StateFuncs fw6state now (fwstateBuildStateKeyV6 packet)).isSome := by
  unfold fwstateCheckState
  by_cases v4 : packet.networkHeader.type = rte_cpu_to_be_16 RTE_ETHER_TYPE_IPV4
  · simp only [v4, if_true, ← fwstateLookupState_fst]
  · simp only [v4, if_false, ← fwstateLookupState_fst]

section Put

variable (workerIdx : Nat) {now : UInt64} {cfg : FwstateConfig}

theorem FwstateShaped.process (shaped : FwstateShaped cfg) (timely : cfg.syncConfig.timeouts.After now)
    (isExternal : Bool) (frame : FwStateSyncFrame) :
    FwstateShaped (fwstateProcessSyncFrame workerIdx isExternal now cfg frame) := by
  have dated := ne_zero_of_lt_add (fwstateEntryTtl_after timely frame.proto.toUInt16 frame.flags)
  unfold fwstateProcessSyncFrame
  split_ifs
  · exact ⟨shaped.1.put_active dated, shaped.2⟩
  · exact ⟨shaped.1, shaped.2.put_active dated⟩
  · exact shaped

theorem fwstateProcessSyncFrame_syncConfig (isExternal : Bool) (frame : FwStateSyncFrame) :
    (fwstateProcessSyncFrame workerIdx isExternal now cfg frame).syncConfig = cfg.syncConfig := by
  unfold fwstateProcessSyncFrame
  split_ifs <;> rfl

theorem FwstateShaped.foldl (isExternal : Bool) (frames : List FwStateSyncFrame) :
    FwstateShaped cfg → cfg.syncConfig.timeouts.After now →
      FwstateShaped (frames.foldl (fwstateProcessSyncFrame workerIdx isExternal now) cfg) ∧
        (frames.foldl (fwstateProcessSyncFrame workerIdx isExternal now) cfg).syncConfig = cfg.syncConfig := by
  induction frames generalizing cfg with
  | nil => exact fun shaped _ => ⟨shaped, rfl⟩
  | cons frame frames ih =>
    intro shaped timely
    have same : (fwstateProcessSyncFrame workerIdx isExternal now cfg frame).syncConfig = cfg.syncConfig :=
      fwstateProcessSyncFrame_syncConfig workerIdx isExternal frame
    obtain ⟨shaped', config⟩ := ih (shaped.process workerIdx timely isExternal frame) (same ▸ timely)
    exact ⟨shaped', config.trans same⟩

theorem FwstateShaped.handlePackets (dpdk : Dpdk) (packets : List Packet) :
    FwstateShaped cfg → cfg.syncConfig.timeouts.After now →
      FwstateShaped (fwstateHandlePackets dpdk workerIdx now cfg packets).1 := by
  induction packets generalizing cfg with
  | nil => exact fun shaped _ => shaped
  | cons packet packets ih =>
    intro shaped timely
    -- one packet: the frames of a sync packet, and nothing for any other
    have step : FwstateShaped (fwstateHandlePacket dpdk workerIdx now cfg packet).1 ∧
        (fwstateHandlePacket dpdk workerIdx now cfg packet).1.syncConfig = cfg.syncConfig := by
      unfold fwstateHandlePacket
      dsimp only
      split
      · exact ⟨shaped, rfl⟩
      · split
        · exact ⟨shaped, rfl⟩
        · obtain ⟨shaped', config⟩ := FwstateShaped.foldl workerIdx _ _ shaped timely
          split <;> exact ⟨shaped', config⟩
    simp only [fwstateHandlePackets]
    have rest := ih step.1 (step.2 ▸ timely)
    split <;> exact rest

theorem syncFrameInserts_process (shaped : FwstateShaped cfg) (timely : cfg.syncConfig.timeouts.After now)
    {frame : FwStateSyncFrame} {r : Packet} (names : SyncFrameNames frame r) :
    SyncFrameInserts workerIdx now cfg (fwstateProcessSyncFrame workerIdx false now cfg frame) frame r := by
  have live := fwstateEntryTtl_after timely frame.proto.toUInt16 frame.flags
  unfold SyncFrameNames at names
  unfold SyncFrameInserts
  by_cases v4 : r.networkHeader.type = rte_cpu_to_be_16 RTE_ETHER_TYPE_IPV4
  · rw [if_pos v4] at names ⊢
    obtain ⟨addr, key, -, -⟩ := names
    have processed : fwstateProcessSyncFrame workerIdx false now cfg frame =
        { cfg with fw4state := (layermapPut fw4StateFuncs cfg.fw4state workerIdx now
          (fwstateBuildValue frame false now cfg.syncConfig.timeouts).ttl (fwstateBuildStateKeyV4 r)
          (fwstateBuildValue frame false now cfg.syncConfig.timeouts).value).1 } := by
      rw [fwstateProcessSyncFrame, if_pos addr, fwstateProcessSyncV4, key]
    rw [processed]
    refine ⟨rfl, fun succeeded => ?_⟩
    obtain ⟨found, fresh⟩ := shaped.1.layermapGet_put fwmapFw4KeyEqual_self live succeeded
    refine ⟨?_, fresh fwmapUpdateValueFwstate_empty⟩
    rw [fwstateCheckState_fst, if_pos v4]
    exact found
  · rw [if_neg v4] at names ⊢
    obtain ⟨addr, key, -, -⟩ := names
    have processed : fwstateProcessSyncFrame workerIdx false now cfg frame =
        { cfg with fw6state := (layermapPut fw6StateFuncs cfg.fw6state workerIdx now
          (fwstateBuildValue frame false now cfg.syncConfig.timeouts).ttl (fwstateBuildStateKeyV6 r)
          (fwstateBuildValue frame false now cfg.syncConfig.timeouts).value).1 } := by
      rw [fwstateProcessSyncFrame, if_neg (by rw [addr]; decide), if_pos addr, fwstateProcessSyncV6, key]
    rw [processed]
    refine ⟨rfl, fun succeeded => ?_⟩
    obtain ⟨found, fresh⟩ := shaped.2.layermapGet_put fwmapFw6KeyEqual_self live succeeded
    refine ⟨?_, fresh fwmapUpdateValueFwstate_empty⟩
    rw [fwstateCheckState_fst, if_neg v4]
    exact found

end Put

theorem fwstate_sync_frame_reply_key (dpdk : Dpdk) (documented : dpdk.Documented) (workerIdx : Nat) (now : UInt64)
    (cfg : FwstateConfig) (multicast : cfg.syncConfig.dstEther[0] &&& 1 = 1) (shaped : FwstateShaped cfg)
    (timely : cfg.syncConfig.timeouts.After now) (p r : Packet)
    (ip : p.networkHeader.type = rte_cpu_to_be_16 RTE_ETHER_TYPE_IPV4 ∨
      p.networkHeader.type = rte_cpu_to_be_16 RTE_ETHER_TYPE_IPV6)
    (reply : IsReply p r) (direction : SyncPacketDirection) (src : Packet)
    (source : direction = .SYNC_INGRESS ∧ src = p ∨ direction = .SYNC_EGRESS ∧ src = r) (syncPkt sync : Packet)
    (fits : syncPkt.mbuf.bufLen < 65536)
    (crafted : fwstateCraftStateSyncPacket dpdk cfg.syncConfig src direction syncPkt = some sync) :
    isFwStateSyncPacket sync cfg.syncConfig = true ∧
      SyncFrameInserts workerIdx now cfg (fwstateHandlePacket dpdk workerIdx now cfg sync).1
        (fwstateFillSyncFrame src direction) r ∧
      SyncFrameNames (fwstateFillSyncFrame src direction) r := by
  have names := syncFrameNames_of_reply ip reply source
  refine ⟨isFwStateSyncPacket_crafted documented multicast fits crafted, ?_, names⟩
  rw [fwstateHandlePacket_crafted documented workerIdx now multicast fits crafted]
  exact syncFrameInserts_process workerIdx shaped timely names

theorem fwstate_sync_frame_reply_key_udp :
    ∃ (cfg : FwstateConfig) (p r syncPkt sync : Packet),
      cfg.syncConfig.dstEther[0] &&& 1 = 1 ∧ FwstateShaped cfg ∧ cfg.syncConfig.timeouts.After 1 ∧
      p.networkHeader.type = rte_cpu_to_be_16 RTE_ETHER_TYPE_IPV4 ∧
      IsReply p r ∧ syncPkt.mbuf.bufLen < 65536 ∧
      fwstateCraftStateSyncPacket dpdkSingleSegment cfg.syncConfig p .SYNC_INGRESS syncPkt = some sync ∧
      isFwStateSyncPacket sync cfg.syncConfig = true ∧
      SyncFrameInserts 0 1 cfg (fwstateHandlePacket dpdkSingleSegment 0 1 cfg sync).1
        (fwstateFillSyncFrame p .SYNC_INGRESS) r ∧
      SyncFrameNames (fwstateFillSyncFrame p .SYNC_INGRESS) r := by
  -- a UDP request from 12.13.14.15:5141 to 16.17.18.19:5655, and its reply
  let request : Packet :=
    ⟨⟨fun a => if a = 9 then 17 else UInt8.ofNat a, 0, 28, 28⟩, 0, 0, 0, 0, 0, 0, 28,
      ⟨rte_cpu_to_be_16 RTE_ETHER_TYPE_IPV4, 0⟩, ⟨17, 20⟩⟩
  let reply : Packet :=
    ⟨⟨fun a => if a = 9 then 17 else if 12 ≤ a ∧ a < 16 then UInt8.ofNat (a + 4)
      else if 16 ≤ a ∧ a < 20 then UInt8.ofNat (a - 4) else if 20 ≤ a ∧ a < 22 then UInt8.ofNat (a + 2)
      else if 22 ≤ a ∧ a < 24 then UInt8.ofNat (a - 2) else UInt8.ofNat a, 0, 28, 28⟩, 0, 0, 0, 0, 0, 0, 28,
      ⟨rte_cpu_to_be_16 RTE_ETHER_TYPE_IPV4, 0⟩, ⟨17, 20⟩⟩
  let syncPkt : Packet := ⟨⟨fun _ => 0, 0, 0, 200⟩, 0, 0, 0, 0, 0, 0, 0, ⟨0, 0⟩, ⟨0, 0⟩⟩
  let fw4 : Fwmap Fw4StateKey FwStateValue :=
    ⟨fun _ => fwmapEmptyBucket, fun _ => ⟨⟨0, 0, 0, 0⟩, 0, 0⟩, fun _ => ⟨false, 0, 0, 0, 0, 0, 0⟩, 16, 3, 0, 1, 0, 0, 1,
      fun _ => FwmapCounter.zero⟩
  let fw6 : Fwmap Fw6StateKey FwStateValue :=
    ⟨fun _ => fwmapEmptyBucket, fun _ => ⟨⟨0, 0, 0, 0⟩, Vector.replicate 16 0, Vector.replicate 16 0⟩,
      fun _ => ⟨false, 0, 0, 0, 0, 0, 0⟩, 16, 3, 0, 1, 0, 0, 1, fun _ => FwmapCounter.zero⟩
  let cfg : FwstateConfig :=
    ⟨⟨fw4, []⟩, ⟨fw6, []⟩, ⟨Vector.replicate 16 0, #v[1, 0, 0, 0, 0, 0],
      #v[0xff, 2, 0, 0, 0, 0, 0, 0, 0, 0, 0, 0, 0, 0, 0, 1], 0x0f27, ⟨1, 1, 1, 1, 1, 1⟩⟩⟩
  have swapped : IsReply request reply := by
    unfold IsReply PortsSwapped
    decide
  have empty : SignedChain fwmapEmptyBucket := ⟨[], FWMAP_BUCKET_ENTRIES, rfl, by simp⟩
  have shaped : FwstateShaped cfg := ⟨⟨fun _ => empty, by decide⟩, ⟨fun _ => empty, by decide⟩⟩
  have timely : cfg.syncConfig.timeouts.After 1 := by
    show ∀ ttl ∈ [(1 : UInt64), 1, 1, 1, 1, 1], (1 : UInt64) < 1 + ttl
    intro ttl one
    simp only [List.mem_cons, List.not_mem_nil, or_false, or_self] at one
    rw [one]
    decide
  have key := fwstate_sync_frame_reply_key dpdkSingleSegment dpdkSingleSegment_documented 0 1 cfg (by decide) shaped timely request reply
    (Or.inl rfl) swapped .SYNC_INGRESS request (Or.inl ⟨rfl, rfl⟩) syncPkt _ (by decide) rfl
  exact ⟨cfg, request, reply, syncPkt, _, by decide, shaped, timely, rfl, swapped, by decide, rfl, key⟩

end Yanet
