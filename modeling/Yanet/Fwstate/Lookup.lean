import Yanet.Fwstate.Sync
import Yanet.Fwstate.Layermap

set_option autoImplicit false

-- lib/fwstate/lookup.c: the key a packet's state is looked up under, its source
-- and destination swapped so that a reply finds the state its request created,
-- and fwstate_check_state over the state table the ACL picks for the packet's
-- family. The backward packet counter it bumps on a hit is not modelled.

namespace Yanet

def FW_STATE_SYNC_THRESHOLD : UInt64 := 8000000000

-- The ports in host order for TCP and UDP, whose headers both start with them; 0 otherwise.
def fwstateExtractPorts (packet : Packet) (proto : UInt16) : UInt16 × UInt16 :=
  if proto = IPPROTO_TCP.toUInt16 ∨ proto = IPPROTO_UDP.toUInt16 then
    (rte_be_to_cpu_16 packet.l4SrcPort, rte_be_to_cpu_16 packet.l4DstPort)
  else (0, 0)

def fwstateBuildStateKeyV4 (packet : Packet) : Fw4StateKey :=
  let proto := packet.ipv4NextProtoId.toUInt16
  let ports := fwstateExtractPorts packet proto
  ⟨⟨proto, ports.2, ports.1, 0⟩, packet.ipv4DstAddr, packet.ipv4SrcAddr⟩

def fwstateBuildStateKeyV6 (packet : Packet) : Fw6StateKey :=
  let proto := packet.ipv6Proto.toUInt16
  let ports := fwstateExtractPorts packet proto
  ⟨⟨proto, ports.2, ports.1, 0⟩, packet.ipv6DstAddr, packet.ipv6SrcAddr⟩

-- fwstate_lookup_state: whether the key is live, its deadline (`now` when it is not) and whether it
-- came from an older layer.
def fwstateLookupState {K : Type} (funcs : FwmapFuncs K FwStateValue) (fwstate : Layermap K FwStateValue) (key : K)
    (now : UInt64) : Bool × UInt64 × Bool :=
  match layermapGetInternal funcs fwstate now key with
  | (some (_, deadline), stale) => (true, deadline, stale)
  | (none, stale) => (false, now, stale)

-- The sync fwstate_check_state asks for after a hit; `none` leaves the caller's as it was.
def fwstateSyncRequired (now deadline : UInt64) (stale : Bool) : Option SyncPacketDirection :=
  if stale then some .SYNC_EGRESS
  else if now < deadline ∧ deadline - now < FW_STATE_SYNC_THRESHOLD then some .SYNC_EGRESS
  else none

def fwstateCheckState (fw4state : Layermap Fw4StateKey FwStateValue) (fw6state : Layermap Fw6StateKey FwStateValue)
    (packet : Packet) (now : UInt64) : Bool × Option SyncPacketDirection :=
  let (found, deadline, stale) :=
    if packet.networkHeader.type = rte_cpu_to_be_16 RTE_ETHER_TYPE_IPV4 then
      fwstateLookupState fw4StateFuncs fw4state (fwstateBuildStateKeyV4 packet) now
    else fwstateLookupState fw6StateFuncs fw6state (fwstateBuildStateKeyV6 packet) now
  (found, if found then fwstateSyncRequired now deadline stale else none)

end Yanet
