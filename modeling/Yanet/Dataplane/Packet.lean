import Yanet.Lib.Mem

set_option autoImplicit false

-- The dataplane packet: a single-segment mbuf and the metadata that
-- `parse_packet` fills in (lib/dataplane/packet/packet.h). The mbuf memory is
-- addressed absolutely, so a header pointer taken before a prepend or an adj
-- keeps naming the same bytes, as a C pointer does.

namespace Yanet

open Mem

structure Mbuf where
  mem : Memory
  dataOff : Nat
  dataLen : Nat
  bufLen : Nat

namespace Mbuf

-- rte_pktmbuf_pkt_len of a single-segment mbuf.
def pktLen (m : Mbuf) : Nat := m.dataLen

-- The address rte_pktmbuf_mtod_offset yields.
def mtod (m : Mbuf) (offset : Nat) : Nat := m.dataOff + offset

def byte (m : Mbuf) (offset : Nat) : UInt8 := m.mem (m.mtod offset)

def load16 (m : Mbuf) (offset : Nat) : UInt16 := Mem.load16 m.mem (m.mtod offset)

def load32 (m : Mbuf) (offset : Nat) : UInt32 := Mem.load32 m.mem (m.mtod offset)

def loadVector (m : Mbuf) (offset n : Nat) : Vector UInt8 n := Mem.loadVector m.mem (m.mtod offset) n

end Mbuf

structure Header where
  type : UInt16
  offset : UInt16
deriving DecidableEq, Repr

-- struct packet, less the list link and the flow hash, which no modelled function reads.
structure Packet where
  mbuf : Mbuf
  rxDeviceId : UInt16
  txDeviceId : UInt16
  moduleDeviceId : UInt16
  flags : UInt16
  vlan : UInt16
  fragmentOffset : UInt16
  dataLen : UInt16
  networkHeader : Header
  transportHeader : Header

namespace Packet

-- Fields of the rte_ipv4_hdr, rte_ipv6_hdr, rte_tcp_hdr and rte_udp_hdr at the packet's header offsets.

def ipv4NextProtoId (p : Packet) : UInt8 := p.mbuf.byte (p.networkHeader.offset.toNat + 9)

def ipv4SrcAddr (p : Packet) : UInt32 := p.mbuf.load32 (p.networkHeader.offset.toNat + 12)

def ipv4DstAddr (p : Packet) : UInt32 := p.mbuf.load32 (p.networkHeader.offset.toNat + 16)

def ipv6VtcFlow (p : Packet) : UInt32 := p.mbuf.load32 p.networkHeader.offset.toNat

def ipv6Proto (p : Packet) : UInt8 := p.mbuf.byte (p.networkHeader.offset.toNat + 6)

def ipv6SrcAddr (p : Packet) : Vector UInt8 16 := p.mbuf.loadVector (p.networkHeader.offset.toNat + 8) 16

def ipv6DstAddr (p : Packet) : Vector UInt8 16 := p.mbuf.loadVector (p.networkHeader.offset.toNat + 24) 16

-- src_port, first in both the TCP and the UDP header.
def l4SrcPort (p : Packet) : UInt16 := p.mbuf.load16 p.transportHeader.offset.toNat

def l4DstPort (p : Packet) : UInt16 := p.mbuf.load16 (p.transportHeader.offset.toNat + 2)

def tcpFlags (p : Packet) : UInt8 := p.mbuf.byte (p.transportHeader.offset.toNat + 13)

end Packet

def PACKET_FLAG_FRAGMENTED : Nat := 0

def RTE_ETHER_TYPE_IPV4 : UInt16 := 0x0800
def RTE_ETHER_TYPE_IPV6 : UInt16 := 0x86DD
def RTE_ETHER_TYPE_VLAN : UInt16 := 0x8100

def IPPROTO_HOPOPTS : UInt8 := 0
def IPPROTO_ICMP : UInt8 := 1
def IPPROTO_TCP : UInt8 := 6
def IPPROTO_UDP : UInt8 := 17
def IPPROTO_ROUTING : UInt8 := 43
def IPPROTO_FRAGMENT : UInt8 := 44
def IPPROTO_ESP : UInt8 := 50
def IPPROTO_AH : UInt8 := 51
def IPPROTO_ICMPV6 : UInt8 := 58
def IPPROTO_DSTOPTS : UInt8 := 60

def rte_be_to_cpu_16 : UInt16 → UInt16 := bswap16
def rte_cpu_to_be_16 : UInt16 → UInt16 := bswap16
def rte_be_to_cpu_32 : UInt32 → UInt32 := bswap32
def rte_cpu_to_be_32 : UInt32 → UInt32 := bswap32

end Yanet
