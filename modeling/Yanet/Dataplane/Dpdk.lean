import Yanet.Dataplane.Packet

set_option autoImplicit false

namespace Yanet

open Mem

-- The DPDK routines the dataplane calls. DPDK is the submodule subprojects/dpdk, which the repository
-- leaves empty, so they are parameters, and `Documented` is what DPDK documents of them for a
-- single-segment mbuf.
structure Dpdk where
  rtePktmbufPrepend : Mbuf → Nat → Option Mbuf
  rtePktmbufAdj : Mbuf → Nat → Option Mbuf
  rtePktmbufAppend : Mbuf → Nat → Option Mbuf
  rteIpv4UdptcpCksumMbuf : Mbuf → Nat → Nat → UInt16
  rteIpv6UdptcpCksumMbuf : Mbuf → Nat → Nat → UInt16
  rteIpv6UdptcpCksum : Memory → Nat → Nat → UInt16
  rteIpv4Cksum : Memory → Nat → UInt16

structure Dpdk.Documented (dpdk : Dpdk) : Prop where
  prepend : ∀ m len, len ≤ m.dataOff →
    dpdk.rtePktmbufPrepend m len = some { m with dataOff := m.dataOff - len, dataLen := m.dataLen + len }
  adj : ∀ m len, len ≤ m.dataLen →
    dpdk.rtePktmbufAdj m len = some { m with dataOff := m.dataOff + len, dataLen := m.dataLen - len }
  append : ∀ m len m', dpdk.rtePktmbufAppend m len = some m' →
    m'.dataOff = m.dataOff ∧ m'.dataLen = m.dataLen + len ∧ m'.bufLen = m.bufLen ∧ m'.dataOff + m'.dataLen ≤ m'.bufLen
  -- a UDP checksum that comes to 0 is sent as 0xffff
  ipv4_udp : ∀ mbuf ipv4Hdr l4Off, mbuf.mem (ipv4Hdr + 9) = IPPROTO_UDP → dpdk.rteIpv4UdptcpCksumMbuf mbuf ipv4Hdr l4Off ≠ 0
  ipv6_udp : ∀ mbuf ipv6Hdr l4Off, mbuf.mem (ipv6Hdr + 6) = IPPROTO_UDP → dpdk.rteIpv6UdptcpCksumMbuf mbuf ipv6Hdr l4Off ≠ 0

-- Routines that keep to what is documented, to run the model on concrete packets. The checksums are
-- the one value every UDP checksum may take.
def dpdkSingleSegment : Dpdk where
  rtePktmbufPrepend m len :=
    if m.dataOff < len then none else some { m with dataOff := m.dataOff - len, dataLen := m.dataLen + len }
  rtePktmbufAdj m len :=
    if m.dataLen < len then none else some { m with dataOff := m.dataOff + len, dataLen := m.dataLen - len }
  rtePktmbufAppend m len :=
    if m.bufLen < m.dataOff + m.dataLen + len then none else some { m with dataLen := m.dataLen + len }
  rteIpv4UdptcpCksumMbuf _ _ _ := 0xffff
  rteIpv6UdptcpCksumMbuf _ _ _ := 0xffff
  rteIpv6UdptcpCksum _ _ _ := 0xffff
  rteIpv4Cksum _ _ := 0xffff

theorem dpdkSingleSegment_documented : dpdkSingleSegment.Documented where
  prepend m len room := by simp [dpdkSingleSegment, Nat.not_lt.mpr room]
  adj m len room := by simp [dpdkSingleSegment, Nat.not_lt.mpr room]
  append m len m' h := by
    simp only [dpdkSingleSegment] at h
    split at h
    · cases h
    · cases h
      exact ⟨rfl, rfl, rfl, by simp only; omega⟩
  ipv4_udp _ _ _ _ := by simp [dpdkSingleSegment]
  ipv6_udp _ _ _ _ := by simp [dpdkSingleSegment]

end Yanet
