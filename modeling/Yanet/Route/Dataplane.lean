import Yanet.Dataplane.IpHdr
import Yanet.Lib.OnesComplement
import Yanet.Lpm.Basic

set_option autoImplicit false

-- The route module's packet handlers (modules/route/dataplane/dataplane.c). A
-- handler drops a packet whose TTL or hop limit would expire, decrements it
-- otherwise and looks the destination up in the module's LPM. The IPv4 handler
-- patches the header checksum for the new TTL (RFC 1624) instead of summing the
-- header again; the header stays valid because the patch adds back in ones'
-- complement arithmetic exactly what the TTL byte lost.

namespace Yanet

open Mem

-- struct route_module_config, less the route tables, which the handlers do not read.
structure RouteModuleConfig where
  lpmV6 : Lpm
  lpmV4 : Lpm

-- The checksum `route_handle_v4` stores after the TTL went down by one, from the checksum as stored.
def routeCksumDecTtl (hdrChecksum : UInt16) : UInt16 :=
  -- `~` on the promoted int, masked back to 16 bits
  let sum : UInt32 := ((~~~ (rte_be_to_cpu_16 hdrChecksum).toUInt32) &&& 0xFFFF) + 0xFEFF
  ~~~ rte_cpu_to_be_16 (sum + (sum >>> 16)).toUInt16

-- The header writes of `route_handle_v4` once the TTL is known to be above 1.
def routeDecTtlV4 (m : Memory) (header : Nat) : Memory :=
  let m := store8 m (header + 8) (m (header + 8) - 1)
  store16 m (header + 10) (routeCksumDecTtl (load16 m (header + 10)))

def routeHandleV4 (config : RouteModuleConfig) (packet : Packet) : UInt32 × Packet :=
  let mbuf := packet.mbuf
  let header := packet.networkHeaderAddr
  if mbuf.mem (header + 8) ≤ 1 then (LPM_VALUE_INVALID, packet)
  else
    let mem := routeDecTtlV4 mbuf.mem header
    (lpmLookup config.lpmV4 4 (fun i => mem (header + 16 + i)), { packet with mbuf := { mbuf with mem := mem } })

def routeHandleV6 (config : RouteModuleConfig) (packet : Packet) : UInt32 × Packet :=
  let mbuf := packet.mbuf
  let header := packet.networkHeaderAddr
  let hopLimits := mbuf.mem (header + 7)
  if hopLimits ≤ 1 then (LPM_VALUE_INVALID, packet)
  else
    let mem := store8 mbuf.mem (header + 7) (hopLimits - 1)
    (lpmLookup config.lpmV6 16 (fun i => mem (header + 24 + i)), { packet with mbuf := { mbuf with mem := mem } })

-- The header at `header` passes the receiver's check: the ones' complement sum of its 4 * IHL bytes is all ones.
def ipv4HdrCksumValid (m : Memory) (header : Nat) : Prop :=
  OnesComplement.sum (OnesComplement.words m header (2 * (m header &&& 0x0f).toNat)) = 0xFFFF

instance (m : Memory) (header : Nat) : Decidable (ipv4HdrCksumValid m header) :=
  inferInstanceAs (Decidable (_ = _))

-- The checksum patch: the stored big-endian value goes up by 0x100 modulo 0xffff, which is what
-- the TTL word lost.

theorem routeCksumDecTtl_sum (hdrChecksum : UInt16) :
    ((~~~ (rte_be_to_cpu_16 hdrChecksum).toUInt32) &&& 0xFFFF).toNat =
      65535 - (rte_be_to_cpu_16 hdrChecksum).toNat := by
  have lt : (rte_be_to_cpu_16 hdrChecksum).toNat < 65536 := UInt16.toNat_lt _
  rw [UInt32.toNat_and, UInt32.toNat_not, UInt16.toNat_toUInt32]
  show (4294967295 - _) &&& (2 ^ 16 - 1) = _
  rw [Nat.and_two_pow_sub_one_eq_mod]
  omega

theorem routeCksumDecTtl_mod (hdrChecksum : UInt16) :
    (rte_be_to_cpu_16 (routeCksumDecTtl hdrChecksum)).toNat % 65535 =
      ((rte_be_to_cpu_16 hdrChecksum).toNat + 256) % 65535 := by
  have lt : (rte_be_to_cpu_16 hdrChecksum).toNat < 65536 := UInt16.toNat_lt _
  have sum := routeCksumDecTtl_sum hdrChecksum
  obtain ⟨folded, folded_eq⟩ : ∃ folded : UInt32,
      folded = ((~~~ (rte_be_to_cpu_16 hdrChecksum).toUInt32) &&& 0xFFFF) + 0xFEFF := ⟨_, rfl⟩
  -- the complement commutes with the byte swap, so the stored value is the complement of the folded sum
  have stored : rte_be_to_cpu_16 (routeCksumDecTtl hdrChecksum) = ~~~ (folded + (folded >>> 16)).toUInt16 := by
    simp only [routeCksumDecTtl, rte_be_to_cpu_16, rte_cpu_to_be_16, bswap16_not, bswap16_bswap16, folded_eq]
  have folded_toNat : folded.toNat = 65535 - (rte_be_to_cpu_16 hdrChecksum).toNat + 0xFEFF := by
    rw [folded_eq, UInt32.toNat_add, sum, show (0xFEFF : UInt32).toNat = 0xFEFF from rfl]
    omega
  have carried : (folded + (folded >>> 16)).toNat = folded.toNat + folded.toNat / 65536 := by
    rw [UInt32.toNat_add, UInt32.toNat_shiftRight, show (16 : UInt32).toNat % 32 = 16 from rfl,
      Nat.shiftRight_eq_div_pow, folded_toNat]
    omega
  have complement : ∀ t : UInt16, (~~~ t).toNat = 65535 - t.toNat := fun t => by
    rw [UInt16.toNat_not]
    rfl
  rw [stored, complement, UInt32.toNat_toUInt16, carried, folded_toNat, show 2 ^ 16 = 65536 from rfl]
  -- the fold carries exactly when the old checksum is below 0xFEFF
  rcases Nat.lt_or_ge (rte_be_to_cpu_16 hdrChecksum).toNat 0xFEFF with carry | noCarry
  · rw [show (65535 - (rte_be_to_cpu_16 hdrChecksum).toNat + 0xFEFF) / 65536 = 1 by omega]
    omega
  · rw [show (65535 - (rte_be_to_cpu_16 hdrChecksum).toNat + 0xFEFF) / 65536 = 0 by omega]
    omega

-- The header after the writes: the TTL and checksum words change, every other byte stays.

section DecTtl

variable {m : Memory} {header : Nat}

theorem routeDecTtlV4_apply_of_ne {a : Nat} (ttl : a ≠ header + 8) (cksum : a ≠ header + 10)
    (cksumHigh : a ≠ header + 11) : routeDecTtlV4 m header a = m a := by
  unfold routeDecTtlV4
  rw [store16_apply_of_disjoint (by omega), store8_other _ _ _ _ ttl]

theorem routeDecTtlV4_ttl : routeDecTtlV4 m header (header + 8) = m (header + 8) - 1 := by
  unfold routeDecTtlV4
  rw [store16_apply_of_disjoint (by omega), store8_same]

theorem be16_routeDecTtlV4_ttl (live : 1 ≤ (m (header + 8)).toNat) :
    be16 (routeDecTtlV4 m header) (header + 8) + 256 = be16 m (header + 8) := by
  have low : routeDecTtlV4 m header (header + 8 + 1) = m (header + 8 + 1) :=
    routeDecTtlV4_apply_of_ne (by omega) (by omega) (by omega)
  have dec : (m (header + 8) - 1).toNat = (m (header + 8)).toNat - 1 := by
    rw [UInt8.toNat_sub_of_le _ _ (UInt8.le_iff_toNat_le.mpr (show (1 : UInt8).toNat ≤ _ from live))]
    rfl
  simp only [be16, low, routeDecTtlV4_ttl, dec]
  omega

theorem be16_routeDecTtlV4_cksum :
    be16 (routeDecTtlV4 m header) (header + 10) % 65535 = (be16 m (header + 10) + 256) % 65535 := by
  -- the TTL store leaves the checksum's bytes, so the patch reads the checksum as it was
  have read : load16 (store8 m (header + 8) (m (header + 8) - 1)) (header + 10) = load16 m (header + 10) := by
    simp only [load16, store8_other _ _ _ _ (show header + 10 ≠ header + 8 by omega),
      store8_other _ _ _ _ (show header + 10 + 1 ≠ header + 8 by omega)]
  have patched := routeCksumDecTtl_mod (load16 m (header + 10))
  rw [rte_be_to_cpu_16, bswap16_load16] at patched
  rw [routeDecTtlV4, read, be16_store16]
  exact patched

theorem ipv4HdrCksumValid_routeDecTtlV4 (ihl : 5 ≤ (m header &&& 0x0f).toNat)
    (live : 2 ≤ (m (header + 8)).toNat) (valid : ipv4HdrCksumValid m header) :
    ipv4HdrCksumValid (routeDecTtlV4 m header) header := by
  have sameIhl : routeDecTtlV4 m header header = m header :=
    @routeDecTtlV4_apply_of_ne m header header (by omega) (by omega) (by omega)
  obtain ⟨rest, count⟩ : ∃ rest, 2 * (m header &&& 0x0f).toNat = 4 + (rest + 1 + 1) := ⟨2 * (m header &&& 0x0f).toNat - 6, by omega⟩
  unfold ipv4HdrCksumValid at valid ⊢
  rw [sameIhl, count]
  rw [count] at valid
  rw [OnesComplement.sum_eq_ones_iff (OnesComplement.words_lt _)] at valid ⊢
  -- the sum splits into the first four words, the TTL word, the checksum word and the rest
  have split : ∀ m' : Memory, (OnesComplement.words m' header (4 + (rest + 1 + 1))).sum =
      (OnesComplement.words m' header 4).sum + be16 m' (header + 8) + be16 m' (header + 10) +
        (OnesComplement.words m' (header + 12) rest).sum := by
    intro m'
    rw [OnesComplement.words_add, List.sum_append]
    simp only [OnesComplement.words, List.sum_cons, Nat.add_assoc, Nat.reduceAdd, Nat.reduceMul]
  have front : OnesComplement.words (routeDecTtlV4 m header) header 4 = OnesComplement.words m header 4 :=
    OnesComplement.words_congr fun i lt => routeDecTtlV4_apply_of_ne (by omega) (by omega) (by omega)
  have back : OnesComplement.words (routeDecTtlV4 m header) (header + 12) rest =
      OnesComplement.words m (header + 12) rest :=
    OnesComplement.words_congr fun i lt => routeDecTtlV4_apply_of_ne (by omega) (by omega) (by omega)
  have ttlWord := @be16_routeDecTtlV4_ttl m header (by omega)
  have cksumWord := @be16_routeDecTtlV4_cksum m header
  rw [split] at valid ⊢
  rw [front, back]
  refine ⟨by omega, be16 (routeDecTtlV4 m header) header, ?_, ?_⟩
  · -- the version and IHL word comes first
    rw [show 4 + (rest + 1 + 1) = (3 + (rest + 1 + 1)) + 1 by omega]
    exact List.mem_cons_self ..
  · have ihlLe : (m header &&& 0x0f).toNat ≤ (m header).toNat := by
      rw [UInt8.toNat_and]
      exact Nat.and_le_left
    simp only [be16, sameIhl]
    omega

end DecTtl

theorem routeHandleV4_live {config : RouteModuleConfig} {packet : Packet}
    (live : 2 ≤ (packet.mbuf.mem (packet.networkHeaderAddr + 8)).toNat) :
    routeHandleV4 config packet =
      (lpmLookup config.lpmV4 4 (fun i => packet.mbuf.mem (packet.networkHeaderAddr + 16 + i)),
        { packet with mbuf := { packet.mbuf with mem := routeDecTtlV4 packet.mbuf.mem packet.networkHeaderAddr } }) := by
  have notExpired : ¬ packet.mbuf.mem (packet.networkHeaderAddr + 8) ≤ 1 := by
    rw [UInt8.le_iff_toNat_le]
    exact Nat.not_le.mpr live
  -- the destination address lies past the bytes the handler writes
  have dst : ∀ i, routeDecTtlV4 packet.mbuf.mem packet.networkHeaderAddr (packet.networkHeaderAddr + 16 + i) =
      packet.mbuf.mem (packet.networkHeaderAddr + 16 + i) := fun i =>
    routeDecTtlV4_apply_of_ne (by omega) (by omega) (by omega)
  simp only [routeHandleV4, notExpired, if_false, dst]

theorem route_handle_v4_checksum_valid (config : RouteModuleConfig) {packet : Packet}
    (ihl : 5 ≤ (packet.mbuf.mem packet.networkHeaderAddr &&& 0x0f).toNat)
    (valid : ipv4HdrCksumValid packet.mbuf.mem packet.networkHeaderAddr)
    (live : 2 ≤ (packet.mbuf.mem (packet.networkHeaderAddr + 8)).toNat) :
    let packet' := (routeHandleV4 config packet).2
    ipv4HdrCksumValid packet'.mbuf.mem packet.networkHeaderAddr ∧
      packet'.mbuf.mem (packet.networkHeaderAddr + 8) = packet.mbuf.mem (packet.networkHeaderAddr + 8) - 1 ∧
      (∀ a, a ≠ packet.networkHeaderAddr + 8 → a ≠ packet.networkHeaderAddr + 10 →
        a ≠ packet.networkHeaderAddr + 11 → packet'.mbuf.mem a = packet.mbuf.mem a) ∧
      packet' = { packet with mbuf := { packet.mbuf with mem := packet'.mbuf.mem } } := by
  rw [routeHandleV4_live live]
  exact ⟨ipv4HdrCksumValid_routeDecTtlV4 ihl live valid, routeDecTtlV4_ttl,
    fun _ ttl cksum cksumHigh => routeDecTtlV4_apply_of_ne ttl cksum cksumHigh, rfl⟩

-- A 20-byte UDP header from 10.0.0.1 to 10.0.0.2 with TTL 64 and its checksum 0x66d7.
def routeUdpHeader : Packet where
  mbuf :=
    { mem := ofBytes 0 [0x45, 0x00, 0x00, 0x14, 0x00, 0x00, 0x00, 0x00, 0x40, 0x11, 0x66, 0xd7,
        0x0a, 0x00, 0x00, 0x01, 0x0a, 0x00, 0x00, 0x02]
      dataOff := 0
      dataLen := 20
      bufLen := 20 }
  rxDeviceId := 0
  txDeviceId := 0
  moduleDeviceId := 0
  flags := 0
  vlan := 0
  fragmentOffset := 0
  dataLen := 20
  networkHeader := ⟨rte_cpu_to_be_16 RTE_ETHER_TYPE_IPV4, 0⟩
  transportHeader := ⟨IPPROTO_UDP.toUInt16, 20⟩

theorem route_handle_v4_checksum_valid_udp :
    5 ≤ (routeUdpHeader.mbuf.mem routeUdpHeader.networkHeaderAddr &&& 0x0f).toNat ∧
      ipv4HdrCksumValid routeUdpHeader.mbuf.mem routeUdpHeader.networkHeaderAddr ∧
      2 ≤ (routeUdpHeader.mbuf.mem (routeUdpHeader.networkHeaderAddr + 8)).toNat ∧
      ipv4HdrCksumValid (routeHandleV4 ⟨⟨fun _ _ => .value 0, 1⟩, ⟨fun _ _ => .value 0, 1⟩⟩ routeUdpHeader).2.mbuf.mem
        routeUdpHeader.networkHeaderAddr :=
  ⟨by decide, by decide, by decide,
    (route_handle_v4_checksum_valid ⟨⟨fun _ _ => .value 0, 1⟩, ⟨fun _ _ => .value 0, 1⟩⟩ (by decide) (by decide) (by decide)).1⟩

end Yanet
