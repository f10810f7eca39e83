import Yanet.Lib.Except
import Yanet.Lpm.Reach
import Yanet.Route.Rib

set_option autoImplicit false

-- The route module's control plane (modules/route/controlplane/backend.go and the C calls behind
-- it, modules/route/api/controlplane.c). `UpdateModule` interns the hardware routes of each FIB
-- entry and the set of them as a route list, then inserts the range from the prefix's address as
-- written to its last address into the LPM of its family. Nothing sorts the entries or masks the
-- address: every insert overwrites, so a key reads the list of the last entry whose range holds
-- it, whatever the prefix lengths.

namespace Yanet

open BigEndian

-- netip.Prefix as ParsePrefix returns it: the address as written and the prefix length.
structure NetipPrefix where
  addr : NetipAddr
  bits : Nat
deriving DecidableEq

namespace NetipAddr

-- Addr.As4: the four bytes of an IPv4 address, as an LPM key.
def as4 : NetipAddr → Nat → UInt8
  | .v4 addr, i => if i < 4 then UInt8.ofNat (addr.toNat / 256 ^ (3 - i)) else 0
  | _, _ => 0

-- Addr.As16: the sixteen bytes of an IPv6 address.
def as16 : NetipAddr → Nat → UInt8
  | .v6 hi lo, i =>
    if i < 8 then UInt8.ofNat (hi.toNat / 256 ^ (7 - i))
    else if i < 16 then UInt8.ofNat (lo.toNat / 256 ^ (15 - i)) else 0
  | _, _ => 0

end NetipAddr

-- xnetip.LastAddr: the address with the bits past the prefix set. A shift by the full width is 0
-- in Go, and `0 - 1` wraps to all ones.
def xnetipLastAddr (pfx : NetipPrefix) : NetipAddr :=
  match pfx.addr with
  | .v4 addr => .v4 (addr ||| (UInt32.ofNat (2 ^ (32 - pfx.bits)) - 1))
  | .v6 hi lo =>
    if pfx.bits ≥ 64 then .v6 hi (lo ||| (UInt64.ofNat (2 ^ (64 - (pfx.bits - 64))) - 1))
    else .v6 (hi ||| (UInt64.ofNat (2 ^ (64 - pfx.bits)) - 1)) 0xFFFFFFFFFFFFFFFF
  | .invalid => .invalid

structure HardwareRoute where
  sourceMac : List UInt8
  destinationMac : List UInt8
  device : String
deriving DecidableEq

-- routepb.FIBNexthop: the MAC addresses may be missing.
structure FibNexthop where
  srcMac : Option (List UInt8)
  dstMac : Option (List UInt8)
  device : String

def newHardwareRoute (nh : FibNexthop) : Except String HardwareRoute :=
  match nh.srcMac, nh.dstMac with
  | none, _ => .error "src_mac is required"
  | some _, none => .error "dst_mac is required"
  | some src, some dst => if nh.device = "" then .error "device is required" else .ok ⟨src, dst, nh.device⟩

-- routepb.FIBEntry with its prefix parsed.
structure FibEntry where
  pfx : NetipPrefix
  nexthops : List FibNexthop

-- The tables of struct route_module_config: the routes (with the device the C code links by name),
-- the flat array of route indexes, the route lists as (start, count) into it, and the two LPMs.
structure RouteConfigBuild where
  routes : List HardwareRoute
  routeIndexes : List UInt32
  routeLists : List (Nat × Nat)
  lpmV4 : Lpm
  lpmV6 : Lpm

-- route_module_config_data_init, after both lpm_init calls.
def routeConfigInit : RouteConfigBuild := ⟨[], [], [], lpmFresh, lpmFresh⟩

-- route_module_config_add_route: the index of the appended route.
def routeModuleConfigAddRoute (config : RouteConfigBuild) (route : HardwareRoute) : RouteConfigBuild × Nat :=
  ({ config with routes := config.routes ++ [route] }, config.routes.length)

-- route_module_config_add_route_list: the indexes go after the ones stored, the list points at them.
def routeModuleConfigAddRouteList (config : RouteConfigBuild) (indexes : List UInt32) : RouteConfigBuild × Nat :=
  ({ config with
      routeIndexes := config.routeIndexes ++ indexes
      routeLists := config.routeLists ++ [(config.routeIndexes.length, indexes.length)] },
    config.routeLists.length)

-- route_module_config_add_prefix_v4 / _v6: lpm_insert into the family's LPM. Running out of fuel
-- never happens on a trie lpm_insert built (`lpmInsert_spec`); it reads as a failure.
def routeModuleConfigAddPrefixV4 (alloc : Nat → Bool) (config : RouteConfigBuild) (fromKey toKey : Nat → UInt8)
    (routeListIndex : UInt32) : Int × RouteConfigBuild :=
  match lpmInsert alloc config.lpmV4 4 fromKey toKey routeListIndex with
  | some (rc, lpm) => (rc, { config with lpmV4 := lpm })
  | none => (-1, config)

def routeModuleConfigAddPrefixV6 (alloc : Nat → Bool) (config : RouteConfigBuild) (fromKey toKey : Nat → UInt8)
    (routeListIndex : UInt32) : Int × RouteConfigBuild :=
  match lpmInsert alloc config.lpmV6 16 fromKey toKey routeListIndex with
  | some (rc, lpm) => (rc, { config with lpmV6 := lpm })
  | none => (-1, config)

-- How UpdateModule ends when it does not succeed: an error it returns, or a panic.
inductive UpdateFailure
  | error (message : String)
  | panic (message : String)

-- ModuleConfig.AddPrefix.
def moduleConfigAddPrefix (alloc : Nat → Bool) (config : RouteConfigBuild) (pfx : NetipPrefix)
    (routeListIdx : UInt32) : Except UpdateFailure RouteConfigBuild :=
  let addrStart := pfx.addr
  let addrEnd := xnetipLastAddr pfx
  match addrStart with
  | .v4 _ =>
    let (rc, config) := routeModuleConfigAddPrefixV4 alloc config addrStart.as4 addrEnd.as4 routeListIdx
    if rc ≠ 0 then .error (.error "route_module_config_add_prefix_v4: error") else .ok config
  | .v6 _ _ =>
    let (rc, config) := routeModuleConfigAddPrefixV6 alloc config addrStart.as16 addrEnd.as16 routeListIdx
    if rc ≠ 0 then .error (.error "route_module_config_add_prefix_v6: error") else .ok config
  | .invalid => .error (.error "unsupported prefix: must be either IPv4 or IPv6")

-- bitset.TinyBitset: 16 words of 64 bits, as the number whose binary digits they are.
def tinyBitsetInsert (set : Nat) (idx : Nat) : Except UpdateFailure Nat :=
  if idx ≥ 64 * 16 then .error (.panic "index is too big: must be less than 1024") else .ok (set ||| 2 ^ idx)

def tinyBitsetCount (set : Nat) : Nat := (List.range (64 * 16)).countP set.testBit

def tinyBitsetAsSlice (set : Nat) : List UInt32 := ((List.range (64 * 16)).filter set.testBit).map UInt32.ofNat

-- The locals of UpdateModule next to the module config: its two Go maps.
structure UpdateModuleLocals where
  config : RouteConfigBuild
  hardwareIndex : List (HardwareRoute × UInt32)
  routeListIndex : List (Nat × UInt32)

-- The nexthop loop of UpdateModule: each nexthop's hardware route, added at its first sight, goes
-- into the entry's key.
def updateModuleNexthop (acc : UpdateModuleLocals × Nat) (nh : FibNexthop) :
    Except UpdateFailure (UpdateModuleLocals × Nat) := do
  let (locals, key) := acc
  let hardwareRoute ← (newHardwareRoute nh).mapError fun err => .error ("failed to parse nexthop: " ++ err)
  let (locals, idx) : UpdateModuleLocals × UInt32 :=
    match locals.hardwareIndex.lookup hardwareRoute with
    | some idx => (locals, idx)
    | none =>
      let (config, added) := routeModuleConfigAddRoute locals.config hardwareRoute
      ({ locals with config, hardwareIndex := (hardwareRoute, UInt32.ofNat added) :: locals.hardwareIndex },
        UInt32.ofNat added)
  let key ← tinyBitsetInsert key idx.toNat
  pure (locals, key)

-- The loop body of UpdateModule up to AddPrefix: the entry's route list, added at the first sight
-- of its set of routes; `none` for an entry without nexthops, which the loop skips.
def updateModuleRouteList (locals : UpdateModuleLocals) (entry : FibEntry) :
    Except UpdateFailure (UpdateModuleLocals × Option UInt32) := do
  let (locals, key) ← entry.nexthops.foldlM updateModuleNexthop (locals, 0)
  if tinyBitsetCount key = 0 then return (locals, none)
  match locals.routeListIndex.lookup key with
  | some listIdx => return (locals, some listIdx)
  | none =>
    let (config, added) := routeModuleConfigAddRouteList locals.config (tinyBitsetAsSlice key)
    return ({ locals with config, routeListIndex := (key, UInt32.ofNat added) :: locals.routeListIndex },
      some (UInt32.ofNat added))

def updateModuleEntry (alloc : Nat → Bool) (locals : UpdateModuleLocals) (entry : FibEntry) :
    Except UpdateFailure UpdateModuleLocals := do
  let (locals, listIdx) ← updateModuleRouteList locals entry
  match listIdx with
  | none => pure locals
  | some listIdx =>
    let config ← moduleConfigAddPrefix alloc locals.config entry.pfx listIdx
    pure { locals with config }

-- backend.UpdateModule, up to handing the config to the agent.
def updateModule (alloc : Nat → Bool) (entries : List FibEntry) : Except UpdateFailure RouteConfigBuild :=
  (entries.foldlM (updateModuleEntry alloc) ⟨routeConfigInit, [], []⟩).map (·.config)

def routeListRoutes (config : RouteConfigBuild) (idx : Nat) : List HardwareRoute :=
  match config.routeLists[idx]? with
  | some (start, count) => ((config.routeIndexes.drop start).take count).filterMap fun i => config.routes[i.toNat]?
  | none => []

section Insert

variable {keySize : Nat} {fromKey toKey : Nat → UInt8} {v : UInt32}

theorem lpmInsertLoop_ne_fail {alloc : Nat → Bool} (always : ∀ n, alloc n = true) :
    ∀ fuel state (lpm : Lpm), lpmInsertLoop alloc keySize fromKey toKey v fuel state ≠ some (-1, lpm)
  | 0, _, _ => by simp [lpmInsertLoop]
  | fuel + 1, state, lpm => by
    rw [lpmInsertLoop]
    rcases lpmInsertStep_cases alloc state with ⟨_, _, step⟩ | ⟨_, _, _, refused, -⟩ | ⟨_, _, _, _, _, step⟩ |
      ⟨_, _, _, _, step⟩ | ⟨_, _, _, _, _, _, step⟩
    · rw [step]
      exact lpmInsertLoop_ne_fail always fuel _ lpm
    · rw [lpmNewPage_eq_none_iff, always] at refused
      cases refused.2
    · rw [step]
      exact lpmInsertLoop_ne_fail always fuel _ lpm
    · rw [step]
      simp
    · rw [step]
      exact lpmInsertLoop_ne_fail always fuel _ lpm

theorem lpmInsert_ok {alloc : Nat → Bool} (always : ∀ n, alloc n = true) {lpm : Lpm} (valid : lpm.Valid keySize)
    (pos : 0 < keySize) (range : value fromKey 0 keySize ≤ value toKey 0 keySize) (small : v.toNat < 2 ^ 31) :
    ∃ lpm', lpmInsert alloc lpm keySize fromKey toKey v = some (0, lpm') ∧ lpm'.Valid keySize ∧
      ∀ x, lpmLookup lpm' keySize x =
        if value fromKey 0 keySize ≤ value x 0 keySize ∧ value x 0 keySize ≤ value toKey 0 keySize then v
        else lpmLookup lpm keySize x := by
  obtain ⟨⟨result, ok, code⟩, done, -⟩ := lpmInsert_lookup alloc valid pos range small
  obtain ⟨rc, lpm'⟩ := result
  rcases code with zero | failed
  · dsimp only at zero
    subst zero
    exact ⟨lpm', ok, lpmInsert_valid alloc valid pos ok, done lpm' ok⟩
  · dsimp only at failed
    subst failed
    exact absurd ok (lpmInsertLoop_ne_fail always _ _ lpm')

end Insert

section Interning

theorem filter_testBit_two_pow {i : Nat} (lt : i < 64 * 16) :
    (List.range (64 * 16)).filter (2 ^ i).testBit = [i] := by
  have eq : (2 ^ i).testBit = fun j => decide (j = i) := by
    funext j
    rw [Nat.testBit_two_pow]
    exact decide_eq_decide.mpr eq_comm
  rw [eq, List.filter_eq, List.count_eq_one_of_mem List.nodup_range (List.mem_range.mpr lt)]
  rfl

theorem tinyBitsetAsSlice_two_pow {i : Nat} (lt : i < 64 * 16) : tinyBitsetAsSlice (2 ^ i) = [UInt32.ofNat i] := by
  rw [tinyBitsetAsSlice, filter_testBit_two_pow lt, List.map_singleton]

theorem tinyBitsetCount_two_pow {i : Nat} (lt : i < 64 * 16) : tinyBitsetCount (2 ^ i) = 1 := by
  rw [tinyBitsetCount, List.countP_eq_length_filter, filter_testBit_two_pow lt, List.length_singleton]

theorem updateModuleRouteList_single_new {locals : UpdateModuleLocals} {entry : FibEntry} {nh : FibNexthop}
    {route : HardwareRoute} (nexthops : entry.nexthops = [nh]) (parsed : newHardwareRoute nh = .ok route)
    (newRoute : locals.hardwareIndex.lookup route = none) (room : locals.config.routes.length < 64 * 16)
    (newList : locals.routeListIndex.lookup (2 ^ locals.config.routes.length) = none) :
    updateModuleRouteList locals entry = .ok (⟨{ locals.config with
        routes := locals.config.routes ++ [route]
        routeIndexes := locals.config.routeIndexes ++ [UInt32.ofNat locals.config.routes.length]
        routeLists := locals.config.routeLists ++ [(locals.config.routeIndexes.length, 1)] },
      (route, UInt32.ofNat locals.config.routes.length) :: locals.hardwareIndex,
      (2 ^ locals.config.routes.length, UInt32.ofNat locals.config.routeLists.length) :: locals.routeListIndex⟩,
      some (UInt32.ofNat locals.config.routeLists.length)) := by
  have idx : (UInt32.ofNat locals.config.routes.length).toNat = locals.config.routes.length :=
    UInt32.toNat_ofNat_of_lt' (Nat.lt_trans room (by decide))
  have inserted : tinyBitsetInsert 0 locals.config.routes.length = .ok (2 ^ locals.config.routes.length) := by
    rw [tinyBitsetInsert, if_neg (by omega), Nat.zero_or]
  simp only [updateModuleRouteList, nexthops, List.foldlM_cons, List.foldlM_nil, updateModuleNexthop, parsed,
    Except.mapError, newRoute, routeModuleConfigAddRoute, idx, inserted, bind, Except.bind, pure, Except.pure,
    tinyBitsetCount_two_pow room, tinyBitsetAsSlice_two_pow room, newList, routeModuleConfigAddRouteList]
  rfl

end Interning

section Frame

def UpdateModuleLocals.setLpmV4 (locals : UpdateModuleLocals) (lpm : Lpm) : UpdateModuleLocals :=
  { locals with config := { locals.config with lpmV4 := lpm } }

@[simp] theorem UpdateModuleLocals.setLpmV4_lpmV4 (locals : UpdateModuleLocals) (lpm : Lpm) :
    (locals.setLpmV4 lpm).config.lpmV4 = lpm := rfl

variable (lpm : Lpm)

theorem updateModuleNexthop_setLpmV4 (locals : UpdateModuleLocals) (key : Nat) (nh : FibNexthop) :
    updateModuleNexthop (locals.setLpmV4 lpm, key) nh =
      (updateModuleNexthop (locals, key) nh).map fun r => (r.1.setLpmV4 lpm, r.2) := by
  unfold updateModuleNexthop
  rcases newHardwareRoute nh with err | route
  · rfl
  · simp only [Except.mapError, bind, Except.bind, UpdateModuleLocals.setLpmV4, routeModuleConfigAddRoute]
    -- the route's index is found or appended alike under either trie; the bit insert then decides
    rcases locals.hardwareIndex.lookup route with _ | idx <;> dsimp only <;>
      generalize tinyBitsetInsert _ _ = inserted <;> cases inserted <;> rfl

theorem foldlM_updateModuleNexthop_setLpmV4 :
    ∀ (nexthops : List FibNexthop) (locals : UpdateModuleLocals) (key : Nat),
      nexthops.foldlM updateModuleNexthop (locals.setLpmV4 lpm, key) =
        (nexthops.foldlM updateModuleNexthop (locals, key)).map fun r => (r.1.setLpmV4 lpm, r.2)
  | [], _, _ => rfl
  | nh :: nexthops, locals, key => by
    rw [List.foldlM_cons, List.foldlM_cons, updateModuleNexthop_setLpmV4]
    rcases updateModuleNexthop (locals, key) nh with err | ⟨locals', key'⟩
    · rfl
    · exact foldlM_updateModuleNexthop_setLpmV4 nexthops locals' key'

theorem updateModuleRouteList_setLpmV4 (locals : UpdateModuleLocals) (entry : FibEntry) :
    updateModuleRouteList (locals.setLpmV4 lpm) entry =
      (updateModuleRouteList locals entry).map fun r => (r.1.setLpmV4 lpm, r.2) := by
  unfold updateModuleRouteList
  rw [foldlM_updateModuleNexthop_setLpmV4]
  rcases entry.nexthops.foldlM updateModuleNexthop (locals, 0) with err | ⟨locals', key⟩
  · rfl
  · simp only [Except.map, bind, Except.bind, UpdateModuleLocals.setLpmV4, routeModuleConfigAddRouteList]
    split
    · rfl
    · rcases locals'.routeListIndex.lookup key with _ | listIdx <;> rfl

end Frame

section AddPrefix

theorem value_as4 (addr : UInt32) : value (NetipAddr.as4 (.v4 addr)) 0 4 = addr.toNat := by
  have lt := addr.toNat_lt
  simp only [value_succ, value_zero, NetipAddr.as4, Nat.reduceLT, if_true, Nat.reduceSub, Nat.reduceAdd,
    UInt8.toNat_ofNat', Nat.reducePow, Nat.div_one]
  omega

theorem le_lastAddr_v4 (addr : UInt32) (bits : Nat) :
    addr.toNat ≤ (addr ||| (UInt32.ofNat (2 ^ (32 - bits)) - 1)).toNat := by
  rw [UInt32.toNat_or]
  exact Nat.left_le_or

theorem moduleConfigAddPrefix_v4 {alloc : Nat → Bool} (always : ∀ n, alloc n = true) {config : RouteConfigBuild}
    (valid : config.lpmV4.Valid 4) {addr : UInt32} {bits : Nat} {routeListIdx : UInt32}
    (small : routeListIdx.toNat < 2 ^ 31) :
    ∃ lpm', moduleConfigAddPrefix alloc config ⟨.v4 addr, bits⟩ routeListIdx = .ok { config with lpmV4 := lpm' } ∧
      lpm'.Valid 4 ∧ ∀ x, lpmLookup lpm' 4 x =
        if addr.toNat ≤ value x 0 4 ∧ value x 0 4 ≤ (addr ||| (UInt32.ofNat (2 ^ (32 - bits)) - 1)).toNat
        then routeListIdx else lpmLookup config.lpmV4 4 x := by
  have range := le_lastAddr_v4 addr bits
  rw [← value_as4, ← value_as4] at range
  obtain ⟨lpm', ok, valid', reads⟩ := lpmInsert_ok always valid (by decide) range small
  refine ⟨lpm', ?_, valid', fun x => by rw [reads x, value_as4, value_as4]⟩
  simp only [moduleConfigAddPrefix, xnetipLastAddr, routeModuleConfigAddPrefixV4, ok]
  rfl

theorem updateModuleEntry_v4 {alloc : Nat → Bool} (always : ∀ n, alloc n = true) {locals locals' : UpdateModuleLocals}
    {entry : FibEntry} {addr : UInt32} {bits : Nat} {listIdx : UInt32} (pfx : entry.pfx = ⟨.v4 addr, bits⟩)
    (routeList : updateModuleRouteList locals entry = .ok (locals', some listIdx))
    (valid : locals'.config.lpmV4.Valid 4) (small : listIdx.toNat < 2 ^ 31) :
    ∃ lpm', updateModuleEntry alloc locals entry = .ok (locals'.setLpmV4 lpm') ∧
      lpm'.Valid 4 ∧ ∀ x, lpmLookup lpm' 4 x =
        if addr.toNat ≤ value x 0 4 ∧ value x 0 4 ≤ (addr ||| (UInt32.ofNat (2 ^ (32 - bits)) - 1)).toNat
        then listIdx else lpmLookup locals'.config.lpmV4 4 x := by
  obtain ⟨lpm', added, valid', reads⟩ := @moduleConfigAddPrefix_v4 alloc always _ valid addr bits listIdx small
  refine ⟨lpm', ?_, valid', reads⟩
  rw [← pfx] at added
  simp only [updateModuleEntry, routeList, bind, Except.bind, added, pure, Except.pure, UpdateModuleLocals.setLpmV4]

end AddPrefix

section Overlap

def fibNexthopA : FibNexthop := ⟨some [2, 0, 0, 0, 0, 1], some [2, 0, 0, 0, 0, 2], "eth0"⟩

def fibNexthopB : FibNexthop := ⟨some [2, 0, 0, 0, 0, 1], some [2, 0, 0, 0, 0, 3], "eth1"⟩

def hardwareRouteA : HardwareRoute := ⟨[2, 0, 0, 0, 0, 1], [2, 0, 0, 0, 0, 2], "eth0"⟩

def hardwareRouteB : HardwareRoute := ⟨[2, 0, 0, 0, 0, 1], [2, 0, 0, 0, 0, 3], "eth1"⟩

def fibEntryA : FibEntry := ⟨⟨.v4 0x0A010000, 16⟩, [fibNexthopA]⟩

def fibEntryB : FibEntry := ⟨⟨.v4 0x0A000000, 8⟩, [fibNexthopB]⟩

-- 10.1.0.0/16 via A, then the shorter 10.0.0.0/8 via B.
def fibOverlap : List FibEntry := [fibEntryA, fibEntryB]

-- The interning of the two entries, on fresh tries: list 0 is {A}, list 1 is {B}.
def overlapInterned₁ : UpdateModuleLocals :=
  ⟨⟨[hardwareRouteA], [0], [(0, 1)], lpmFresh, lpmFresh⟩, [(hardwareRouteA, 0)], [(1, 0)]⟩

def overlapInterned₂ : UpdateModuleLocals :=
  ⟨⟨[hardwareRouteA, hardwareRouteB], [0, 1], [(0, 1), (1, 1)], lpmFresh, lpmFresh⟩,
    [(hardwareRouteB, 1), (hardwareRouteA, 0)], [(2, 1), (1, 0)]⟩

theorem update_module_last_entry_wins :
    ∃ config, updateModule (fun _ => true) fibOverlap = .ok config ∧
      routeListRoutes config (lpmLookup config.lpmV4 4 (NetipAddr.as4 (.v4 0x0A010203))).toNat = [hardwareRouteB] := by
  have always : ∀ n : Nat, (fun _ => true) n = true := fun _ => rfl
  have first : updateModuleRouteList ⟨routeConfigInit, [], []⟩ fibEntryA = .ok (overlapInterned₁, some 0) :=
    updateModuleRouteList_single_new rfl rfl rfl (by decide) rfl
  have second : updateModuleRouteList overlapInterned₁ fibEntryB = .ok (overlapInterned₂, some 1) :=
    updateModuleRouteList_single_new rfl rfl rfl (by decide) rfl
  obtain ⟨lpm₁, step₁, valid₁, -⟩ :=
    updateModuleEntry_v4 always rfl first (@lpmInit_valid 4 (fun _ => true) lpmFresh rfl) (by decide)
  -- the second entry's interning sees the first entry's trie and ignores it
  have second₁ : updateModuleRouteList (overlapInterned₁.setLpmV4 lpm₁) fibEntryB =
      .ok (overlapInterned₂.setLpmV4 lpm₁, some 1) := by
    rw [updateModuleRouteList_setLpmV4, second]
    rfl
  obtain ⟨lpm₂, step₂, -, reads⟩ := updateModuleEntry_v4 always rfl second₁ valid₁ (by decide)
  refine ⟨(overlapInterned₂.setLpmV4 lpm₂).config, ?_, ?_⟩
  · rw [updateModule, fibOverlap, List.foldlM_cons, step₁, Except.ok_bind, List.foldlM_cons, step₂, Except.ok_bind,
      List.foldlM_nil]
    rfl
  · have lookup : lpmLookup lpm₂ 4 (NetipAddr.as4 (.v4 0x0A010203)) = 1 := by
      rw [reads, value_as4, if_pos (by decide)]
    rw [UpdateModuleLocals.setLpmV4_lpmV4, lookup]
    rfl

end Overlap

end Yanet
