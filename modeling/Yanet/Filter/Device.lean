import Yanet.Filter.Compiler

set_option autoImplicit false

-- The L2 attributes (lib/filter/compiler/device.c, vlan.c, query/device.h, query/vlan.h): a table
-- over the device ids up to the largest one a rule names, and one over the 4096 VLAN ids, each
-- refined rule by rule through the remap table. A rule that lists no device or no VLAN range takes
-- them all. A packet from a device past the table reads the entry of device 0.

namespace Yanet

def deviceAttrInit (registry : ValueRegistry) (rules : List (Option FilterRule)) :
    Except Int (ValueTable × ValueRegistry) :=
  let maxDeviceId := rules.foldl
    (fun maxDeviceId rule =>
      match rule with
      | none => maxDeviceId
      | some rule =>
        rule.devices.foldl (fun maxDeviceId device => if device.id > maxDeviceId then device.id else maxDeviceId)
          maxDeviceId)
    0
  let data := rules.foldl
    (fun data rule =>
      match rule with
      | none => data
      | some rule =>
        if rule.devices.length = 0 then data
        else
          rule.devices.foldl (fun data device => valueTableTouch data (valueTableGetPtr data.1 0 device.id))
            (data.1, remapTableNewGen data.2))
    (valueTableInit 1 (maxDeviceId + 1), remapTableInit (maxDeviceId + 1))
  let table := valueTableCompact data.1 (remapTableCompact data.2)
  .ok (table, rules.foldl
    (fun registry rule =>
      let registry := valueRegistryStart registry
      match rule with
      | none => registry
      | some rule =>
        if rule.devices.length = 0 then
          (List.range (maxDeviceId + 1)).foldl (fun registry id => valueRegistryCollect registry (valueTableGet table 0 id))
            registry
        else rule.devices.foldl (fun registry device => valueRegistryCollect registry (valueTableGet table 0 device.id))
          registry)
    registry)

def deviceAttrQueryFunc (table : ValueTable) (packet : Packet) : Nat :=
  let deviceId := packet.moduleDeviceId.toNat
  valueTableGet table 0 (if deviceId ≥ table.hDim then 0 else deviceId)

def deviceAttribute : FilterAttribute := ⟨ValueTable, deviceAttrInit, deviceAttrQueryFunc⟩

-- The source counts the VLAN ids of a range with a uint16_t, so a range ending at 65535 would never
-- end; VLAN ranges stay below 4096.
def FilterVlanRange.vlans (range : FilterVlanRange) : List Nat :=
  List.range' range.lo.toNat (range.hi.toNat + 1 - range.lo.toNat)

def vlanAttrInit (registry : ValueRegistry) (rules : List (Option FilterRule)) :
    Except Int (ValueTable × ValueRegistry) :=
  let data := rules.foldl
    (fun data rule =>
      match rule with
      | none => data
      | some rule =>
        if rule.vlanRanges.length = 0 then data
        else
          rule.vlanRanges.foldl
            (fun data range => range.vlans.foldl (fun data vlan => valueTableTouch data (valueTableGetPtr data.1 0 vlan)) data)
            (data.1, remapTableNewGen data.2))
    (valueTableInit 1 4096, remapTableInit 4096)
  let table := valueTableCompact data.1 (remapTableCompact data.2)
  .ok (table, rules.foldl
    (fun registry rule =>
      let registry := valueRegistryStart registry
      match rule with
      | none => registry
      | some rule =>
        let registry :=
          if rule.vlanRanges.length = 0 then
            (List.range 4096).foldl (fun registry vlan => valueRegistryCollect registry (valueTableGet table 0 vlan)) registry
          else registry
        rule.vlanRanges.foldl
          (fun registry range =>
            range.vlans.foldl (fun registry vlan => valueRegistryCollect registry (valueTableGet table 0 vlan)) registry)
          registry)
    registry)

def vlanAttrQueryFunc (table : ValueTable) (packet : Packet) : Nat := valueTableGet table 0 packet.vlan.toNat

def vlanAttribute : FilterAttribute := ⟨ValueTable, vlanAttrInit, vlanAttrQueryFunc⟩

end Yanet
