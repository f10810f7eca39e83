import Yanet.Filter.Compiler
import Yanet.Filter.Segments

set_option autoImplicit false

-- The port attributes (`lib/filter/compiler/port.c`, `port_fast.c`, `query/port.h`,
-- `query/port_fast.h`). The slow compiler refines a table of all 65536 ports rule by rule through
-- the remap table, then collects for each rule the classes of its ports, of every port when the rule
-- lists none. The fast compiler hands the ranges to a `uint16_t` segment classifier, labelled with
-- the index of their rule.

namespace Yanet

-- The port that `packet_src_port`, `packet_dst_port` and the `*_fast` queries read: TCP and UDP
-- carry it at the same offset, any other packet gets `otherwise`.
def transportPort (read : Packet → UInt16) (otherwise : UInt16) (packet : Packet) : UInt16 :=
  if packet.transportHeader.type = IPPROTO_TCP.toUInt16 then rte_be_to_cpu_16 (read packet)
  else if packet.transportHeader.type = IPPROTO_UDP.toUInt16 then rte_be_to_cpu_16 (read packet)
  else otherwise

def packetSrcPort (packet : Packet) : UInt16 := transportPort Packet.l4SrcPort 0 packet

def packetDstPort (packet : Packet) : UInt16 := transportPort Packet.l4DstPort 0 packet

-- The ports `from … to` that the loops of `collect_port_values` visit.
def FilterPortRange.ports (range : FilterPortRange) : List Nat :=
  List.range' range.lo.toNat (range.hi.toNat + 1 - range.lo.toNat)

def getPortRangeSrc (action : FilterRule) : List FilterPortRange := action.transport.srcs

def getPortRangeDst (action : FilterRule) : List FilterPortRange := action.transport.dsts

def collectPortValues (actions : List (Option FilterRule)) (getPortRange : FilterRule → List FilterPortRange)
    (registry : ValueRegistry) : ValueTable × ValueRegistry :=
  let data := actions.foldl
    (fun data action =>
      let data := (data.1, remapTableNewGen data.2)
      match action with
      | none => data
      | some action =>
        (getPortRange action).foldl
          (fun data ports =>
            if ports.hi.toNat - ports.lo.toNat = 65535 then data
            else ports.ports.foldl (fun data port => valueTableTouch data (valueTableGetPtr data.1 0 port)) data)
          data)
    (valueTableInit 1 65536, remapTableInit 65536)
  let table := valueTableCompact data.1 (remapTableCompact data.2)
  let registry := actions.foldl
    (fun registry action =>
      let registry := valueRegistryStart registry
      match action with
      | none => registry
      | some action =>
        let registry := (getPortRange action).foldl
          (fun registry ports =>
            ports.ports.foldl (fun registry port => valueRegistryCollect registry (valueTableGet table 0 port)) registry)
          registry
        -- a rule without ranges takes the full range
        if (getPortRange action).length = 0 then
          (List.range 65536).foldl (fun registry port => valueRegistryCollect registry (valueTableGet table 0 port)) registry
        else registry)
    registry
  (table, registry)

def portDstAttrInit (registry : ValueRegistry) (actions : List (Option FilterRule)) :
    Except Int (ValueTable × ValueRegistry) :=
  .ok (collectPortValues actions getPortRangeDst registry)

def portSrcAttrInit (registry : ValueRegistry) (actions : List (Option FilterRule)) :
    Except Int (ValueTable × ValueRegistry) :=
  .ok (collectPortValues actions getPortRangeSrc registry)

def portSrcAttrQueryFunc (table : ValueTable) (packet : Packet) : Nat := valueTableGet table 0 (packetSrcPort packet).toNat

def portDstAttrQueryFunc (table : ValueTable) (packet : Packet) : Nat := valueTableGet table 0 (packetDstPort packet).toNat

def portSrcAttribute : FilterAttribute := ⟨ValueTable, portSrcAttrInit, portSrcAttrQueryFunc⟩

def portDstAttribute : FilterAttribute := ⟨ValueTable, portDstAttrInit, portDstAttrQueryFunc⟩

-- What a rule's port list admits: every port when it is empty, else the ports of its ranges.
def PortsAdmit (ranges : List FilterPortRange) (port : UInt16) : Prop := ranges = [] ∨ ∃ range ∈ ranges, range.Contains port

-- The ports whose classes `collect_port_values` collects for a rule.
def collectedPorts (ranges : List FilterPortRange) : List Nat :=
  ranges.flatMap FilterPortRange.ports ++ List.range (if ranges.length = 0 then 65536 else 0)

def portValues (table : ValueTable) (getPortRange : FilterRule → List FilterPortRange) : Option FilterRule → List Nat
  | none => []
  | some action => (collectedPorts (getPortRange action)).map (valueTableGet table 0)

theorem mem_collectedPorts {ranges : List FilterPortRange} {port : UInt16} :
    port.toNat ∈ collectedPorts ranges ↔ PortsAdmit ranges port := by
  -- `simp` would unfold `List.range 65536`; the full range is taken apart by rewriting
  cases ranges with
  | nil =>
    rw [collectedPorts, List.flatMap_nil, List.nil_append, List.length_nil, if_pos rfl, List.mem_range]
    exact ⟨fun _ => Or.inl rfl, fun _ => port.toNat_lt⟩
  | cons range ranges =>
    rw [collectedPorts, List.length_cons, if_neg (Nat.add_one_ne_zero _), List.range_zero, List.append_nil]
    simp only [PortsAdmit, List.mem_flatMap, FilterPortRange.ports, List.mem_range'_1, reduceCtorEq, false_or,
      FilterPortRange.Contains, UInt16.le_iff_toNat_le]
    constructor
    · rintro ⟨range, mem, lo, hi⟩
      exact ⟨range, mem, lo, by omega⟩
    · rintro ⟨range, mem, lo, hi⟩
      exact ⟨range, mem, lo, by omega⟩

theorem collectPortValues_registry_eq (actions : List (Option FilterRule))
    (getPortRange : FilterRule → List FilterPortRange) (registry : ValueRegistry) :
    (collectPortValues actions getPortRange registry).2 =
      actions.foldl (fun acc action =>
        (portValues (collectPortValues actions getPortRange registry).1 getPortRange action).foldl valueRegistryCollect
          (valueRegistryStart acc)) registry := by
  simp only [collectPortValues]
  congr 1
  funext acc action
  cases action with
  | none => rfl
  | some action =>
    simp only [portValues, collectedPorts, List.map_append, List.foldl_append, List.map_flatMap, List.foldl_flatMap,
      List.foldl_map]
    split <;> simp

theorem collectPortValues_spec {registry : ValueRegistry} (valid : registry.Valid) (actions : List (Option FilterRule))
    (getPortRange : FilterRule → List FilterPortRange) :
    (collectPortValues actions getPortRange registry).2.Valid ∧
    (collectPortValues actions getPortRange registry).2.rangeCount = registry.rangeCount + actions.length ∧
    ∀ i (lt : i < actions.length), ∀ v,
      v ∈ (collectPortValues actions getPortRange registry).2.ranges (registry.rangeCount + i) ↔
        v ∈ portValues (collectPortValues actions getPortRange registry).1 getPortRange actions[i] := by
  rw [collectPortValues_registry_eq]
  obtain ⟨valid', count, -, mem⟩ := valid.foldl_start_collect
    (portValues (collectPortValues actions getPortRange registry).1 getPortRange) actions
  exact ⟨valid', count, mem⟩

theorem portDstFilter_le_of_admits (rules : List (Option FilterRule)) (fits : rules.length ≤ FILTER_RULE_INVALID) :
    ∃ filter, filterInit [portDstAttribute] rules = .ok filter ∧ ∀ packet, ∀ i (lt : i < rules.length), ∀ rule,
      rules[i] = some rule → PortsAdmit rule.transport.dsts (packetDstPort packet) → filterQuery filter packet ≤ i := by
  obtain ⟨valid, count, mem⟩ := collectPortValues_spec ValueRegistry.valid_init rules getPortRangeDst
  have ok : portDstAttribute.init valueRegistryInit rules = .ok (collectPortValues rules getPortRangeDst valueRegistryInit) :=
    rfl
  generalize collectPortValues rules getPortRangeDst valueRegistryInit = compiled at valid count mem ok
  rw [ValueRegistry.init_rangeCount, Nat.zero_add] at count
  simp only [ValueRegistry.init_rangeCount, Nat.zero_add] at mem
  obtain ⟨filter, init, query⟩ :=
    @filterQuery_single_first portDstAttribute rules compiled.1 compiled.2 ok valid count fits
  refine ⟨filter, init, fun packet i lt rule found admits => ?_⟩
  have held : portDstAttrQueryFunc compiled.1 packet ∈ compiled.2.ranges i := by
    have := (mem i lt (portDstAttrQueryFunc compiled.1 packet)).mpr
    rw [found] at this
    exact this (List.mem_map_of_mem (mem_collectedPorts.mpr admits))
  rw [query packet (valid.lt_capacity (count ▸ lt) held)]
  exact firstMatch_le lt held

namespace PortFast

def validatePortRanges (ranges : List FilterPortRange) : Bool := ranges.all fun range => !(range.lo > range.hi)

def validateAndCount (getter : FilterRule → List FilterPortRange) : List (Option FilterRule) → Int → Int
  | [], cnt => cnt
  | none :: rules, cnt => validateAndCount getter rules cnt
  | some rule :: rules, cnt =>
    if !validatePortRanges (getter rule) then -1 else validateAndCount getter rules (cnt + (getter rule).length)

-- The segments `classifier_init` hands on: every range of rule `rule_idx`, labelled `rule_idx`.
def segmentsOf (getter : FilterRule → List FilterPortRange) (rules : List (Option FilterRule)) : List (Segment 16) :=
  rules.zipIdx.flatMap fun entry =>
    match entry.1 with
    | none => []
    | some rule => (getter rule).map fun range => ⟨range.lo.toBitVec, range.hi.toBitVec, entry.2⟩

def classifierInit (registry : ValueRegistry) (rules : List (Option FilterRule))
    (getter : FilterRule → List FilterPortRange) : Except Int (SegmentsClassifier 16 × ValueRegistry) :=
  if validateAndCount getter rules 0 < 0 then .error (-2)
  else segmentsClassifierU16Init registry (segmentsOf getter rules)

theorem label_of_mem_segmentsOf {getter : FilterRule → List FilterPortRange} {rules : List (Option FilterRule)}
    {segment : Segment 16} (mem : segment ∈ segmentsOf getter rules) : ∃ rule, rules[segment.label]? = some (some rule) := by
  obtain ⟨⟨rule, idx⟩, memEntry, memSegment⟩ := List.mem_flatMap.mp mem
  cases rule with
  | none => cases memSegment
  | some rule =>
    obtain ⟨range, -, rfl⟩ := List.mem_map.mp memSegment
    exact ⟨rule, List.mem_zipIdx_iff_getElem?.mp memEntry⟩

theorem classifierInit_rangeCount {registry registry' : ValueRegistry} {rules : List (Option FilterRule)}
    {getter : FilterRule → List FilterPortRange} {classifier : SegmentsClassifier 16}
    (ok : classifierInit registry rules getter = .ok (classifier, registry')) :
    registry'.rangeCount =
      (segmentsOf getter rules).foldl (fun count segment => max count (segment.label + 1)) registry.rangeCount := by
  unfold classifierInit at ok
  split at ok
  · cases ok
  · exact segmentsClassifierInit_rangeCount ok

end PortFast

def getPortDst (rule : FilterRule) : List FilterPortRange := rule.transport.dsts

def getPortSrc (rule : FilterRule) : List FilterPortRange := rule.transport.srcs

def portFastDstAttrInit (registry : ValueRegistry) (rules : List (Option FilterRule)) :
    Except Int (SegmentsClassifier 16 × ValueRegistry) :=
  PortFast.classifierInit registry rules getPortDst

def portFastSrcAttrInit (registry : ValueRegistry) (rules : List (Option FilterRule)) :
    Except Int (SegmentsClassifier 16 × ValueRegistry) :=
  PortFast.classifierInit registry rules getPortSrc

-- A batch slot of a packet that is neither TCP nor UDP keeps the port it held before: `stale`,
-- uninitialised stack memory in the first batch.
def portFastDstAttrQueryFunc (classifier : SegmentsClassifier 16) (stale : UInt16) (packet : Packet) : Nat :=
  (segmentU16Classify classifier [(transportPort Packet.l4DstPort stale packet).toBitVec]).headD 0

def portFastSrcAttrQueryFunc (classifier : SegmentsClassifier 16) (stale : UInt16) (packet : Packet) : Nat :=
  (segmentU16Classify classifier [(transportPort Packet.l4SrcPort stale packet).toBitVec]).headD 0

def portFastSrcAttribute (stale : UInt16) : FilterAttribute :=
  ⟨SegmentsClassifier 16, portFastSrcAttrInit, fun classifier => portFastSrcAttrQueryFunc classifier stale⟩

def portFastDstAttribute (stale : UInt16) : FilterAttribute :=
  ⟨SegmentsClassifier 16, portFastDstAttrInit, fun classifier => portFastDstAttrQueryFunc classifier stale⟩

-- The fast compiler starts ranges only up to the last rule that has a port range, so a
-- trailing NULL rule gets none.
theorem port_fast_dst_trailing_null_rule (rules : List (Option FilterRule)) (classifier : SegmentsClassifier 16)
    (registry : ValueRegistry) (ok : portFastDstAttrInit valueRegistryInit (rules ++ [none]) = .ok (classifier, registry)) :
    registry.rangeCount < (rules ++ [none]).length := by
  rw [PortFast.classifierInit_rangeCount ok, List.length_append, List.length_singleton]
  apply Nat.lt_succ_of_le
  apply foldl_max_label_le (Nat.zero_le _)
  intro segment mem
  obtain ⟨rule, found⟩ := PortFast.label_of_mem_segmentsOf mem
  by_contra beyond
  rw [List.getElem?_append_right (Nat.le_of_not_lt beyond)] at found
  rcases Nat.lt_or_ge (segment.label - rules.length) 1 with first | later
  · rw [Nat.lt_one_iff.mp first] at found
    cases found
  · rw [List.getElem?_eq_none (by simpa using later)] at found
    cases found

def port80Rule : FilterRule := { transport := { dsts := [⟨80, 80⟩] } }

theorem port_fast_dst_trailing_null_rule_port80 :
    ∃ classifier registry, portFastDstAttrInit valueRegistryInit [some port80Rule, none] = .ok (classifier, registry) ∧
      registry.rangeCount < 2 := by
  have run : (portFastDstAttrInit valueRegistryInit [some port80Rule, none]).toBool = true := by decide +kernel
  generalize built : portFastDstAttrInit valueRegistryInit [some port80Rule, none] = result at run
  cases result with
  | error => exact absurd run Bool.false_ne_true
  | ok result => exact ⟨result.1, result.2, rfl, port_fast_dst_trailing_null_rule [some port80Rule] result.1 result.2 built⟩

-- Rule 0 lists no destination port, rule 1 the port 80.
def emptyThenPort80 : List (Option FilterRule) := [some {}, some port80Rule]

theorem port_fast_dst_empty_list_diverges (stale : UInt16) (packet : Packet)
    (tcp : packet.transportHeader.type = IPPROTO_TCP.toUInt16) (port : rte_be_to_cpu_16 packet.l4DstPort = 80) :
    ∃ slow fast, filterInit [portDstAttribute] emptyThenPort80 = .ok slow ∧
      filterInit [portFastDstAttribute stale] emptyThenPort80 = .ok fast ∧
      filterQuery slow packet = 0 ∧ filterQuery fast packet = 1 := by
  obtain ⟨slow, slowInit, slowBound⟩ := portDstFilter_le_of_admits emptyThenPort80 (by decide)
  have first : filterQuery slow packet = 0 :=
    Nat.le_zero.mp (slowBound packet 0 (by decide) {} rfl (Or.inl rfl))
  have fastPort : transportPort Packet.l4DstPort stale packet = 80 := by
    rw [transportPort, if_pos tcp, port]
  have run : (match portFastDstAttrInit valueRegistryInit emptyThenPort80 with
      | .ok (classifier, registry) =>
        decide (valueTableGet (mergeAndSetRegistryValues (initDummyRegistry 2) registry) 0
          ((segmentU16Classify classifier [80]).headD 0) = 1)
      | .error _ => false) = true := by
    decide +kernel
  generalize built : portFastDstAttrInit valueRegistryInit emptyThenPort80 = result at run
  cases result with
  | error => exact absurd run Bool.false_ne_true
  | ok result =>
    obtain ⟨fast, fastInit, fastQuery⟩ := @filterInit_single (portFastDstAttribute stale) emptyThenPort80 result.1 result.2 built
    refine ⟨slow, fast, slowInit, fastInit, first, ?_⟩
    rw [fastQuery packet]
    show valueTableGet _ 0 ((segmentU16Classify result.1 [(transportPort Packet.l4DstPort stale packet).toBitVec]).headD 0) = 1
    rw [fastPort]
    exact of_decide_eq_true run

-- A TCP segment to port 80, its header at the start of the buffer.
def tcpPort80Packet : Packet where
  mbuf := ⟨fun addr => if addr = 3 then 80 else 0, 0, 20, 20⟩
  rxDeviceId := 0
  txDeviceId := 0
  moduleDeviceId := 0
  flags := 0
  vlan := 0
  fragmentOffset := 0
  dataLen := 20
  networkHeader := ⟨0, 0⟩
  transportHeader := ⟨6, 0⟩

theorem port_fast_dst_empty_list_diverges_tcp80 :
    tcpPort80Packet.transportHeader.type = IPPROTO_TCP.toUInt16 ∧ rte_be_to_cpu_16 tcpPort80Packet.l4DstPort = 80 ∧
    ∃ slow fast, filterInit [portDstAttribute] emptyThenPort80 = .ok slow ∧
      filterInit [portFastDstAttribute 0] emptyThenPort80 = .ok fast ∧
      filterQuery slow tcpPort80Packet = 0 ∧ filterQuery fast tcpPort80Packet = 1 :=
  ⟨by decide, by decide, port_fast_dst_empty_list_diverges 0 tcpPort80Packet (by decide) (by decide)⟩

end Yanet
