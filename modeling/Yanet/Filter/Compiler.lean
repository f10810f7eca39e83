import Yanet.Filter.Merge
import Yanet.Dataplane.Packet

set_option autoImplicit false

-- Rules and the filter tree (`lib/filter/rule.h`, `compiler.h`, `query.h`). Every attribute of a
-- signature compiles the rules into lookup data and a registry with a range per rule. The leaves
-- are the vertices `n … 2n - 1` of an implicit binary tree; an inner vertex joins the registries of
-- its children, and the root's table holds the first rule that matches. A filter of a single
-- attribute joins its leaf with a dummy registry instead.

namespace Yanet

-- `struct filter_port_range`; `lo` is the field `from`, `hi` the field `to`.
structure FilterPortRange where
  lo : UInt16
  hi : UInt16
deriving DecidableEq, Repr

def FilterPortRange.Contains (range : FilterPortRange) (port : UInt16) : Prop := range.lo ≤ port ∧ port ≤ range.hi

instance (range : FilterPortRange) (port : UInt16) : Decidable (range.Contains port) :=
  inferInstanceAs (Decidable (_ ∧ _))

structure FilterTransport where
  srcs : List FilterPortRange := []
  dsts : List FilterPortRange := []

structure FilterDevice where
  id : Nat

-- `struct filter_vlan_range`; `lo` is the field `from`, `hi` the field `to`.
structure FilterVlanRange where
  lo : UInt16
  hi : UInt16
deriving DecidableEq, Repr

structure FilterRule where
  transport : FilterTransport := {}
  devices : List FilterDevice := []
  vlanRanges : List FilterVlanRange := []

-- An attribute of a signature: its `FILTER_ATTR_COMPILER_INIT_FUNC`, which fills the registry
-- it is given, and its `FILTER_ATTR_QUERY_FUNC`.
structure FilterAttribute where
  Data : Type
  init : ValueRegistry → List (Option FilterRule) → Except Int (Data × ValueRegistry)
  query : Data → Packet → Nat

-- `struct filter`: a registry and a table per vertex, and each leaf's lookup data applied to
-- its query function.
structure Filter where
  lookupCount : Nat
  lookups : Nat → Packet → Nat
  registries : Nat → ValueRegistry
  tables : Nat → ValueTable

def filterInitLookups (rules : List (Option FilterRule)) (filter : Filter) :
    List FilterAttribute → Nat → Except String Filter
  | [], _ => .ok filter
  | attr :: attributes, lookupIdx =>
    match attr.init valueRegistryInit rules with
    | .error _ => .error ("out of memory: failed to compile attribute lookup " ++ toString lookupIdx)
    | .ok (data, registry) =>
      filterInitLookups rules
        { filter with
          lookups := Function.update filter.lookups (filter.lookupCount + lookupIdx) (attr.query data)
          registries := Function.update filter.registries (filter.lookupCount + lookupIdx) registry }
        attributes (lookupIdx + 1)

def filterMergeVertex (filter : Filter) (idx : Nat) : Filter :=
  let merged := mergeAndCollectRegistry (filter.registries (2 * idx)) (filter.registries (2 * idx + 1))
  { filter with
    tables := Function.update filter.tables idx merged.1
    registries := Function.update filter.registries idx merged.2 }

-- The loop runs `idx` from `lookup_count - 1` down to 2: the right fold meets the largest first.
def filterInitVertices (filter : Filter) : Filter :=
  (List.range' 2 (filter.lookupCount - 2)).foldr (fun idx filter => filterMergeVertex filter idx) filter

-- `filter_init`, with every allocation succeeding.
def filterInit (attributes : List FilterAttribute) (rules : List (Option FilterRule)) : Except String Filter :=
  if attributes.length = 0 then .error "filter has no lookups configured"
  else
    let filter : Filter := ⟨attributes.length, fun _ _ => 0, fun _ => valueRegistryInit, fun _ => valueTableInit 0 0⟩
    match filterInitLookups rules filter attributes 0 with
    | .error err => .error err
    | .ok filter =>
      if filter.lookupCount = 1 then
        .ok { filter with
          tables := Function.update filter.tables 0
            (mergeAndSetRegistryValues (initDummyRegistry rules.length) (filter.registries 1)) }
      else
        let filter := filterInitVertices filter
        .ok { filter with
          tables := Function.update filter.tables 1
            (mergeAndSetRegistryValues (filter.registries 2) (filter.registries 3)) }

-- `filter_query` for one packet; every packet of a batch is classified on its own.
def filterQuery (filter : Filter) (packet : Packet) : Nat :=
  let n := filter.lookupCount
  let slots := (List.range n).foldl
    (fun slots ai => Function.update slots (n + ai) (filter.lookups (n + ai) packet)) fun _ => 0
  let slots := (List.range' 2 (n - 2)).foldr
    (fun vtx slots => Function.update slots vtx (valueTableGet (filter.tables vtx) (slots (2 * vtx)) (slots (2 * vtx + 1))))
    slots
  let root := if n > 1 then 1 else 0
  valueTableGet (filter.tables root) (if root = 0 then 0 else slots (2 * root)) (slots (2 * root + 1))

-- The least rule index below `n` that satisfies `holds`, or `FILTER_RULE_INVALID`.
def firstMatch (n : Nat) (holds : Nat → Prop) [DecidablePred holds] : Nat :=
  ((List.range n).find? fun i => holds i).getD FILTER_RULE_INVALID

section FirstMatch

variable {n : Nat} {holds : Nat → Prop} [DecidablePred holds]

theorem firstMatch_of_least {i : Nat} (lt : i < n) (first : holds i) (before : ∀ j < i, ¬holds j) :
    firstMatch n holds = i := by
  have found : (List.range n).find? (fun i => decide (holds i)) = some i :=
    List.find?_range_eq_some.mpr ⟨decide_eq_true first, List.mem_range.mpr lt, fun j lt' => by simpa using before j lt'⟩
  rw [firstMatch, found, Option.getD_some]

theorem firstMatch_of_none (none : ∀ i < n, ¬holds i) : firstMatch n holds = FILTER_RULE_INVALID := by
  have missing : (List.range n).find? (fun i => decide (holds i)) = Option.none :=
    List.find?_range_eq_none.mpr fun j lt => by simpa using none j lt
  rw [firstMatch, missing, Option.getD_none]

theorem firstMatch_le {i : Nat} (lt : i < n) (held : holds i) : firstMatch n holds ≤ i := by
  unfold firstMatch
  cases found : (List.range n).find? (fun i => decide (holds i)) with
  | none =>
    have := List.find?_range_eq_none.mp found i lt
    simp [held] at this
  | some j =>
    obtain ⟨-, -, before⟩ := List.find?_range_eq_some.mp found
    rw [Option.getD_some]
    by_contra later
    have := before i (Nat.lt_of_not_le later)
    simp [held] at this

end FirstMatch

section Single

variable {attr : FilterAttribute} {rules : List (Option FilterRule)}

theorem initDummyRegistry_spec (n : Nat) :
    (initDummyRegistry n).Valid ∧ (initDummyRegistry n).rangeCount = n ∧ ∀ r < n, 0 ∈ (initDummyRegistry n).ranges r := by
  induction n with
  | zero => exact ⟨ValueRegistry.valid_init, rfl, fun r lt => absurd lt (Nat.not_lt_zero r)⟩
  | succ n ih =>
    obtain ⟨valid, count, mem⟩ := ih
    have step : initDummyRegistry (n + 1) = [0].foldl valueRegistryCollect (valueRegistryStart (initDummyRegistry n)) := by
      simp [initDummyRegistry, List.range_succ]
    obtain ⟨valid', count', kept, last⟩ := valid.start_foldl_collect [0]
    rw [step]
    refine ⟨valid', by rw [count', count], fun r lt => ?_⟩
    rcases Nat.lt_succ_iff_lt_or_eq.mp lt with old | rfl
    · rw [kept r (by rw [count]; exact old)]
      exact mem r old
    · have filled := (last 0).mpr (List.mem_singleton_self 0)
      rwa [count] at filled

theorem filterInit_single {data : attr.Data} {registry : ValueRegistry}
    (ok : attr.init valueRegistryInit rules = .ok (data, registry)) :
    ∃ filter, filterInit [attr] rules = .ok filter ∧ ∀ packet,
      filterQuery filter packet =
        valueTableGet (mergeAndSetRegistryValues (initDummyRegistry rules.length) registry) 0 (attr.query data packet) := by
  simp [filterInit, filterInitLookups, ok, filterQuery]

theorem filterQuery_single_first {data : attr.Data} {registry : ValueRegistry}
    (ok : attr.init valueRegistryInit rules = .ok (data, registry)) (valid : registry.Valid)
    (count : registry.rangeCount = rules.length) (fits : rules.length ≤ FILTER_RULE_INVALID) :
    ∃ filter, filterInit [attr] rules = .ok filter ∧ ∀ packet, attr.query data packet < valueRegistryCapacity registry →
      filterQuery filter packet = firstMatch rules.length fun r => attr.query data packet ∈ registry.ranges r := by
  obtain ⟨filter, init, query⟩ := filterInit_single ok
  refine ⟨filter, init, fun packet bound => ?_⟩
  obtain ⟨-, dummyCount, dummy⟩ := initDummyRegistry_spec rules.length
  obtain ⟨-, -, first⟩ := mergeAndSetRegistryValues_first valid (dummyCount.trans count.symm) (by rw [dummyCount]; exact fits)
  have both : ∀ r < rules.length, (0 ∈ (initDummyRegistry rules.length).ranges r ∧
      attr.query data packet ∈ registry.ranges r ↔ attr.query data packet ∈ registry.ranges r) :=
    fun r lt => and_iff_right (dummy r lt)
  rw [query]
  rw [dummyCount] at first
  rcases first 0 (Nat.succ_pos _) _ bound with ⟨i, lt, held, before, eq⟩ | ⟨none, eq⟩
  · rw [eq]
    exact (firstMatch_of_least lt ((both i lt).mp held)
      fun j lt' => fun mem => before j lt' ((both j (Nat.lt_trans lt' lt)).mpr mem)).symm
  · rw [eq]
    exact (firstMatch_of_none fun i lt mem => none i lt ((both i lt).mpr mem)).symm

end Single


end Yanet
