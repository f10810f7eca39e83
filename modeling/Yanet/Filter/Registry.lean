import Mathlib.Logic.Function.Basic
import Mathlib.Data.List.Nodup

set_option autoImplicit false

-- Value registries of the filter compiler (`common/registry.h`). A registry holds one range of
-- values per rule, each range without repeats; the generation-stamped collector is what keeps
-- the repeats out. Arrays are functions from their index, and the growth of the range array and
-- of the collector's chunk table is not modelled: both only change where the data lives.

namespace Yanet

structure ValueCollector where
  useMap : Nat → Nat
  gen : Nat

def valueCollectorInit : ValueCollector := ⟨fun _ => 0, 0⟩

def valueCollectorReset (collector : ValueCollector) : ValueCollector :=
  { collector with gen := collector.gen + 1 }

def valueCollectorCheck (collector : ValueCollector) (value : Nat) : Bool :=
  collector.useMap value != collector.gen

def valueCollectorCollect (collector : ValueCollector) (value : Nat) : ValueCollector × Bool :=
  if valueCollectorCheck collector value then
    ({ collector with useMap := Function.update collector.useMap value collector.gen }, true)
  else (collector, false)

structure ValueRegistry where
  collector : ValueCollector
  ranges : Nat → List Nat
  rangeCount : Nat
  maxValue : Nat

def valueRegistryInit : ValueRegistry := ⟨valueCollectorInit, fun _ => [], 0, 0⟩

def valueRegistryStart (registry : ValueRegistry) : ValueRegistry :=
  { registry with
    collector := valueCollectorReset registry.collector
    ranges := Function.update registry.ranges registry.rangeCount []
    rangeCount := registry.rangeCount + 1 }

-- The value goes to the last range, `ranges[range_count - 1]`.
def valueRegistryCollect (registry : ValueRegistry) (value : Nat) : ValueRegistry :=
  match valueCollectorCollect registry.collector value with
  | (collector, true) =>
    { collector
      ranges := Function.update registry.ranges (registry.rangeCount - 1)
        (registry.ranges (registry.rangeCount - 1) ++ [value])
      rangeCount := registry.rangeCount
      maxValue := if value > registry.maxValue then value else registry.maxValue }
  | (_, false) => registry

def valueRegistryCapacity (registry : ValueRegistry) : Nat := registry.maxValue + 1

-- `value_registry_join_range`: the join function sees every pair of values of range
-- `rangeIdx`, the first registry's values in the outer loop.
def valueRegistryJoinRange {σ : Type} (registry1 registry2 : ValueRegistry) (rangeIdx : Nat)
    (joinFunc : Nat → Nat → Nat → σ → σ) (data : σ) : σ :=
  (registry1.ranges rangeIdx).foldl
    (fun data v1 => (registry2.ranges rangeIdx).foldl (fun data v2 => joinFunc v1 v2 rangeIdx data) data)
    data

namespace ValueRegistry

-- What every registry built by `value_registry_init`, `_start` and `_collect` satisfies:
-- the collector has stamped exactly the values of the last range with the current generation.
structure Valid (registry : ValueRegistry) : Prop where
  le_maxValue : ∀ i < registry.rangeCount, ∀ v ∈ registry.ranges i, v ≤ registry.maxValue
  nodup : ∀ i < registry.rangeCount, (registry.ranges i).Nodup
  useMap_le : ∀ v, registry.collector.useMap v ≤ registry.collector.gen
  seen_iff : 0 < registry.rangeCount → ∀ v,
    registry.collector.useMap v = registry.collector.gen ↔ v ∈ registry.ranges (registry.rangeCount - 1)
  seen_empty : registry.rangeCount = 0 → ∀ v, registry.collector.useMap v = registry.collector.gen

variable {registry : ValueRegistry}

@[simp] theorem init_rangeCount : valueRegistryInit.rangeCount = 0 := rfl

@[simp] theorem start_rangeCount : (valueRegistryStart registry).rangeCount = registry.rangeCount + 1 := rfl

@[simp] theorem start_maxValue : (valueRegistryStart registry).maxValue = registry.maxValue := rfl

theorem start_ranges_of_lt {i : Nat} (old : i < registry.rangeCount) :
    (valueRegistryStart registry).ranges i = registry.ranges i := by
  simp [valueRegistryStart, Function.update_of_ne (Nat.ne_of_lt old)]

@[simp] theorem start_ranges_last : (valueRegistryStart registry).ranges registry.rangeCount = [] := by
  simp [valueRegistryStart]

theorem collect_of_seen {value : Nat} (seen : registry.collector.useMap value = registry.collector.gen) :
    valueRegistryCollect registry value = registry := by
  simp [valueRegistryCollect, valueCollectorCollect, valueCollectorCheck, seen]

theorem collect_of_fresh {value : Nat} (fresh : registry.collector.useMap value ≠ registry.collector.gen) :
    valueRegistryCollect registry value =
      { collector := { registry.collector with
          useMap := Function.update registry.collector.useMap value registry.collector.gen }
        ranges := Function.update registry.ranges (registry.rangeCount - 1)
          (registry.ranges (registry.rangeCount - 1) ++ [value])
        rangeCount := registry.rangeCount
        maxValue := if value > registry.maxValue then value else registry.maxValue } := by
  simp [valueRegistryCollect, valueCollectorCollect, valueCollectorCheck, fresh]

@[simp] theorem collect_rangeCount (value : Nat) :
    (valueRegistryCollect registry value).rangeCount = registry.rangeCount := by
  by_cases seen : registry.collector.useMap value = registry.collector.gen
  · rw [collect_of_seen seen]
  · rw [collect_of_fresh seen]

@[simp] theorem foldl_collect_rangeCount {α : Type} (value : α → Nat) (xs : List α) :
    (xs.foldl (fun registry x => valueRegistryCollect registry (value x)) registry).rangeCount = registry.rangeCount := by
  induction xs generalizing registry with
  | nil => rfl
  | cons x xs ih => rw [List.foldl_cons, ih, collect_rangeCount]

theorem collect_ranges_of_ne {i : Nat} (value : Nat) (other : i ≠ registry.rangeCount - 1) :
    (valueRegistryCollect registry value).ranges i = registry.ranges i := by
  by_cases seen : registry.collector.useMap value = registry.collector.gen
  · rw [collect_of_seen seen]
  · rw [collect_of_fresh seen]
    exact Function.update_of_ne other _ _

theorem valid_init : valueRegistryInit.Valid where
  le_maxValue := fun i h => absurd h (Nat.not_lt_zero i)
  nodup := fun i h => absurd h (Nat.not_lt_zero i)
  useMap_le := fun _ => Nat.le_refl 0
  seen_iff := fun h => absurd h (Nat.lt_irrefl 0)
  seen_empty := fun _ _ => rfl

theorem Valid.start (valid : registry.Valid) : (valueRegistryStart registry).Valid where
  le_maxValue := by
    intro i lt v mem
    rcases Nat.lt_succ_iff_lt_or_eq.mp lt with old | rfl
    · rw [start_ranges_of_lt old] at mem
      exact valid.le_maxValue i old v mem
    · simp at mem
  nodup := by
    intro i lt
    rcases Nat.lt_succ_iff_lt_or_eq.mp lt with old | rfl
    · rw [start_ranges_of_lt old]
      exact valid.nodup i old
    · simp
  useMap_le := fun v => Nat.le_succ_of_le (valid.useMap_le v)
  seen_iff := by
    intro _ v
    have stale : registry.collector.useMap v ≠ registry.collector.gen + 1 :=
      Nat.ne_of_lt (Nat.lt_succ_of_le (valid.useMap_le v))
    simpa [valueRegistryStart, valueCollectorReset] using stale
  seen_empty := fun h => absurd h (Nat.succ_ne_zero _)

theorem Valid.collect (valid : registry.Valid) (value : Nat) : (valueRegistryCollect registry value).Valid := by
  by_cases seen : registry.collector.useMap value = registry.collector.gen
  · rwa [collect_of_seen seen]
  have started : 0 < registry.rangeCount :=
    Nat.pos_of_ne_zero fun empty => seen (valid.seen_empty empty value)
  have fresh : value ∉ registry.ranges (registry.rangeCount - 1) :=
    fun mem => seen ((valid.seen_iff started value).mpr mem)
  rw [collect_of_fresh seen]
  constructor <;> dsimp only
  · intro i lt v mem
    have grown : registry.maxValue ≤ (if value > registry.maxValue then value else registry.maxValue) := by
      split <;> omega
    by_cases last : i = registry.rangeCount - 1
    · subst last
      simp only [Function.update_self, List.mem_append, List.mem_singleton] at mem
      rcases mem with old | rfl
      · exact Nat.le_trans (valid.le_maxValue _ lt v old) grown
      · split <;> omega
    · rw [Function.update_of_ne last] at mem
      exact Nat.le_trans (valid.le_maxValue i lt v mem) grown
  · intro i lt
    by_cases last : i = registry.rangeCount - 1
    · subst last
      rw [Function.update_self, List.nodup_append]
      refine ⟨valid.nodup _ lt, List.nodup_singleton value, ?_⟩
      rintro a held b once rfl
      rw [List.mem_singleton] at once
      exact fresh (once ▸ held)
    · rw [Function.update_of_ne last]
      exact valid.nodup i lt
  · intro v
    by_cases same : v = value
    · subst same; simp
    · simpa [Function.update_of_ne same] using valid.useMap_le v
  · intro _ v
    by_cases same : v = value
    · subst same; simp
    · simpa [Function.update_of_ne same, same] using valid.seen_iff started v
  · intro empty
    exact absurd empty (Nat.pos_iff_ne_zero.mp started)

theorem Valid.lt_capacity (valid : registry.Valid) {i v : Nat} (lt : i < registry.rangeCount)
    (mem : v ∈ registry.ranges i) : v < valueRegistryCapacity registry :=
  Nat.lt_succ_of_le (valid.le_maxValue i lt v mem)

theorem mem_collect_last (valid : registry.Valid) (started : 0 < registry.rangeCount) (value v : Nat) :
    v ∈ (valueRegistryCollect registry value).ranges (registry.rangeCount - 1) ↔
      v ∈ registry.ranges (registry.rangeCount - 1) ∨ v = value := by
  by_cases seen : registry.collector.useMap value = registry.collector.gen
  · rw [collect_of_seen seen]
    have held := (valid.seen_iff started value).mp seen
    constructor
    · exact Or.inl
    · rintro (mem | rfl)
      · exact mem
      · exact held
  · rw [collect_of_fresh seen]
    simp

theorem Valid.foldl_collect (valid : registry.Valid) (started : 0 < registry.rangeCount) (values : List Nat) :
    (values.foldl valueRegistryCollect registry).Valid ∧
    (values.foldl valueRegistryCollect registry).rangeCount = registry.rangeCount ∧
    (∀ i, i ≠ registry.rangeCount - 1 → (values.foldl valueRegistryCollect registry).ranges i = registry.ranges i) ∧
    ∀ v, v ∈ (values.foldl valueRegistryCollect registry).ranges (registry.rangeCount - 1) ↔
      v ∈ registry.ranges (registry.rangeCount - 1) ∨ v ∈ values := by
  induction values generalizing registry with
  | nil => simpa using valid
  | cons value rest ih =>
    have count : (valueRegistryCollect registry value).rangeCount = registry.rangeCount := collect_rangeCount value
    obtain ⟨valid', count', others, mem⟩ := ih (valid.collect value) (count ▸ started)
    rw [count] at count' others mem
    refine ⟨valid', count', fun i ne => (others i ne).trans (collect_ranges_of_ne value ne), fun v => ?_⟩
    rw [List.foldl_cons, mem, mem_collect_last valid started, List.mem_cons]
    constructor
    · rintro ((old | rfl) | later)
      · exact Or.inl old
      · exact Or.inr (Or.inl rfl)
      · exact Or.inr (Or.inr later)
    · rintro (old | rfl | later)
      · exact Or.inl (Or.inl old)
      · exact Or.inl (Or.inr rfl)
      · exact Or.inr later

theorem Valid.start_foldl_collect (valid : registry.Valid) (values : List Nat) :
    (values.foldl valueRegistryCollect (valueRegistryStart registry)).Valid ∧
    (values.foldl valueRegistryCollect (valueRegistryStart registry)).rangeCount = registry.rangeCount + 1 ∧
    (∀ i < registry.rangeCount,
      (values.foldl valueRegistryCollect (valueRegistryStart registry)).ranges i = registry.ranges i) ∧
    ∀ v, v ∈ (values.foldl valueRegistryCollect (valueRegistryStart registry)).ranges registry.rangeCount ↔ v ∈ values := by
  obtain ⟨valid', count, others, last⟩ := valid.start.foldl_collect (Nat.succ_pos _) values
  simp only [start_rangeCount, Nat.add_sub_cancel] at count others last
  refine ⟨valid', count, fun i lt => ?_, fun v => ?_⟩
  · rw [others i (Nat.ne_of_lt lt), start_ranges_of_lt lt]
  · rw [last, start_ranges_last]
    simp

theorem Valid.foldl_start_collect {α : Type} (valid : registry.Valid) (values : α → List Nat) (xs : List α) :
    (xs.foldl (fun registry x => (values x).foldl valueRegistryCollect (valueRegistryStart registry)) registry).Valid ∧
    (xs.foldl (fun registry x => (values x).foldl valueRegistryCollect (valueRegistryStart registry)) registry).rangeCount =
      registry.rangeCount + xs.length ∧
    (∀ i < registry.rangeCount,
      (xs.foldl (fun registry x => (values x).foldl valueRegistryCollect (valueRegistryStart registry)) registry).ranges i =
        registry.ranges i) ∧
    ∀ i (lt : i < xs.length), ∀ v,
      v ∈ (xs.foldl (fun registry x => (values x).foldl valueRegistryCollect (valueRegistryStart registry))
        registry).ranges (registry.rangeCount + i) ↔ v ∈ values xs[i] := by
  induction xs generalizing registry with
  | nil => exact ⟨valid, rfl, fun _ _ => rfl, fun i lt => absurd lt (Nat.not_lt_zero i)⟩
  | cons x xs ih =>
    obtain ⟨valid', count', kept', last'⟩ := valid.start_foldl_collect (values x)
    obtain ⟨validRest, countRest, keptRest, memRest⟩ := ih valid'
    rw [count'] at countRest keptRest memRest
    rw [List.foldl_cons]
    refine ⟨validRest, by rw [countRest, List.length_cons]; omega, fun i lt => ?_, fun i lt v => ?_⟩
    · rw [keptRest i (Nat.lt_succ_of_lt lt), kept' i lt]
    · cases i with
      | zero =>
        rw [Nat.add_zero, keptRest _ (Nat.lt_succ_self _), last']
        rfl
      | succ j =>
        rw [show registry.rangeCount + (j + 1) = registry.rangeCount + 1 + j by omega]
        exact memRest j (Nat.lt_of_succ_lt_succ lt) v

end ValueRegistry

end Yanet
