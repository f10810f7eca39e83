import Yanet.Filter.Remap

set_option autoImplicit false

-- The inner vertices of the filter tree (`lib/filter/compiler/helper.c`). Two registries with a
-- range per rule are joined into a table indexed by their classes: `merge_and_set_registry_values`
-- writes the first rule whose ranges hold both classes, `merge_and_collect_registry` numbers the
-- classes of the pairs that no rule tells apart and collects, per rule, the numbers of its pairs.

namespace Yanet

open Partition

def FILTER_RULE_INVALID : Nat := 0xffffffff

def initDummyRegistry (actions : Nat) : ValueRegistry :=
  (List.range actions).foldl (fun registry _ => valueRegistryCollect (valueRegistryStart registry) 0)
    valueRegistryInit

def valueTableSetAction (v1 v2 idx : Nat) (table : ValueTable) : ValueTable :=
  if table.values (valueTableGetPtr table v1 v2) ≠ FILTER_RULE_INVALID then table
  else table.write (valueTableGetPtr table v1 v2) idx

def mergeAndSetRegistryValues (registry1 registry2 : ValueRegistry) : ValueTable :=
  let table := valueTableInit (valueRegistryCapacity registry1) (valueRegistryCapacity registry2)
  -- the loops over `v_idx` and `h_idx` reset every cell
  let table := { table with
    values := fun ptr => if ptr < table.vDim * table.hDim then FILTER_RULE_INVALID else table.values ptr }
  (List.range registry1.rangeCount).foldl
    (fun table rangeIdx => valueRegistryJoinRange registry1 registry2 rangeIdx valueTableSetAction table) table

def valueTableTouchAction (v1 v2 _idx : Nat) (data : ValueTable × RemapTable) : ValueTable × RemapTable :=
  valueTableTouch data (valueTableGetPtr data.1 v1 v2)

def mergeRegistryValues (registry1 registry2 : ValueRegistry) : ValueTable :=
  let table := valueTableInit (valueRegistryCapacity registry1) (valueRegistryCapacity registry2)
  let remapTable := remapTableInit (valueRegistryCapacity registry1 * valueRegistryCapacity registry2)
  let data := (List.range registry1.rangeCount).foldl
    (fun data rangeIdx =>
      valueRegistryJoinRange registry1 registry2 rangeIdx valueTableTouchAction (data.1, remapTableNewGen data.2))
    (table, remapTable)
  valueTableCompact data.1 (remapTableCompact data.2)

def valueTableCollectAction (table : ValueTable) (v1 v2 _idx : Nat) (registry : ValueRegistry) : ValueRegistry :=
  valueRegistryCollect registry (valueTableGet table v1 v2)

def collectRegistryValues (registry1 registry2 : ValueRegistry) (table : ValueTable) : ValueRegistry :=
  (List.range registry1.rangeCount).foldl
    (fun registry rangeIdx =>
      valueRegistryJoinRange registry1 registry2 rangeIdx (valueTableCollectAction table) (valueRegistryStart registry))
    valueRegistryInit

def mergeAndCollectRegistry (registry1 registry2 : ValueRegistry) : ValueTable × ValueRegistry :=
  let table := mergeRegistryValues registry1 registry2
  (table, collectRegistryValues registry1 registry2 table)

-- The pointers a join visits in a table `width` wide.
def cellsOf (values1 values2 : List Nat) (width : Nat) : List Nat :=
  values1.flatMap fun v1 => values2.map fun v2 => v1 * width + v2

section Cells

variable {values1 values2 : List Nat} {width : Nat}

theorem mem_cellsOf {ptr : Nat} :
    ptr ∈ cellsOf values1 values2 width ↔ ∃ v1 ∈ values1, ∃ v2 ∈ values2, v1 * width + v2 = ptr := by
  simp [cellsOf]

theorem pair_eq {v1 v2 c1 c2 : Nat} (lt2 : v2 < width) (lt : c2 < width) (same : v1 * width + v2 = c1 * width + c2) :
    v1 = c1 ∧ v2 = c2 := by
  have div := congrArg (· / width) same
  have mod := congrArg (· % width) same
  simp only [Nat.mul_comm v1, Nat.mul_comm c1, Nat.mul_add_div (Nat.zero_lt_of_lt lt), Nat.div_eq_of_lt lt2,
    Nat.div_eq_of_lt lt, Nat.mul_add_mod, Nat.mod_eq_of_lt lt2, Nat.mod_eq_of_lt lt] at div mod
  exact ⟨by simpa using div, mod⟩

theorem cell_mem_cellsOf {c1 c2 : Nat} (bound : ∀ v ∈ values2, v < width) (lt : c2 < width) :
    c1 * width + c2 ∈ cellsOf values1 values2 width ↔ c1 ∈ values1 ∧ c2 ∈ values2 := by
  rw [mem_cellsOf]
  constructor
  · rintro ⟨v1, m1, v2, m2, same⟩
    obtain ⟨rfl, rfl⟩ := pair_eq (bound v2 m2) lt same
    exact ⟨m1, m2⟩
  · rintro ⟨m1, m2⟩
    exact ⟨c1, m1, c2, m2, rfl⟩

theorem pair_lt {height v1 v2 : Nat} (lt1 : v1 < height) (lt2 : v2 < width) : v1 * width + v2 < height * width :=
  calc v1 * width + v2 < v1 * width + width := Nat.add_lt_add_left lt2 _
    _ = (v1 + 1) * width := (Nat.succ_mul v1 width).symm
    _ ≤ height * width := Nat.mul_le_mul_right width lt1

theorem cellsOf_lt {height : Nat} (bound1 : ∀ v ∈ values1, v < height) (bound2 : ∀ v ∈ values2, v < width)
    {ptr : Nat} (mem : ptr ∈ cellsOf values1 values2 width) : ptr < height * width := by
  obtain ⟨v1, m1, v2, m2, rfl⟩ := mem_cellsOf.mp mem
  exact pair_lt (bound1 v1 m1) (bound2 v2 m2)

theorem cellsOf_nodup (nodup1 : values1.Nodup) (nodup2 : values2.Nodup) (bound2 : ∀ v ∈ values2, v < width) :
    (cellsOf values1 values2 width).Nodup := by
  induction values1 with
  | nil => exact List.nodup_nil
  | cons v1 rest ih =>
    obtain ⟨notin, nodup⟩ := List.nodup_cons.mp nodup1
    simp only [cellsOf, List.flatMap_cons] at ih ⊢
    refine List.nodup_append.mpr ⟨?_, ih nodup, ?_⟩
    · exact nodup2.map fun a b same => Nat.add_left_cancel same
    · intro a ma b mb same
      obtain ⟨v2, m2, rfl⟩ := List.mem_map.mp ma
      obtain ⟨w1, mw1, w2, mw2, eq⟩ := mem_cellsOf.mp mb
      obtain ⟨rfl, -⟩ := pair_eq (bound2 w2 mw2) (bound2 v2 m2) (eq.trans same.symm)
      exact notin mw1

theorem joinRange_eq_foldl {σ : Type} (registry1 registry2 : ValueRegistry) (rangeIdx width : Nat)
    (joinFunc : Nat → Nat → Nat → σ → σ) (f : σ → Nat → σ) (P : σ → Prop)
    (act : ∀ v1 v2 s, P s → joinFunc v1 v2 rangeIdx s = f s (v1 * width + v2))
    (keep : ∀ s ptr, P s → P (f s ptr)) {s : σ} (hs : P s) :
    valueRegistryJoinRange registry1 registry2 rangeIdx joinFunc s =
      (cellsOf (registry1.ranges rangeIdx) (registry2.ranges rangeIdx) width).foldl f s := by
  have row : ∀ (l : List Nat) (v1 : Nat) (s : σ), P s →
      l.foldl (fun s v2 => joinFunc v1 v2 rangeIdx s) s = (l.map fun v2 => v1 * width + v2).foldl f s ∧
        P ((l.map fun v2 => v1 * width + v2).foldl f s) := by
    intro l v1
    induction l with
    | nil => exact fun s hs => ⟨rfl, hs⟩
    | cons v2 rest ih =>
      intro s hs
      rw [List.foldl_cons, List.map_cons, List.foldl_cons, act v1 v2 s hs]
      exact ih _ (keep s _ hs)
  unfold valueRegistryJoinRange cellsOf
  induction registry1.ranges rangeIdx generalizing s with
  | nil => rfl
  | cons v1 rest ih =>
    obtain ⟨eq, kept⟩ := row (registry2.ranges rangeIdx) v1 s hs
    rw [List.foldl_cons, List.flatMap_cons, List.foldl_append, eq]
    exact ih kept

end Cells

-- The cells of the joined table that rule `rangeIdx` reaches.
def joinCells (registry1 registry2 : ValueRegistry) (rangeIdx : Nat) : List Nat :=
  cellsOf (registry1.ranges rangeIdx) (registry2.ranges rangeIdx) (valueRegistryCapacity registry2)

section Join

variable {registry1 registry2 : ValueRegistry}

theorem joinCells_facts (valid1 : registry1.Valid) (valid2 : registry2.Valid) {rangeIdx : Nat}
    (lt1 : rangeIdx < registry1.rangeCount) (lt2 : rangeIdx < registry2.rangeCount) :
    (joinCells registry1 registry2 rangeIdx).Nodup ∧
      ∀ ptr ∈ joinCells registry1 registry2 rangeIdx,
        ptr < valueRegistryCapacity registry1 * valueRegistryCapacity registry2 :=
  ⟨cellsOf_nodup (valid1.nodup _ lt1) (valid2.nodup _ lt2) fun _ mem => valid2.lt_capacity lt2 mem,
    fun _ mem => cellsOf_lt (fun _ m => valid1.lt_capacity lt1 m) (fun _ m => valid2.lt_capacity lt2 m) mem⟩

theorem joinRange_touch (rangeIdx : Nat) {data : ValueTable × RemapTable}
    (width : data.1.hDim = valueRegistryCapacity registry2) :
    valueRegistryJoinRange registry1 registry2 rangeIdx valueTableTouchAction data =
      (joinCells registry1 registry2 rangeIdx).foldl valueTableTouch data :=
  joinRange_eq_foldl registry1 registry2 rangeIdx _ _ _ (fun s => s.1.hDim = valueRegistryCapacity registry2)
    (fun v1 v2 s h => by simp [valueTableTouchAction, valueTableGetPtr, h]) (fun s ptr h => by simpa using h) width

theorem foldl_valueTableTouch_dims (cells : List Nat) (data : ValueTable × RemapTable) :
    (cells.foldl valueTableTouch data).1.vDim = data.1.vDim ∧ (cells.foldl valueTableTouch data).1.hDim = data.1.hDim := by
  induction cells generalizing data with
  | nil => exact ⟨rfl, rfl⟩
  | cons c rest ih => simpa using ih (valueTableTouch data c)

-- After the touches of the first `r` rules: the cells of the table are told apart exactly by
-- the rules that reach them, and the cells no rule reaches still hold key 0.
structure MergeInv (registry1 registry2 : ValueRegistry) (r : Nat) (data : ValueTable × RemapTable) : Prop where
  vDim : data.1.vDim = valueRegistryCapacity registry1
  hDim : data.1.hDim = valueRegistryCapacity registry2
  remap : RemapInv (valueRegistryCapacity registry1 * valueRegistryCapacity registry2) data.1.values data.2
  separates : Separates {i | i < valueRegistryCapacity registry1 * valueRegistryCapacity registry2}
    (fun r i => i ∈ joinCells registry1 registry2 r) r data.1.values
  zero : ∀ i < valueRegistryCapacity registry1 * valueRegistryCapacity registry2,
    (∀ r' < r, i ∉ joinCells registry1 registry2 r') → data.1.values i = 0

theorem mergeInv_init :
    MergeInv registry1 registry2 0
      (valueTableInit (valueRegistryCapacity registry1) (valueRegistryCapacity registry2),
        remapTableInit (valueRegistryCapacity registry1 * valueRegistryCapacity registry2)) where
  vDim := rfl
  hDim := rfl
  remap := remapInv_init _
  separates := separates_zero fun _ _ => rfl
  zero := fun _ _ _ => rfl

theorem MergeInv.step (valid1 : registry1.Valid) (valid2 : registry2.Valid) {r : Nat}
    (lt1 : r < registry1.rangeCount) (lt2 : r < registry2.rangeCount) {data : ValueTable × RemapTable}
    (inv : MergeInv registry1 registry2 r data) :
    MergeInv registry1 registry2 (r + 1)
      (valueRegistryJoinRange registry1 registry2 r valueTableTouchAction (data.1, remapTableNewGen data.2)) := by
  obtain ⟨nodup, bound⟩ := joinCells_facts valid1 valid2 lt1 lt2
  rw [joinRange_touch r (show (data.1, remapTableNewGen data.2).1.hDim = _ from inv.hDim)]
  have touched := (inv.remap.newGen.foldl (joinCells registry1 registry2 r) (data.1, remapTableNewGen data.2)
    nodup bound fun _ _ no => no)
  obtain ⟨remap, refine⟩ := touched.finish
  obtain ⟨vDim, hDim⟩ := foldl_valueTableTouch_dims (joinCells registry1 registry2 r) (data.1, remapTableNewGen data.2)
  refine ⟨vDim.trans inv.vDim, hDim.trans inv.hDim, remap, ?_, ?_⟩
  · apply inv.separates.refine
    intro i hi j hj
    rw [refine i hi j hj]
    simp only [or_false]
  · intro i lt none
    rw [touched.untouched i lt fun mem => (none r (Nat.lt_succ_self r)) (mem.resolve_right id)]
    exact inv.zero i lt fun r' lt' => none r' (Nat.lt_succ_of_lt lt')

theorem mergeInv_foldl (valid1 : registry1.Valid) (valid2 : registry2.Valid)
    (same : registry1.rangeCount = registry2.rangeCount) {r : Nat} (le : r ≤ registry1.rangeCount) :
    MergeInv registry1 registry2 r ((List.range r).foldl
      (fun data rangeIdx =>
        valueRegistryJoinRange registry1 registry2 rangeIdx valueTableTouchAction (data.1, remapTableNewGen data.2))
      (valueTableInit (valueRegistryCapacity registry1) (valueRegistryCapacity registry2),
        remapTableInit (valueRegistryCapacity registry1 * valueRegistryCapacity registry2))) := by
  induction r with
  | zero => exact mergeInv_init
  | succ r ih =>
    rw [List.range_succ, List.foldl_append, List.foldl_cons, List.foldl_nil]
    have lt := Nat.lt_of_succ_le le
    exact (ih (Nat.le_of_lt lt)).step valid1 valid2 lt (same ▸ lt)

theorem MergeInv.compact {r : Nat} {data : ValueTable × RemapTable} (inv : MergeInv registry1 registry2 r data) :
    (valueTableCompact data.1 (remapTableCompact data.2)).hDim = valueRegistryCapacity registry2 ∧
    Separates {i | i < valueRegistryCapacity registry1 * valueRegistryCapacity registry2}
      (fun r i => i ∈ joinCells registry1 registry2 r) r (valueTableCompact data.1 (remapTableCompact data.2)).values ∧
    ∀ i < valueRegistryCapacity registry1 * valueRegistryCapacity registry2,
      (∀ r' < r, i ∉ joinCells registry1 registry2 r') → (valueTableCompact data.1 (remapTableCompact data.2)).values i = 0 := by
  have held : ∀ i < valueRegistryCapacity registry1 * valueRegistryCapacity registry2,
      (data.2.keys (data.1.values i)).count ≠ 0 := by
    intro i lt
    rw [inv.remap.refs _ (inv.remap.lt_count i lt)]
    exact Nat.ne_of_gt (holders_pos lt)
  have ranked : ∀ i < valueRegistryCapacity registry1 * valueRegistryCapacity registry2,
      (valueTableCompact data.1 (remapTableCompact data.2)).values i =
        rank (fun j => (data.2.keys j).count ≠ 0) (data.1.values i) := by
    intro i lt
    simp only [valueTableCompact, inv.vDim, inv.hDim, if_pos lt]
    exact compacted_of_held data.2 (inv.remap.lt_count i lt) (held i lt)
  refine ⟨inv.hDim, inv.separates.map _ ranked fun i hi j hj same => rank_inj _ (held i hi) (held j hj) same, ?_⟩
  intro i lt none
  rw [ranked i lt, inv.zero i lt none]
  rfl

-- After collecting the first `r` rules: range `r'` holds the classes of the cells rule `r'`
-- reaches.
structure CollectInv (registry1 registry2 : ValueRegistry) (table : ValueTable) (r : Nat)
    (registry : ValueRegistry) : Prop where
  valid : registry.Valid
  count : registry.rangeCount = r
  mem : ∀ r' < r, ∀ x, x ∈ registry.ranges r' ↔ ∃ ptr ∈ joinCells registry1 registry2 r', table.values ptr = x

theorem joinRange_collect {table : ValueTable} (width : table.hDim = valueRegistryCapacity registry2)
    (rangeIdx : Nat) (registry : ValueRegistry) :
    valueRegistryJoinRange registry1 registry2 rangeIdx (valueTableCollectAction table) registry =
      ((joinCells registry1 registry2 rangeIdx).map table.values).foldl valueRegistryCollect registry := by
  rw [List.foldl_map]
  exact joinRange_eq_foldl registry1 registry2 rangeIdx _ _ _ (fun _ => True)
    (fun v1 v2 s _ => by simp [valueTableCollectAction, valueTableGet, valueTableGetPtr, width])
    (fun _ _ _ => trivial) trivial

theorem CollectInv.step {table : ValueTable} (width : table.hDim = valueRegistryCapacity registry2) {r : Nat}
    {registry : ValueRegistry} (inv : CollectInv registry1 registry2 table r registry) :
    CollectInv registry1 registry2 table (r + 1)
      (valueRegistryJoinRange registry1 registry2 r (valueTableCollectAction table) (valueRegistryStart registry)) := by
  rw [joinRange_collect width]
  have started : 0 < (valueRegistryStart registry).rangeCount := Nat.succ_pos _
  obtain ⟨valid, count, others, mem⟩ :=
    inv.valid.start.foldl_collect started ((joinCells registry1 registry2 r).map table.values)
  simp only [ValueRegistry.start_rangeCount, Nat.add_sub_cancel, inv.count] at count others mem
  refine ⟨valid, count, ?_⟩
  intro r' lt x
  rcases Nat.lt_succ_iff_lt_or_eq.mp lt with old | rfl
  · rw [others r' (Nat.ne_of_lt old), ValueRegistry.start_ranges_of_lt (inv.count ▸ old)]
    exact inv.mem r' old x
  · rw [mem x, ← inv.count, ValueRegistry.start_ranges_last, List.mem_map]
    simp

theorem collectInv_foldl {table : ValueTable} (width : table.hDim = valueRegistryCapacity registry2) (r : Nat) :
    CollectInv registry1 registry2 table r ((List.range r).foldl
      (fun registry rangeIdx =>
        valueRegistryJoinRange registry1 registry2 rangeIdx (valueTableCollectAction table) (valueRegistryStart registry))
      valueRegistryInit) := by
  induction r with
  | zero => exact ⟨ValueRegistry.valid_init, rfl, fun r' lt => absurd lt (Nat.not_lt_zero r')⟩
  | succ r ih =>
    rw [List.range_succ, List.foldl_append, List.foldl_cons, List.foldl_nil]
    exact ih.step width

-- What `merge_and_set_registry_values` leaves in a cell after the first `r` rules: the first of
-- them that reaches the cell, or `FILTER_RULE_INVALID`.
def FirstRange (registry1 registry2 : ValueRegistry) (r ptr value : Nat) : Prop :=
  (∃ i < r, ptr ∈ joinCells registry1 registry2 i ∧ (∀ j < i, ptr ∉ joinCells registry1 registry2 j) ∧ value = i) ∨
    ((∀ i < r, ptr ∉ joinCells registry1 registry2 i) ∧ value = FILTER_RULE_INVALID)

def valueTableSetCell (idx : Nat) (table : ValueTable) (ptr : Nat) : ValueTable :=
  if table.values ptr ≠ FILTER_RULE_INVALID then table else table.write ptr idx

theorem foldl_valueTableSetCell (idx : Nat) (cells : List Nat) (table : ValueTable) :
    (cells.foldl (valueTableSetCell idx) table).vDim = table.vDim ∧
    (cells.foldl (valueTableSetCell idx) table).hDim = table.hDim ∧
    ∀ ptr, (cells.foldl (valueTableSetCell idx) table).values ptr =
      if ptr ∈ cells ∧ table.values ptr = FILTER_RULE_INVALID then idx else table.values ptr := by
  induction cells generalizing table with
  | nil => simp
  | cons c rest ih =>
    obtain ⟨height, width, values⟩ := ih (valueTableSetCell idx table c)
    refine ⟨by rw [List.foldl_cons, height]; unfold valueTableSetCell; split <;> rfl,
      by rw [List.foldl_cons, width]; unfold valueTableSetCell; split <;> rfl, fun ptr => ?_⟩
    rw [List.foldl_cons, values]
    unfold valueTableSetCell ValueTable.write
    by_cases same : ptr = c
    · subst same
      by_cases set : table.values ptr = FILTER_RULE_INVALID <;> simp [set]
    · by_cases set : table.values c = FILTER_RULE_INVALID <;> simp [set, same]

theorem FirstRange.step {r ptr value : Nat} (fits : r < FILTER_RULE_INVALID) (first : FirstRange registry1 registry2 r ptr value) :
    FirstRange registry1 registry2 (r + 1) ptr
      (if ptr ∈ joinCells registry1 registry2 r ∧ value = FILTER_RULE_INVALID then r else value) := by
  rcases first with ⟨i, lt, mem, before, same⟩ | ⟨none, rfl⟩
  · subst value
    have set : ¬(ptr ∈ joinCells registry1 registry2 r ∧ i = FILTER_RULE_INVALID) :=
      fun h => Nat.lt_irrefl _ (h.2 ▸ Nat.lt_trans lt fits)
    rw [if_neg set]
    exact Or.inl ⟨i, Nat.lt_succ_of_lt lt, mem, before, rfl⟩
  · by_cases mem : ptr ∈ joinCells registry1 registry2 r
    · rw [if_pos ⟨mem, rfl⟩]
      exact Or.inl ⟨r, Nat.lt_succ_self r, mem, none, rfl⟩
    · rw [if_neg fun h => mem h.1]
      refine Or.inr ⟨fun i lt => ?_, rfl⟩
      rcases Nat.lt_succ_iff_lt_or_eq.mp lt with old | rfl
      · exact none i old
      · exact mem

theorem joinRange_set {table : ValueTable} (width : table.hDim = valueRegistryCapacity registry2) (rangeIdx : Nat) :
    valueRegistryJoinRange registry1 registry2 rangeIdx valueTableSetAction table =
      (joinCells registry1 registry2 rangeIdx).foldl (valueTableSetCell rangeIdx) table :=
  joinRange_eq_foldl registry1 registry2 rangeIdx _ _ _ (fun t => t.hDim = valueRegistryCapacity registry2)
    (fun v1 v2 t h => by simp [valueTableSetAction, valueTableSetCell, valueTableGetPtr, h])
    (fun t ptr h => by unfold valueTableSetCell; split <;> exact h) width

theorem firstRange_foldl (table : ValueTable) (height : table.vDim = valueRegistryCapacity registry1)
    (width : table.hDim = valueRegistryCapacity registry2)
    (reset : ∀ ptr < valueRegistryCapacity registry1 * valueRegistryCapacity registry2,
      table.values ptr = FILTER_RULE_INVALID) {r : Nat} (fits : r ≤ FILTER_RULE_INVALID) :
    ((List.range r).foldl
      (fun table rangeIdx => valueRegistryJoinRange registry1 registry2 rangeIdx valueTableSetAction table) table).vDim =
      valueRegistryCapacity registry1 ∧
    ((List.range r).foldl
      (fun table rangeIdx => valueRegistryJoinRange registry1 registry2 rangeIdx valueTableSetAction table) table).hDim =
      valueRegistryCapacity registry2 ∧
    ∀ ptr < valueRegistryCapacity registry1 * valueRegistryCapacity registry2,
      FirstRange registry1 registry2 r ptr (((List.range r).foldl
        (fun table rangeIdx => valueRegistryJoinRange registry1 registry2 rangeIdx valueTableSetAction table)
        table).values ptr) := by
  induction r with
  | zero => exact ⟨height, width, fun ptr lt => Or.inr ⟨fun i lt => absurd lt (Nat.not_lt_zero i), reset ptr lt⟩⟩
  | succ r ih =>
    obtain ⟨height, width, first⟩ := ih (Nat.le_of_succ_le fits)
    rw [List.range_succ, List.foldl_append, List.foldl_cons, List.foldl_nil]
    generalize (List.range r).foldl _ _ = table at height width first ⊢
    rw [joinRange_set width]
    obtain ⟨height', width', values⟩ := foldl_valueTableSetCell r (joinCells registry1 registry2 r) table
    refine ⟨height'.trans height, width'.trans width, fun ptr lt => ?_⟩
    rw [values]
    exact (first ptr lt).step (Nat.lt_of_succ_le fits)

theorem mem_joinCells (valid2 : registry2.Valid) {i : Nat} (lt : i < registry2.rangeCount) {c1 c2 : Nat}
    (hc2 : c2 < valueRegistryCapacity registry2) :
    c1 * valueRegistryCapacity registry2 + c2 ∈ joinCells registry1 registry2 i ↔
      c1 ∈ registry1.ranges i ∧ c2 ∈ registry2.ranges i :=
  cell_mem_cellsOf (fun _ mem => valid2.lt_capacity lt mem) hc2

section Spec

variable (valid1 : registry1.Valid) (valid2 : registry2.Valid) (same : registry1.rangeCount = registry2.rangeCount)
include valid1 valid2 same

theorem mergeRegistryValues_spec :
    (mergeRegistryValues registry1 registry2).vDim = valueRegistryCapacity registry1 ∧
    (mergeRegistryValues registry1 registry2).hDim = valueRegistryCapacity registry2 ∧
    Separates {i | i < valueRegistryCapacity registry1 * valueRegistryCapacity registry2}
      (fun r i => i ∈ joinCells registry1 registry2 r) registry1.rangeCount (mergeRegistryValues registry1 registry2).values ∧
    ∀ i < valueRegistryCapacity registry1 * valueRegistryCapacity registry2,
      (∀ r' < registry1.rangeCount, i ∉ joinCells registry1 registry2 r') → (mergeRegistryValues registry1 registry2).values i = 0 := by
  have inv := mergeInv_foldl valid1 valid2 same (Nat.le_refl registry1.rangeCount)
  exact ⟨inv.vDim, inv.compact⟩

theorem mergeAndCollectRegistry_dims :
    (mergeAndCollectRegistry registry1 registry2).1.vDim = valueRegistryCapacity registry1 ∧
    (mergeAndCollectRegistry registry1 registry2).1.hDim = valueRegistryCapacity registry2 ∧
    (mergeAndCollectRegistry registry1 registry2).2.rangeCount = registry1.rangeCount := by
  obtain ⟨vDim, width, -, -⟩ := mergeRegistryValues_spec valid1 valid2 same
  have collect : CollectInv registry1 registry2 (mergeRegistryValues registry1 registry2) registry1.rangeCount
    (collectRegistryValues registry1 registry2 (mergeRegistryValues registry1 registry2)) := collectInv_foldl width _
  exact ⟨vDim, width, collect.count⟩

theorem mergeAndCollectRegistry_classes :
    (∀ c1 < valueRegistryCapacity registry1, ∀ c2 < valueRegistryCapacity registry2, ∀ i < registry1.rangeCount,
      valueTableGet (mergeAndCollectRegistry registry1 registry2).1 c1 c2 ∈
          (mergeAndCollectRegistry registry1 registry2).2.ranges i ↔
        c1 ∈ registry1.ranges i ∧ c2 ∈ registry2.ranges i) ∧
    ∀ c1 < valueRegistryCapacity registry1, ∀ c2 < valueRegistryCapacity registry2,
      valueTableGet (mergeAndCollectRegistry registry1 registry2).1 c1 c2 <
        valueRegistryCapacity (mergeAndCollectRegistry registry1 registry2).2 := by
  obtain ⟨-, width, sep, zero⟩ := mergeRegistryValues_spec valid1 valid2 same
  have collect : CollectInv registry1 registry2 (mergeRegistryValues registry1 registry2) registry1.rangeCount
    (collectRegistryValues registry1 registry2 (mergeRegistryValues registry1 registry2)) := collectInv_foldl width _
  simp only [mergeAndCollectRegistry]
  generalize mergeRegistryValues registry1 registry2 = table at width sep zero collect ⊢
  generalize collectRegistryValues registry1 registry2 table = registry at collect ⊢
  have cell : ∀ c1 c2, valueTableGet table c1 c2 = table.values (c1 * valueRegistryCapacity registry2 + c2) := by
    intro c1 c2
    rw [valueTableGet, valueTableGetPtr, width]
  refine ⟨fun c1 lt1 c2 lt2 i lt => ?_, fun c1 lt1 c2 lt2 => ?_⟩
  · have inside := pair_lt lt1 lt2
    rw [cell, ← mem_joinCells valid2 (same ▸ lt) lt2, sep.mem_iff lt inside]
    refine (collect.mem i lt _).trans ⟨?_, ?_⟩
    · rintro ⟨ptr, mem, eq⟩
      exact ⟨ptr, (joinCells_facts valid1 valid2 lt (same ▸ lt)).2 ptr mem, mem, eq⟩
    · rintro ⟨ptr, -, mem, eq⟩
      exact ⟨ptr, mem, eq⟩
  · have inside := pair_lt lt1 lt2
    rw [cell]
    by_cases reach : ∃ i < registry1.rangeCount,
        c1 * valueRegistryCapacity registry2 + c2 ∈ joinCells registry1 registry2 i
    · obtain ⟨i, lt, mem⟩ := reach
      have held := (collect.mem i lt _).mpr ⟨_, mem, rfl⟩
      exact collect.valid.lt_capacity (by rw [collect.count]; exact lt) held
    · rw [zero _ inside fun r' lt' mem => reach ⟨r', lt', mem⟩]
      exact Nat.succ_pos _

omit valid1 in
theorem mergeAndSetRegistryValues_first (fits : registry1.rangeCount ≤ FILTER_RULE_INVALID) :
    (mergeAndSetRegistryValues registry1 registry2).vDim = valueRegistryCapacity registry1 ∧
    (mergeAndSetRegistryValues registry1 registry2).hDim = valueRegistryCapacity registry2 ∧
    ∀ c1 < valueRegistryCapacity registry1, ∀ c2 < valueRegistryCapacity registry2,
      (∃ i < registry1.rangeCount, (c1 ∈ registry1.ranges i ∧ c2 ∈ registry2.ranges i) ∧
          (∀ j < i, ¬(c1 ∈ registry1.ranges j ∧ c2 ∈ registry2.ranges j)) ∧
          valueTableGet (mergeAndSetRegistryValues registry1 registry2) c1 c2 = i) ∨
        ((∀ i < registry1.rangeCount, ¬(c1 ∈ registry1.ranges i ∧ c2 ∈ registry2.ranges i)) ∧
          valueTableGet (mergeAndSetRegistryValues registry1 registry2) c1 c2 = FILTER_RULE_INVALID) := by
  obtain ⟨height, width, first⟩ : (mergeAndSetRegistryValues registry1 registry2).vDim = valueRegistryCapacity registry1 ∧
      (mergeAndSetRegistryValues registry1 registry2).hDim = valueRegistryCapacity registry2 ∧
      ∀ ptr < valueRegistryCapacity registry1 * valueRegistryCapacity registry2,
        FirstRange registry1 registry2 registry1.rangeCount ptr ((mergeAndSetRegistryValues registry1 registry2).values ptr) :=
    firstRange_foldl { valueTableInit (valueRegistryCapacity registry1) (valueRegistryCapacity registry2) with
      values := fun ptr => if ptr < valueRegistryCapacity registry1 * valueRegistryCapacity registry2 then
        FILTER_RULE_INVALID else 0 } rfl rfl (fun ptr lt => if_pos lt) fits
  refine ⟨height, width, fun c1 lt1 c2 lt2 => ?_⟩
  have pair : ∀ i < registry1.rangeCount,
      c1 * valueRegistryCapacity registry2 + c2 ∈ joinCells registry1 registry2 i ↔
        c1 ∈ registry1.ranges i ∧ c2 ∈ registry2.ranges i :=
    fun i lt => mem_joinCells valid2 (same ▸ lt) lt2
  rw [valueTableGet, valueTableGetPtr, width]
  rcases first _ (pair_lt lt1 lt2) with ⟨i, lt, mem, before, eq⟩ | ⟨none, eq⟩
  · exact Or.inl ⟨i, lt, (pair i lt).mp mem,
      fun j lt' held => before j lt' ((pair j (Nat.lt_trans lt' lt)).mpr held), eq⟩
  · exact Or.inr ⟨fun i lt held => none i lt ((pair i lt).mpr held), eq⟩

end Spec

end Join

theorem merge_and_collect_registry_refines (registry1 registry2 : ValueRegistry) (valid1 : registry1.Valid)
    (valid2 : registry2.Valid) (same : registry1.rangeCount = registry2.rangeCount)
    (fits : registry1.rangeCount ≤ FILTER_RULE_INVALID) :
    ((mergeAndCollectRegistry registry1 registry2).1.vDim = valueRegistryCapacity registry1 ∧
      (mergeAndCollectRegistry registry1 registry2).1.hDim = valueRegistryCapacity registry2 ∧
      (mergeAndCollectRegistry registry1 registry2).2.rangeCount = registry1.rangeCount) ∧
    (∀ c1 < valueRegistryCapacity registry1, ∀ c2 < valueRegistryCapacity registry2, ∀ i < registry1.rangeCount,
      valueTableGet (mergeAndCollectRegistry registry1 registry2).1 c1 c2 ∈
          (mergeAndCollectRegistry registry1 registry2).2.ranges i ↔
        c1 ∈ registry1.ranges i ∧ c2 ∈ registry2.ranges i) ∧
    (∀ c1 < valueRegistryCapacity registry1, ∀ c2 < valueRegistryCapacity registry2,
      valueTableGet (mergeAndCollectRegistry registry1 registry2).1 c1 c2 <
        valueRegistryCapacity (mergeAndCollectRegistry registry1 registry2).2) ∧
    (mergeAndSetRegistryValues registry1 registry2).vDim = valueRegistryCapacity registry1 ∧
    (mergeAndSetRegistryValues registry1 registry2).hDim = valueRegistryCapacity registry2 ∧
    ∀ c1 < valueRegistryCapacity registry1, ∀ c2 < valueRegistryCapacity registry2,
      (∃ i < registry1.rangeCount, (c1 ∈ registry1.ranges i ∧ c2 ∈ registry2.ranges i) ∧
          (∀ j < i, ¬(c1 ∈ registry1.ranges j ∧ c2 ∈ registry2.ranges j)) ∧
          valueTableGet (mergeAndSetRegistryValues registry1 registry2) c1 c2 = i) ∨
        ((∀ i < registry1.rangeCount, ¬(c1 ∈ registry1.ranges i ∧ c2 ∈ registry2.ranges i)) ∧
          valueTableGet (mergeAndSetRegistryValues registry1 registry2) c1 c2 = FILTER_RULE_INVALID) := by
  obtain ⟨classes, bound⟩ := mergeAndCollectRegistry_classes valid1 valid2 same
  exact ⟨mergeAndCollectRegistry_dims valid1 valid2 same, classes, bound,
    mergeAndSetRegistryValues_first valid2 same fits⟩

-- Two rules: the first accepts class 0 on the left and classes 0 and 1 on the right, the
-- second class 1 on both sides.
def twoRuleRegistry1 : ValueRegistry :=
  valueRegistryCollect (valueRegistryStart (valueRegistryCollect (valueRegistryStart valueRegistryInit) 0)) 1

def twoRuleRegistry2 : ValueRegistry :=
  valueRegistryCollect (valueRegistryStart
    (valueRegistryCollect (valueRegistryCollect (valueRegistryStart valueRegistryInit) 0) 1)) 1

theorem merge_and_collect_registry_refines_two_rules :
    ((mergeAndCollectRegistry twoRuleRegistry1 twoRuleRegistry2).1.vDim = valueRegistryCapacity twoRuleRegistry1 ∧
      (mergeAndCollectRegistry twoRuleRegistry1 twoRuleRegistry2).1.hDim = valueRegistryCapacity twoRuleRegistry2 ∧
      (mergeAndCollectRegistry twoRuleRegistry1 twoRuleRegistry2).2.rangeCount = twoRuleRegistry1.rangeCount) ∧
    (∀ c1 < valueRegistryCapacity twoRuleRegistry1, ∀ c2 < valueRegistryCapacity twoRuleRegistry2,
      ∀ i < twoRuleRegistry1.rangeCount,
      valueTableGet (mergeAndCollectRegistry twoRuleRegistry1 twoRuleRegistry2).1 c1 c2 ∈
          (mergeAndCollectRegistry twoRuleRegistry1 twoRuleRegistry2).2.ranges i ↔
        c1 ∈ twoRuleRegistry1.ranges i ∧ c2 ∈ twoRuleRegistry2.ranges i) ∧
    (∀ c1 < valueRegistryCapacity twoRuleRegistry1, ∀ c2 < valueRegistryCapacity twoRuleRegistry2,
      valueTableGet (mergeAndCollectRegistry twoRuleRegistry1 twoRuleRegistry2).1 c1 c2 <
        valueRegistryCapacity (mergeAndCollectRegistry twoRuleRegistry1 twoRuleRegistry2).2) ∧
    (mergeAndSetRegistryValues twoRuleRegistry1 twoRuleRegistry2).vDim = valueRegistryCapacity twoRuleRegistry1 ∧
    (mergeAndSetRegistryValues twoRuleRegistry1 twoRuleRegistry2).hDim = valueRegistryCapacity twoRuleRegistry2 ∧
    ∀ c1 < valueRegistryCapacity twoRuleRegistry1, ∀ c2 < valueRegistryCapacity twoRuleRegistry2,
      (∃ i < twoRuleRegistry1.rangeCount, (c1 ∈ twoRuleRegistry1.ranges i ∧ c2 ∈ twoRuleRegistry2.ranges i) ∧
          (∀ j < i, ¬(c1 ∈ twoRuleRegistry1.ranges j ∧ c2 ∈ twoRuleRegistry2.ranges j)) ∧
          valueTableGet (mergeAndSetRegistryValues twoRuleRegistry1 twoRuleRegistry2) c1 c2 = i) ∨
        ((∀ i < twoRuleRegistry1.rangeCount, ¬(c1 ∈ twoRuleRegistry1.ranges i ∧ c2 ∈ twoRuleRegistry2.ranges i)) ∧
          valueTableGet (mergeAndSetRegistryValues twoRuleRegistry1 twoRuleRegistry2) c1 c2 = FILTER_RULE_INVALID) :=
  merge_and_collect_registry_refines twoRuleRegistry1 twoRuleRegistry2
    ((ValueRegistry.valid_init.start.collect 0).start.collect 1)
    (((ValueRegistry.valid_init.start.collect 0).collect 1).start.collect 1) (by decide) (by decide)

end Yanet
