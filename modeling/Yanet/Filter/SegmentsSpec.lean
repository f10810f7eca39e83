import Mathlib
import Yanet.Lib.Scan
import Yanet.Filter.Segments
import Yanet.Filter.BtreeSpec

set_option autoImplicit false

-- What a segment classifier answers. The compilers that call `segments_classifier_*_init` give
-- it a fresh registry and label the segments by rule index, in ascending order; from such input
-- the class of a value lies in the range of label `L` exactly when a segment labelled `L`
-- covers the value, and it is 0 exactly when no segment covers it.

namespace Yanet

variable {w : Nat}

def Segment.covers (segment : Segment w) (x : Nat) : Bool :=
  decide (segment.lo.toNat ≤ x) && decide (x ≤ segment.hi.toNat)

theorem Segment.covers_toNat (segment : Segment w) (v : BitVec w) :
    segment.covers v.toNat = true ↔ segment.lo ≤ v ∧ v ≤ segment.hi := by
  simp [Segment.covers, BitVec.le_def]

-- The sum of the point types (open `+1`, close `-1`) of the points at or below `x`.
def openCount (points : List Point) (x : Nat) : Int :=
  ((points.filter fun point => decide (point.x ≤ x)).map fun point => point.type.toInt).sum

theorem openCount_append (l₁ l₂ : List Point) (x : Nat) :
    openCount (l₁ ++ l₂) x = openCount l₁ x + openCount l₂ x := by
  simp [openCount, List.filter_append]

theorem openCount_singleton (point : Point) (x : Nat) :
    openCount [point] x = if point.x ≤ x then point.type.toInt else 0 := by
  by_cases le : point.x ≤ x <;> simp [openCount, le]

theorem openCount_perm {l₁ l₂ : List Point} (perm : l₁.Perm l₂) (x : Nat) : openCount l₁ x = openCount l₂ x :=
  ((perm.filter _).map _).sum_eq

theorem openCount_of_le {points : List Point} {x : Nat} (below : ∀ point ∈ points, point.x ≤ x) :
    openCount points x = (points.map fun point => point.type.toInt).sum := by
  rw [openCount, List.filter_eq_self.mpr fun point mem => decide_eq_true (below point mem)]

-- The open count after one point above `x` is the one before it.
theorem openCount_append_of_lt {pre : List Point} {point : Point} {x : Nat} (lt : x < point.x) :
    openCount (pre ++ [point]) x = openCount pre x := by
  rw [openCount_append, openCount_singleton, if_neg (Nat.not_le_of_lt lt), Int.add_zero]

section Points

variable {segments : List (Segment w)}

-- A segment adds 1 to the open count at each value it covers: above it, its close point `to + 1`
-- cancels its open point; a segment that ends at the type's maximum has no close point.
theorem openCount_segment {segment : Segment w} (valid : segment.lo ≤ segment.hi) {x : Nat} (inside : x < 2 ^ w) :
    openCount (⟨segment.lo.toNat, .POINT_OPEN⟩ ::
        if segment.hi.toNat < 2 ^ w - 1 then [⟨segment.hi.toNat + 1, .POINT_CLOSE⟩] else []) x =
      if segment.covers x then 1 else 0 := by
  have le : segment.lo.toNat ≤ segment.hi.toNat := BitVec.le_def.mp valid
  rw [← List.singleton_append, openCount_append, openCount_singleton]
  by_cases below : segment.hi.toNat < 2 ^ w - 1
  · rw [if_pos below, openCount_singleton]
    by_cases starts : segment.lo.toNat ≤ x <;> by_cases ends : x ≤ segment.hi.toNat <;>
      simp [Segment.covers, PointType.toInt, starts, ends] <;> omega
  · rw [if_neg below]
    have ends : x ≤ segment.hi.toNat := by omega
    by_cases starts : segment.lo.toNat ≤ x <;> simp [openCount, Segment.covers, PointType.toInt, starts, ends]

theorem openCount_createPointsFromSegments (valid : ∀ segment ∈ segments, segment.lo ≤ segment.hi) {x : Nat}
    (inside : x < 2 ^ w) : openCount (createPointsFromSegments segments) x = segments.countP (·.covers x) := by
  unfold createPointsFromSegments
  rw [openCount_perm (List.perm_insertionSort _ _)]
  induction segments with
  | nil => rfl
  | cons segment segments ih =>
    rw [List.flatMap_cons, openCount_append, openCount_segment (valid segment List.mem_cons_self) inside,
      ih fun other mem => valid other (List.mem_cons_of_mem segment mem), List.countP_cons]
    by_cases covered : segment.covers x <;> simp [covered, Int.add_comm]

theorem mem_createPointsFromSegments {point : Point} :
    point ∈ createPointsFromSegments segments ↔ ∃ segment ∈ segments, point = ⟨segment.lo.toNat, .POINT_OPEN⟩ ∨
      (segment.hi.toNat < 2 ^ w - 1 ∧ point = ⟨segment.hi.toNat + 1, .POINT_CLOSE⟩) := by
  unfold createPointsFromSegments
  rw [(List.perm_insertionSort _ _).mem_iff, List.mem_flatMap]
  refine exists_congr fun segment => and_congr_right fun _ => ?_
  by_cases below : segment.hi.toNat < 2 ^ w - 1 <;> simp [below]

theorem createPointsFromSegments_x_lt {point : Point} (mem : point ∈ createPointsFromSegments segments) :
    point.x < 2 ^ w := by
  obtain ⟨segment, _, rfl | ⟨below, rfl⟩⟩ := mem_createPointsFromSegments.mp mem
  · exact segment.lo.isLt
  · dsimp only
    omega

theorem createPointsFromSegments_sorted :
    (createPointsFromSegments segments).Pairwise fun a b => a.x ≤ b.x := by
  have : Std.Total fun a b : Point => a.x ≤ b.x := ⟨fun a b => Nat.le_total a.x b.x⟩
  have : IsTrans Point fun a b => a.x ≤ b.x := ⟨fun _ _ _ => Nat.le_trans⟩
  exact List.pairwise_insertionSort _ _

end Points

theorem getD_lt_getD {coords : List Nat} (ascending : coords.Pairwise (· < ·)) {i j : Nat} (lt : i < j)
    (inside : j < coords.length) : coords.getD i 0 < coords.getD j 0 := by
  rw [List.getD_eq_getElem _ _ (by omega), List.getD_eq_getElem _ _ inside]
  exact List.pairwise_iff_getElem.mp ascending i j (by omega) inside lt

theorem getD_le_getD {coords : List Nat} (ascending : coords.Pairwise (· < ·)) {i j : Nat} (le : i ≤ j)
    (inside : j < coords.length) : coords.getD i 0 ≤ coords.getD j 0 := by
  rcases Nat.lt_or_eq_of_le le with lt | rfl
  · exact Nat.le_of_lt (getD_lt_getD ascending lt inside)
  · exact Nat.le_refl _

-- The body of the loop of `fill_coords_and_opens_*`.
def fillCoordsStep (acc : List Nat × List Int × Int) (point : Point) : List Nat × List Int × Int :=
  let cumulative := acc.2.2 + point.type.toInt
  if acc.1.getLast? = some point.x then (acc.1, acc.2.1.set (acc.2.1.length - 1) cumulative, cumulative)
  else (acc.1 ++ [point.x], acc.2.1 ++ [cumulative], cumulative)

theorem fillCoordsAndOpens_eq (points : List Point) :
    fillCoordsAndOpens points =
      ((points.foldl fillCoordsStep ([], [], 0)).1, (points.foldl fillCoordsStep ([], [], 0)).2.1) := rfl

-- What `fill_coords_and_opens_*` has built after the points `pre`: the distinct coordinates of
-- `pre` in ascending order and, at each, the open count there.
structure CoordsInv (pre : List Point) (coords : List Nat) (opens : List Int) : Prop where
  ascending : coords.Pairwise (· < ·)
  mem_iff : ∀ x, x ∈ coords ↔ ∃ point ∈ pre, point.x = x
  length_eq : opens.length = coords.length
  opens_eq : ∀ i < coords.length, opens.getD i 0 = openCount pre (coords.getD i 0)

theorem coordsInv_nil : CoordsInv [] [] [] :=
  ⟨List.Pairwise.nil, by simp, rfl, fun i lt => absurd lt (Nat.not_lt_zero i)⟩

namespace CoordsInv

variable {pre : List Point} {coords : List Nat} {opens : List Int} {point : Point}

theorem exists_x_append (x : Nat) :
    (∃ q ∈ pre ++ [point], q.x = x) ↔ (∃ q ∈ pre, q.x = x) ∨ point.x = x := by
  simp [or_and_right, exists_or]

-- A point whose `x` is already a coordinate, and is at least every `x` before it, repeats the
-- last coordinate.
theorem lt_of_fresh (inv : CoordsInv pre coords opens) (after : ∀ q ∈ pre, q.x ≤ point.x)
    (fresh : coords.getLast? ≠ some point.x) : ∀ x ∈ coords, x < point.x := by
  intro x mem
  obtain ⟨q, held, rfl⟩ := (inv.mem_iff x).mp mem
  refine Nat.lt_of_le_of_ne (after q held) fun same => fresh ?_
  have top : q.x ≤ coords.getLast (List.ne_nil_of_mem mem) := (inv.ascending.imp Nat.le_of_lt).rel_getLast mem
  obtain ⟨r, held', last⟩ := (inv.mem_iff _).mp (List.getLast_mem (List.ne_nil_of_mem mem))
  have := after r held'
  rw [List.getLast?_eq_some_getLast (List.ne_nil_of_mem mem)]
  congr 1
  omega

theorem merge (inv : CoordsInv pre coords opens) (after : ∀ q ∈ pre, q.x ≤ point.x)
    (last : coords.getLast? = some point.x) :
    CoordsInv (pre ++ [point]) coords
      (opens.set (opens.length - 1) ((pre.map fun q => q.type.toInt).sum + point.type.toInt)) := by
  have top : coords.getD (coords.length - 1) 0 = point.x := by
    rw [List.getD_eq_getElem?_getD, ← List.getLast?_eq_getElem?, last, Option.getD_some]
  have nonempty : 0 < coords.length := List.length_pos_iff.mpr fun empty => by simp [empty] at last
  refine ⟨inv.ascending, fun x => ?_, by rw [List.length_set, inv.length_eq], fun i lt => ?_⟩
  · rw [inv.mem_iff, exists_x_append]
    refine ⟨Or.inl, ?_⟩
    rintro (old | rfl)
    · exact old
    · exact (inv.mem_iff _).mp (List.mem_of_getLast? last)
  · rw [List.getD_eq_getElem?_getD, List.getElem?_set, inv.length_eq]
    by_cases at_last : i = coords.length - 1
    · -- the point's own coordinate: the running total, all of `pre` being at or below it
      subst at_last
      rw [if_pos rfl, if_pos (by omega), Option.getD_some, top, openCount_append, openCount_singleton,
        if_pos (Nat.le_refl _), openCount_of_le after]
    · rw [if_neg (Ne.symm at_last), ← List.getD_eq_getElem?_getD, inv.opens_eq i lt,
        openCount_append_of_lt (top ▸ getD_lt_getD inv.ascending (by omega) (by omega))]

theorem push (inv : CoordsInv pre coords opens) (after : ∀ q ∈ pre, q.x ≤ point.x)
    (fresh : coords.getLast? ≠ some point.x) :
    CoordsInv (pre ++ [point]) (coords ++ [point.x])
      (opens ++ [(pre.map fun q => q.type.toInt).sum + point.type.toInt]) := by
  have below := inv.lt_of_fresh after fresh
  refine ⟨?_, fun x => ?_, by simp [inv.length_eq], fun i lt => ?_⟩
  · exact List.pairwise_append.mpr ⟨inv.ascending, List.pairwise_singleton _ _,
      fun a mem b new => (List.mem_singleton.mp new) ▸ below a mem⟩
  · rw [List.mem_append, inv.mem_iff, List.mem_singleton, exists_x_append]
    exact or_congr_right eq_comm
  · rw [List.length_append, List.length_singleton] at lt
    rcases Nat.lt_succ_iff_lt_or_eq.mp lt with old | rfl
    · rw [List.getD_append _ _ _ _ (inv.length_eq ▸ old), List.getD_append _ _ _ _ old, inv.opens_eq i old,
        openCount_append_of_lt (below _ (List.getD_eq_getElem _ _ old ▸ List.getElem_mem old))]
    · rw [List.getD_append_right _ _ _ _ (Nat.le_of_eq inv.length_eq), inv.length_eq, Nat.sub_self,
        List.getD_append_right _ _ _ _ (Nat.le_refl _), Nat.sub_self, List.getD_cons_zero, List.getD_cons_zero,
        openCount_append, openCount_singleton, if_pos (Nat.le_refl _), openCount_of_le after]

theorem step {acc : List Nat × List Int × Int} (inv : CoordsInv pre acc.1 acc.2.1) (total : acc.2.2 = (pre.map fun q => q.type.toInt).sum)
    (after : ∀ q ∈ pre, q.x ≤ point.x) :
    CoordsInv (pre ++ [point]) (fillCoordsStep acc point).1 (fillCoordsStep acc point).2.1 ∧
      (fillCoordsStep acc point).2.2 = ((pre ++ [point]).map fun q => q.type.toInt).sum := by
  have sum : ((pre ++ [point]).map fun q => q.type.toInt).sum = (pre.map fun q => q.type.toInt).sum + point.type.toInt := by
    simp
  unfold fillCoordsStep
  by_cases last : acc.1.getLast? = some point.x
  · rw [if_pos last, sum, total]
    exact ⟨inv.merge after last, rfl⟩
  · rw [if_neg last, sum, total]
    exact ⟨inv.push after last, rfl⟩

end CoordsInv

-- The loop of `fill_coords_and_opens_*` over points sorted by `x`.
theorem coordsInv_foldl {points : List Point} (sorted : points.Pairwise fun a b => a.x ≤ b.x) :
    CoordsInv points (points.foldl fillCoordsStep ([], [], 0)).1 (points.foldl fillCoordsStep ([], [], 0)).2.1 ∧
      (points.foldl fillCoordsStep ([], [], 0)).2.2 = (points.map fun point => point.type.toInt).sum := by
  induction points using List.reverseRecOn with
  | nil => exact ⟨coordsInv_nil, rfl⟩
  | append_singleton pre point ih =>
    obtain ⟨sortedPre, -, after⟩ := List.pairwise_append.mp sorted
    obtain ⟨inv, total⟩ := ih sortedPre
    rw [List.foldl_append, List.foldl_cons, List.foldl_nil]
    exact inv.step total fun q mem => after q mem point List.mem_cons_self

theorem fillCoordsAndOpens_spec {points : List Point} (sorted : points.Pairwise fun a b => a.x ≤ b.x) :
    CoordsInv points (fillCoordsAndOpens points).1 (fillCoordsAndOpens points).2 := by
  rw [fillCoordsAndOpens_eq]
  exact (coordsInv_foldl sorted).1

namespace ValueRegistry

variable {registry : ValueRegistry}

theorem Valid.repeat_start (valid : registry.Valid) (k : Nat) : (Nat.repeat valueRegistryStart k registry).Valid := by
  induction k with
  | zero => exact valid
  | succ k ih => exact ih.start

-- Ranges started past the last one hold nothing, so starting them changes no range's values.
theorem mem_repeat_start (beyond : ∀ i ≥ registry.rangeCount, ∀ v, v ∉ registry.ranges i) (k i v : Nat) :
    v ∈ (Nat.repeat valueRegistryStart k registry).ranges i ↔ v ∈ registry.ranges i := by
  induction k with
  | zero => rfl
  | succ k ih =>
    show v ∈ Function.update (Nat.repeat valueRegistryStart k registry).ranges
      (Nat.repeat valueRegistryStart k registry).rangeCount [] i ↔ _
    by_cases fresh : i = (Nat.repeat valueRegistryStart k registry).rangeCount
    · rw [fresh, Function.update_self, repeat_start_rangeCount]
      exact iff_of_false List.not_mem_nil (beyond _ (Nat.le_add_right _ _) v)
    · rw [Function.update_of_ne fresh, ih]

section Fill

variable {α : Type} (label : α → Nat) (values : α → List Nat)

-- A registry after the items `done`, taken in ascending label order, each item having started
-- ranges up to its label and collected its values: the ranges reach one past the last label, and
-- the range of each label holds the values of the items with that label.
structure FillInv (done : List α) (registry : ValueRegistry) : Prop where
  valid : registry.Valid
  labels_lt : ∀ x ∈ done, label x < registry.rangeCount
  count_le : ∀ b, (∀ x ∈ done, label x < b) → registry.rangeCount ≤ b
  mem_iff : ∀ L v, v ∈ registry.ranges L ↔ ∃ x ∈ done, label x = L ∧ v ∈ values x

theorem fillInv_init : FillInv label values [] valueRegistryInit :=
  ⟨valid_init, fun _ mem => absurd mem List.not_mem_nil, fun _ _ => Nat.zero_le _, fun _ _ => by simp [valueRegistryInit]⟩

variable {label values}

theorem FillInv.step {done : List α} {y : α} (inv : FillInv label values done registry)
    (after : ∀ x ∈ done, label x ≤ label y) :
    FillInv label values (done ++ [y])
      ((values y).foldl valueRegistryCollect
        (Nat.repeat valueRegistryStart (label y + 1 - registry.rangeCount) registry)) := by
  have le : registry.rangeCount ≤ label y + 1 := inv.count_le _ fun x mem => Nat.lt_succ_of_le (after x mem)
  have beyond : ∀ i ≥ registry.rangeCount, ∀ v, v ∉ registry.ranges i := by
    intro i ge v mem
    obtain ⟨x, held, rfl, -⟩ := (inv.mem_iff i v).mp mem
    exact Nat.lt_irrefl _ (Nat.lt_of_lt_of_le (inv.labels_lt x held) ge)
  have started := inv.valid.repeat_start (label y + 1 - registry.rangeCount)
  have count : (Nat.repeat valueRegistryStart (label y + 1 - registry.rangeCount) registry).rangeCount = label y + 1 := by
    rw [repeat_start_rangeCount]
    omega
  obtain ⟨valid, count', others, last⟩ := started.foldl_collect (by rw [count]; exact Nat.succ_pos _) (values y)
  simp only [count, Nat.add_sub_cancel] at count' others last
  refine ⟨valid, fun x mem => ?_, fun b below => ?_, fun L v => ?_⟩
  · rw [count']
    rcases List.mem_append.mp mem with old | new
    · exact Nat.lt_succ_of_le (after x old)
    · rw [List.mem_singleton.mp new]
      exact Nat.lt_succ_self _
  · rw [count']
    exact below y (List.mem_append_right _ List.mem_cons_self)
  · have split : (∃ x ∈ done ++ [y], label x = L ∧ v ∈ values x) ↔
        (∃ x ∈ done, label x = L ∧ v ∈ values x) ∨ (label y = L ∧ v ∈ values y) := by
      simp [or_and_right, exists_or]
    rw [split, ← inv.mem_iff, ← mem_repeat_start beyond (label y + 1 - registry.rangeCount)]
    by_cases own : L = label y
    · subst own
      rw [last]
      simp
    · rw [others L own]
      simp [Ne.symm own]

theorem fillInv_foldl {xs : List α} (ascending : xs.Pairwise fun x y => label x ≤ label y) :
    FillInv label values xs
      (xs.foldl (fun registry x => (values x).foldl valueRegistryCollect
        (Nat.repeat valueRegistryStart (label x + 1 - registry.rangeCount) registry)) valueRegistryInit) := by
  induction xs using List.reverseRecOn with
  | nil => exact fillInv_init label values
  | append_singleton done y ih =>
    obtain ⟨ascendingDone, -, after⟩ := List.pairwise_append.mp ascending
    rw [List.foldl_append, List.foldl_cons, List.foldl_nil]
    exact (ih ascendingDone).step fun x mem => after x mem y List.mem_cons_self

end Fill

end ValueRegistry

section Classify

variable {coords : List Nat}

-- The number of coordinates at or below `v`: the upper bound the btree answers for `v`.
def coordsUpper (coords : List Nat) (v : Nat) : Nat := coords.countP fun x => decide (x ≤ v)

-- What `segment_*_classify` answers for `v`: the upper bound, unless it is 0 or no segment is
-- open at the coordinate below it.
def segmentClass (coords : List Nat) (opens : List Int) (v : Nat) : Nat :=
  if coordsUpper coords v = 0 ∨ opens.getD (coordsUpper coords v - 1) 0 = 0 then 0 else coordsUpper coords v

theorem pairwise_ofNat (ascending : coords.Pairwise (· < ·)) (bounded : ∀ x ∈ coords, x < 2 ^ w) :
    (coords.map (BitVec.ofNat w)).Pairwise (· ≤ ·) := by
  rw [List.pairwise_map]
  refine ascending.imp_of_mem fun {x y} memx memy lt => ?_
  rw [BitVec.le_def, BitVec.toNat_ofNat, BitVec.toNat_ofNat, Nat.mod_eq_of_lt (bounded x memx),
    Nat.mod_eq_of_lt (bounded y memy)]
  exact Nat.le_of_lt lt

section Btree

variable (positive : 0 < w) (narrow : w ≤ 512) (ascending : coords.Pairwise (· < ·))
  (bounded : ∀ x ∈ coords, x < 2 ^ w)
include positive narrow ascending bounded

theorem btreeUpperBounds_coords (values : List (BitVec w)) :
    btreeUpperBounds (btreeInit w (coords.map (BitVec.ofNat w))) values =
      (values.take btreeMaxBatchSize).map fun v => coordsUpper coords v.toNat := by
  rw [(btreeBounds_btreeInit positive narrow (pairwise_ofNat ascending bounded) values).1]
  refine List.map_congr_left fun v _ => ?_
  rw [coordsUpper, List.countP_map]
  exact List.countP_congr fun x mem => by simp [BitVec.le_def, Nat.mod_eq_of_lt (bounded x mem)]

theorem btreeLowerBound_coords (value : BitVec w) :
    btreeLowerBound (btreeInit w (coords.map (BitVec.ofNat w))) value =
      coords.countP fun x => decide (x < value.toNat) := by
  rw [btreeLowerBound, (btreeBounds_btreeInit positive narrow (pairwise_ofNat ascending bounded) [value]).2,
    List.take_of_length_le (by simp [btreeMaxBatchSize]), List.map_singleton, List.headD_cons, List.countP_map]
  exact List.countP_congr fun x mem => by simp [BitVec.lt_def, Nat.mod_eq_of_lt (bounded x mem)]

theorem segmentsClassify_btreeInit (opens : List Int) (values : List (BitVec w)) :
    segmentsClassify ⟨btreeInit w (coords.map (BitVec.ofNat w)), opens⟩ values =
      (values.take btreeMaxBatchSize).map fun v => segmentClass coords opens v.toNat := by
  rw [segmentsClassify, btreeUpperBounds_coords positive narrow ascending bounded, List.map_map]
  rfl

end Btree

section Sorted

variable (ascending : coords.Pairwise (· < ·))
include ascending

theorem getD_le_iff_lt_upper {i : Nat} (inside : i < coords.length) (v : Nat) :
    coords.getD i 0 ≤ v ↔ i < coordsUpper coords v := by
  have down : ∀ x y : Nat, x ≤ y → decide (y ≤ v) = true → decide (x ≤ v) = true := fun x y le pass =>
    decide_eq_true (Nat.le_trans le (of_decide_eq_true pass))
  rw [coordsUpper, ← Scan.pass_iff_lt_countP (ascending.imp Nat.le_of_lt) _ down inside,
    List.getD_eq_getElem _ _ inside, decide_eq_true_iff]

theorem getD_lt_iff_lt_countP {i : Nat} (inside : i < coords.length) (v : Nat) :
    coords.getD i 0 < v ↔ i < coords.countP fun x => decide (x < v) := by
  have down : ∀ x y : Nat, x ≤ y → decide (y < v) = true → decide (x < v) = true := fun x y le pass =>
    decide_eq_true (Nat.lt_of_le_of_lt le (of_decide_eq_true pass))
  rw [← Scan.pass_iff_lt_countP (ascending.imp Nat.le_of_lt) _ down inside,
    List.getD_eq_getElem _ _ inside, decide_eq_true_iff]

end Sorted

-- The coordinate indices whose classes `fill_registry_from_segments_*` collects for a segment.
def segmentRun (classifier : SegmentsClassifier w) (coords : List Nat) (segment : Segment w) : List Nat :=
  (List.range' (btreeLowerBound classifier.btree segment.lo)
      (classifier.btree.n - btreeLowerBound classifier.btree segment.lo)).takeWhile
    fun i => coords.getD i 0 ≤ segment.hi.toNat

theorem fillRegistryFromSegments_eq (classifier : SegmentsClassifier w) (registry : ValueRegistry)
    (segments : List (Segment w)) (coords : List Nat) :
    fillRegistryFromSegments classifier registry segments coords =
      segments.foldl (fun registry segment => ((segmentRun classifier coords segment).map (· + 1)).foldl
        valueRegistryCollect (Nat.repeat valueRegistryStart (segment.label + 1 - registry.rangeCount) registry))
        registry := by
  simp only [fillRegistryFromSegments, segmentRun, List.foldl_map]

-- The run of a segment is the indices of the coordinates it covers: the lower bound of `from`
-- is the first of them, and the coordinates rise.
theorem mem_segmentRun (positive : 0 < w) (narrow : w ≤ 512) (ascending : coords.Pairwise (· < ·))
    (bounded : ∀ x ∈ coords, x < 2 ^ w) (opens : List Int) (segment : Segment w) (i : Nat) :
    i ∈ segmentRun ⟨btreeInit w (coords.map (BitVec.ofNat w)), opens⟩ coords segment ↔
      i < coords.length ∧ segment.covers (coords.getD i 0) = true := by
  have start : coords.countP (fun x => decide (x < segment.lo.toNat)) ≤ coords.length := List.countP_le_length
  have down : (List.range' (coords.countP fun x => decide (x < segment.lo.toNat))
      (coords.length - coords.countP fun x => decide (x < segment.lo.toNat))).Pairwise
      fun i j => decide (coords.getD j 0 ≤ segment.hi.toNat) = true → decide (coords.getD i 0 ≤ segment.hi.toNat) = true := by
    refine (List.pairwise_lt_range' 1).imp_of_mem fun {i j} _ memj lt pass => ?_
    have inside : j < coords.length := by rw [List.mem_range'_1] at memj; omega
    exact decide_eq_true (Nat.le_trans (getD_le_getD ascending (Nat.le_of_lt lt) inside) (of_decide_eq_true pass))
  rw [segmentRun, btreeLowerBound_coords positive narrow ascending bounded, btreeInit_n, List.length_map,
    Scan.takeWhile_eq_filter_of_pairwise down, List.mem_filter, List.mem_range'_1, Segment.covers, Bool.and_eq_true,
    decide_eq_true_iff, decide_eq_true_iff]
  constructor
  · rintro ⟨⟨first, inside⟩, ends⟩
    have inside : i < coords.length := by omega
    exact ⟨inside, Nat.le_of_not_lt fun lt => Nat.not_le_of_lt ((getD_lt_iff_lt_countP ascending inside _).mp lt) first,
      ends⟩
  · rintro ⟨inside, starts, ends⟩
    exact ⟨⟨Nat.le_of_not_lt fun lt => Nat.not_le_of_lt ((getD_lt_iff_lt_countP ascending inside _).mpr lt) starts,
      by omega⟩, ends⟩

end Classify

section Class

variable {segments : List (Segment w)} {coords : List Nat} {opens : List Int}

-- The last coordinate at or below `v`, the one whose open count the classifier reads, is at
-- least every other coordinate at or below `v`.
theorem le_last_of_le (ascending : coords.Pairwise (· < ·)) {x v : Nat} (mem : x ∈ coords) (le : x ≤ v) :
    0 < coordsUpper coords v ∧ x ≤ coords.getD (coordsUpper coords v - 1) 0 := by
  obtain ⟨j, inside, rfl⟩ := List.mem_iff_getElem.mp mem
  rw [← List.getD_eq_getElem _ 0 inside] at le ⊢
  have below := (getD_le_iff_lt_upper ascending inside v).mp le
  have top : coordsUpper coords v ≤ coords.length := List.countP_le_length
  exact ⟨by omega, getD_le_getD ascending (by omega) (by omega)⟩

theorem last_le (ascending : coords.Pairwise (· < ·)) {v : Nat} (pos : 0 < coordsUpper coords v) :
    coords.getD (coordsUpper coords v - 1) 0 ≤ v := by
  have top : coordsUpper coords v ≤ coords.length := List.countP_le_length
  exact (getD_le_iff_lt_upper ascending (by omega) v).mpr (by omega)

namespace CoordsInv

variable (inv : CoordsInv (createPointsFromSegments segments) coords opens)
include inv

theorem bounded : ∀ x ∈ coords, x < 2 ^ w := by
  intro x mem
  obtain ⟨point, held, rfl⟩ := (inv.mem_iff x).mp mem
  exact createPointsFromSegments_x_lt held

theorem lo_mem {segment : Segment w} (mem : segment ∈ segments) : segment.lo.toNat ∈ coords :=
  (inv.mem_iff _).mpr ⟨_, mem_createPointsFromSegments.mpr ⟨segment, mem, Or.inl rfl⟩, rfl⟩

theorem hi_succ_mem {segment : Segment w} (mem : segment ∈ segments) (below : segment.hi.toNat < 2 ^ w - 1) :
    segment.hi.toNat + 1 ∈ coords :=
  (inv.mem_iff _).mpr ⟨_, mem_createPointsFromSegments.mpr ⟨segment, mem, Or.inr ⟨below, rfl⟩⟩, rfl⟩

-- A segment covers `v` exactly when it covers the last coordinate at or below `v`: it starts at
-- a coordinate and, short of the type's maximum, the coordinate `to + 1` ends it.
theorem covers_iff {segment : Segment w} (mem : segment ∈ segments) {v : Nat} (inside : v < 2 ^ w) :
    segment.covers v = true ↔
      0 < coordsUpper coords v ∧ segment.covers (coords.getD (coordsUpper coords v - 1) 0) = true := by
  simp only [Segment.covers, Bool.and_eq_true, decide_eq_true_iff]
  constructor
  · rintro ⟨starts, ends⟩
    obtain ⟨pos, above⟩ := le_last_of_le inv.ascending (inv.lo_mem mem) starts
    exact ⟨pos, above, Nat.le_trans (last_le inv.ascending pos) ends⟩
  · rintro ⟨pos, starts, ends⟩
    refine ⟨Nat.le_trans starts (last_le inv.ascending pos), Nat.le_of_not_lt fun past => ?_⟩
    have below : segment.hi.toNat < 2 ^ w - 1 := by omega
    have := (le_last_of_le inv.ascending (inv.hi_succ_mem mem below) past).2
    omega

theorem opens_last (valid : ∀ segment ∈ segments, segment.lo ≤ segment.hi) {v : Nat}
    (pos : 0 < coordsUpper coords v) :
    opens.getD (coordsUpper coords v - 1) 0 =
      segments.countP (·.covers (coords.getD (coordsUpper coords v - 1) 0)) := by
  have top : coordsUpper coords v ≤ coords.length := List.countP_le_length
  have inside : coordsUpper coords v - 1 < coords.length := by omega
  have mem := List.getD_eq_getElem coords 0 inside ▸ List.getElem_mem inside
  rw [inv.opens_eq _ inside, openCount_createPointsFromSegments valid (inv.bounded _ mem)]

theorem covered_iff (valid : ∀ segment ∈ segments, segment.lo ≤ segment.hi) {v : Nat} (inside : v < 2 ^ w) :
    (∃ segment ∈ segments, segment.covers v = true) ↔
      0 < coordsUpper coords v ∧ opens.getD (coordsUpper coords v - 1) 0 ≠ 0 := by
  constructor
  · rintro ⟨segment, mem, covered⟩
    obtain ⟨pos, last⟩ := (inv.covers_iff mem inside).mp covered
    refine ⟨pos, ?_⟩
    rw [inv.opens_last valid pos, Ne, Int.natCast_eq_zero, List.countP_eq_zero]
    exact fun none => none segment mem last
  · rintro ⟨pos, opened⟩
    rw [inv.opens_last valid pos, Ne, Int.natCast_eq_zero, ← Ne, ← Nat.pos_iff_ne_zero, List.countP_pos_iff] at opened
    obtain ⟨segment, mem, last⟩ := opened
    exact ⟨segment, mem, (inv.covers_iff mem inside).mpr ⟨pos, last⟩⟩

theorem segmentClass_eq_zero_iff (valid : ∀ segment ∈ segments, segment.lo ≤ segment.hi) {v : Nat}
    (inside : v < 2 ^ w) : segmentClass coords opens v = 0 ↔ ∀ segment ∈ segments, segment.covers v = false := by
  have none : (∀ segment ∈ segments, segment.covers v = false) ↔ ¬∃ segment ∈ segments, segment.covers v = true := by
    simp
  rw [none, inv.covered_iff valid inside, segmentClass]
  by_cases zero : coordsUpper coords v = 0 ∨ opens.getD (coordsUpper coords v - 1) 0 = 0
  · rw [if_pos zero]
    omega
  · rw [if_neg zero]
    omega

-- The class lies in a segment's collected run exactly when the segment covers the value.
theorem segmentClass_mem_run_iff (positive : 0 < w) (narrow : w ≤ 512)
    (valid : ∀ segment ∈ segments, segment.lo ≤ segment.hi) {segment : Segment w} (mem : segment ∈ segments)
    {v : Nat} (inside : v < 2 ^ w) :
    segmentClass coords opens v ∈
        (segmentRun ⟨btreeInit w (coords.map (BitVec.ofNat w)), opens⟩ coords segment).map (· + 1) ↔
      segment.covers v = true := by
  have top : coordsUpper coords v ≤ coords.length := List.countP_le_length
  rw [List.mem_map]
  by_cases zero : segmentClass coords opens v = 0
  · rw [zero, (inv.segmentClass_eq_zero_iff valid inside).mp zero segment mem]
    exact iff_of_false (fun ⟨_, _, succ⟩ => Nat.succ_ne_zero _ succ) Bool.false_ne_true
  · have upper : segmentClass coords opens v = coordsUpper coords v := by
      unfold segmentClass at zero ⊢
      split
      · exact absurd (if_pos ‹_›) zero
      · rfl
    have pos : 0 < coordsUpper coords v := by omega
    rw [upper, inv.covers_iff mem inside, and_iff_right pos]
    constructor
    · rintro ⟨i, run, succ⟩
      rw [← succ, Nat.add_sub_cancel]
      exact ((mem_segmentRun positive narrow inv.ascending inv.bounded opens segment i).mp run).2
    · intro last
      exact ⟨coordsUpper coords v - 1,
        (mem_segmentRun positive narrow inv.ascending inv.bounded opens segment _).mpr ⟨by omega, last⟩, by omega⟩

end CoordsInv

theorem eq_of_mem_zip_map_take {α β : Type} {f : α → β} {l : List α} {n : Nat} {c : β} {v : α}
    (mem : (c, v) ∈ ((l.take n).map f).zip l) : c = f v := by
  induction l generalizing n with
  | nil => simp at mem
  | cons a l ih =>
    cases n with
    | zero => simp at mem
    | succ n =>
      rw [List.take_succ_cons, List.map_cons, List.zip_cons_cons, List.mem_cons] at mem
      rcases mem with same | later
      · cases same
        rfl
      · exact ih later

theorem segmentsClassifierInit_ok {segments : List (Segment w)} (valid : ∀ segment ∈ segments, segment.lo ≤ segment.hi)
    (registry : ValueRegistry) :
    segmentsClassifierInit w registry segments =
      .ok (⟨btreeInit w ((fillCoordsAndOpens (createPointsFromSegments segments)).1.map (BitVec.ofNat w)),
          (fillCoordsAndOpens (createPointsFromSegments segments)).2⟩,
        fillRegistryFromSegments ⟨btreeInit w ((fillCoordsAndOpens (createPointsFromSegments segments)).1.map
          (BitVec.ofNat w)), (fillCoordsAndOpens (createPointsFromSegments segments)).2⟩ registry segments
          (fillCoordsAndOpens (createPointsFromSegments segments)).1) := by
  have checked : validateSegments segments = true := List.all_eq_true.mpr fun segment mem => decide_eq_true (valid segment mem)
  unfold segmentsClassifierInit
  rw [checked]
  rfl

-- From valid segments labelled in ascending order, into a fresh registry: the class of each value
-- of a batch is in the range of label `L` exactly when a segment labelled `L` covers the value,
-- and is 0 exactly when no segment covers it.
theorem segmentsClassifierInit_spec (positive : 0 < w) (narrow : w ≤ 512)
    (valid : ∀ segment ∈ segments, segment.lo ≤ segment.hi)
    (ascending : segments.Pairwise fun a b => a.label ≤ b.label) :
    ∃ classifier registry, segmentsClassifierInit w valueRegistryInit segments = .ok (classifier, registry) ∧
      ∀ values : List (BitVec w),
        (segmentsClassify classifier values).length = min values.length btreeMaxBatchSize ∧
        ∀ c v, (c, v) ∈ (segmentsClassify classifier values).zip values →
          (∀ L, c ∈ registry.ranges L ↔ ∃ segment ∈ segments, segment.label = L ∧ segment.lo ≤ v ∧ v ≤ segment.hi) ∧
          (c = 0 ↔ ∀ segment ∈ segments, ¬(segment.lo ≤ v ∧ v ≤ segment.hi)) := by
  have inv := fillCoordsAndOpens_spec (@createPointsFromSegments_sorted w segments)
  have filled := @ValueRegistry.fillInv_foldl (Segment w) Segment.label
    (fun segment => (segmentRun ⟨btreeInit w ((fillCoordsAndOpens (createPointsFromSegments segments)).1.map
      (BitVec.ofNat w)), (fillCoordsAndOpens (createPointsFromSegments segments)).2⟩
      (fillCoordsAndOpens (createPointsFromSegments segments)).1 segment).map (· + 1)) segments ascending
  rw [← fillRegistryFromSegments_eq] at filled
  refine ⟨_, _, segmentsClassifierInit_ok valid valueRegistryInit, fun values => ⟨?_, fun c v mem => ?_⟩⟩
  · rw [segmentsClassify_btreeInit positive narrow inv.ascending inv.bounded, List.length_map, List.length_take,
      Nat.min_comm]
  · rw [segmentsClassify_btreeInit positive narrow inv.ascending inv.bounded] at mem
    obtain rfl := eq_of_mem_zip_map_take mem
    refine ⟨fun L => ?_, ?_⟩
    · rw [filled.mem_iff]
      refine exists_congr fun segment => and_congr_right fun held => and_congr_right fun _ => ?_
      rw [inv.segmentClass_mem_run_iff positive narrow valid held v.isLt, Segment.covers_toNat]
    · rw [inv.segmentClass_eq_zero_iff valid v.isLt]
      refine forall_congr' fun segment => imp_congr_right fun _ => ?_
      rw [← Segment.covers_toNat, Bool.not_eq_true]

end Class

theorem segments_classify_ascending_labels :
    (∀ segments : List (Segment 16), (∀ segment ∈ segments, segment.lo ≤ segment.hi) →
      segments.Pairwise (fun a b => a.label ≤ b.label) →
      ∃ classifier registry, segmentsClassifierU16Init valueRegistryInit segments = .ok (classifier, registry) ∧
        ∀ values : List (BitVec 16),
          (segmentU16Classify classifier values).length = min values.length btreeMaxBatchSize ∧
          ∀ c v, (c, v) ∈ (segmentU16Classify classifier values).zip values →
            (∀ L, c ∈ registry.ranges L ↔ ∃ segment ∈ segments, segment.label = L ∧ segment.lo ≤ v ∧ v ≤ segment.hi) ∧
            (c = 0 ↔ ∀ segment ∈ segments, ¬(segment.lo ≤ v ∧ v ≤ segment.hi))) ∧
    (∀ segments : List (Segment 32), (∀ segment ∈ segments, segment.lo ≤ segment.hi) →
      segments.Pairwise (fun a b => a.label ≤ b.label) →
      ∃ classifier registry, segmentsClassifierU32Init valueRegistryInit segments = .ok (classifier, registry) ∧
        ∀ values : List (BitVec 32),
          (segmentsU32Classify classifier values).length = min values.length btreeMaxBatchSize ∧
          ∀ c v, (c, v) ∈ (segmentsU32Classify classifier values).zip values →
            (∀ L, c ∈ registry.ranges L ↔ ∃ segment ∈ segments, segment.label = L ∧ segment.lo ≤ v ∧ v ≤ segment.hi) ∧
            (c = 0 ↔ ∀ segment ∈ segments, ¬(segment.lo ≤ v ∧ v ≤ segment.hi))) ∧
    (∀ segments : List (Segment 64), (∀ segment ∈ segments, segment.lo ≤ segment.hi) →
      segments.Pairwise (fun a b => a.label ≤ b.label) →
      ∃ classifier registry, segmentsClassifierU64Init valueRegistryInit segments = .ok (classifier, registry) ∧
        ∀ values : List (BitVec 64),
          (segmentsU64Classify classifier values).length = min values.length btreeMaxBatchSize ∧
          ∀ c v, (c, v) ∈ (segmentsU64Classify classifier values).zip values →
            (∀ L, c ∈ registry.ranges L ↔ ∃ segment ∈ segments, segment.label = L ∧ segment.lo ≤ v ∧ v ≤ segment.hi) ∧
            (c = 0 ↔ ∀ segment ∈ segments, ¬(segment.lo ≤ v ∧ v ≤ segment.hi))) :=
  ⟨fun _ valid ascending => segmentsClassifierInit_spec (by decide) (by decide) valid ascending,
    fun _ valid ascending => segmentsClassifierInit_spec (by decide) (by decide) valid ascending,
    fun _ valid ascending => segmentsClassifierInit_spec (by decide) (by decide) valid ascending⟩

-- Two rules, the second's port range inside the first's: port 4 is in both rules' ranges.
theorem segments_classify_ascending_labels_nested :
    ∃ classifier registry,
      segmentsClassifierU16Init valueRegistryInit [⟨3, 5, 0⟩, ⟨4, 9, 1⟩] = .ok (classifier, registry) ∧
        ∀ c ∈ segmentU16Classify classifier [4], c ∈ registry.ranges 0 ∧ c ∈ registry.ranges 1 ∧ c ≠ 0 := by
  obtain ⟨classifier, registry, ok, spec⟩ :=
    segments_classify_ascending_labels.1 [⟨3, 5, 0⟩, ⟨4, 9, 1⟩] (by decide) (by decide)
  refine ⟨classifier, registry, ok, fun c mem => ?_⟩
  obtain ⟨length, classes⟩ := spec [4]
  obtain ⟨c', single⟩ := List.length_eq_one_iff.mp (length.trans (by decide))
  rw [single, List.mem_singleton] at mem
  subst mem
  have pair : (c, (4 : BitVec 16)) ∈ (segmentU16Classify classifier [4]).zip [4] := by
    rw [single]
    exact List.mem_singleton_self _
  obtain ⟨ranges, zero⟩ := classes c 4 pair
  refine ⟨(ranges 0).mpr ⟨⟨3, 5, 0⟩, by simp, rfl, by decide⟩, (ranges 1).mpr ⟨⟨4, 9, 1⟩, by simp, rfl, by decide⟩,
    fun none => ?_⟩
  exact zero.mp none ⟨3, 5, 0⟩ (by simp) (by decide)

end Yanet
