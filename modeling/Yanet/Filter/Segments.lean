import Mathlib
import Yanet.Filter.Btree
import Yanet.Filter.Registry

set_option autoImplicit false

-- Segment classifiers (`lib/filter/compiler/segments.c`, `lib/filter/query/segments.h`): labelled
-- segments `[from, to]` are cut at every `from` and every `to + 1`; a value's class is the number
-- of cut points at or below it when some segment covers it, and 0 otherwise. The registry gets
-- one range per label. The `uint16_t`, `uint32_t` and `uint64_t` versions are the same code.

namespace Yanet

variable {w : Nat}

-- `struct segment_u16` and its wider twins; `lo` is the field `from`, `hi` the field `to`.
structure Segment (w : Nat) where
  lo : BitVec w
  hi : BitVec w
  label : Nat

inductive PointType where
  | POINT_OPEN
  | POINT_CLOSE

def PointType.toInt : PointType → Int
  | .POINT_OPEN => 1
  | .POINT_CLOSE => -1

structure Point where
  x : Nat
  type : PointType

def validateSegments (segments : List (Segment w)) : Bool := segments.all fun segment => segment.lo ≤ segment.hi

-- `qsort` by `x`; nothing later depends on the order of points with equal `x`.
def createPointsFromSegments (segments : List (Segment w)) : List Point :=
  let points := segments.flatMap fun segment =>
    ⟨segment.lo.toNat, .POINT_OPEN⟩ ::
      if segment.hi.toNat < 2 ^ w - 1 then [⟨segment.hi.toNat + 1, .POINT_CLOSE⟩] else []
  points.insertionSort fun a b => a.x ≤ b.x

-- `fill_coords_and_opens_*`: the distinct coordinates in order, each with the running count
-- of open segments after its last point.
def fillCoordsAndOpens (points : List Point) : List Nat × List Int :=
  let acc := points.foldl
    (fun (acc : List Nat × List Int × Int) point =>
      let cumulative := acc.2.2 + point.type.toInt
      if acc.1.getLast? = some point.x then (acc.1, acc.2.1.set (acc.2.1.length - 1) cumulative, cumulative)
      else (acc.1 ++ [point.x], acc.2.1 ++ [cumulative], cumulative))
    ([], [], 0)
  (acc.1, acc.2.1)

structure SegmentsClassifier (w : Nat) where
  btree : Btree w
  opens : List Int

-- `fill_registry_from_segments_*`: ranges are started up to the segment's label, and the
-- classes of the coordinates inside the segment go to the last range.
def fillRegistryFromSegments (classifier : SegmentsClassifier w) (registry : ValueRegistry)
    (segments : List (Segment w)) (coords : List Nat) : ValueRegistry :=
  segments.foldl
    (fun registry segment =>
      let registry := Nat.repeat valueRegistryStart (segment.label + 1 - registry.rangeCount) registry
      let idx := btreeLowerBound classifier.btree segment.lo
      ((List.range' idx (classifier.btree.n - idx)).takeWhile fun i => coords.getD i 0 ≤ segment.hi.toNat).foldl
        (fun registry i => valueRegistryCollect registry (i + 1)) registry)
    registry

-- `segments_classifier_*_init`; `-2` rejects a segment with `from > to`.
def segmentsClassifierInit (w : Nat) (registry : ValueRegistry) (segments : List (Segment w)) :
    Except Int (SegmentsClassifier w × ValueRegistry) :=
  if !validateSegments segments then .error (-2)
  else
    let (coords, opens) := fillCoordsAndOpens (createPointsFromSegments segments)
    let classifier : SegmentsClassifier w := ⟨btreeInit w (coords.map (BitVec.ofNat w)), opens⟩
    .ok (classifier, fillRegistryFromSegments classifier registry segments coords)

-- `segment_u16_classify` and its twins: one class per value of the batch.
def segmentsClassify (classifier : SegmentsClassifier w) (values : List (BitVec w)) : List Nat :=
  (btreeUpperBounds classifier.btree values).map fun result =>
    if result = 0 ∨ classifier.opens.getD (result - 1) 0 = 0 then 0 else result

def segmentsClassifierU16Init (registry : ValueRegistry) (segments : List (Segment 16)) :
    Except Int (SegmentsClassifier 16 × ValueRegistry) := segmentsClassifierInit 16 registry segments
def segmentsClassifierU32Init (registry : ValueRegistry) (segments : List (Segment 32)) :
    Except Int (SegmentsClassifier 32 × ValueRegistry) := segmentsClassifierInit 32 registry segments
def segmentsClassifierU64Init (registry : ValueRegistry) (segments : List (Segment 64)) :
    Except Int (SegmentsClassifier 64 × ValueRegistry) := segmentsClassifierInit 64 registry segments

def segmentU16Classify (classifier : SegmentsClassifier 16) (values : List (BitVec 16)) : List Nat :=
  segmentsClassify classifier values
def segmentsU32Classify (classifier : SegmentsClassifier 32) (values : List (BitVec 32)) : List Nat :=
  segmentsClassify classifier values
def segmentsU64Classify (classifier : SegmentsClassifier 64) (values : List (BitVec 64)) : List Nat :=
  segmentsClassify classifier values

theorem repeat_start_rangeCount (k : Nat) (registry : ValueRegistry) :
    (Nat.repeat valueRegistryStart k registry).rangeCount = registry.rangeCount + k := by
  induction k with
  | zero => rfl
  | succ k ih =>
    show (valueRegistryStart (Nat.repeat valueRegistryStart k registry)).rangeCount = _
    rw [ValueRegistry.start_rangeCount, ih, Nat.add_assoc]

theorem fillRegistryFromSegments_rangeCount (classifier : SegmentsClassifier w) (registry : ValueRegistry)
    (segments : List (Segment w)) (coords : List Nat) :
    (fillRegistryFromSegments classifier registry segments coords).rangeCount =
      segments.foldl (fun count segment => max count (segment.label + 1)) registry.rangeCount := by
  induction segments generalizing registry with
  | nil => rfl
  | cons segment segments ih =>
    simp only [fillRegistryFromSegments, List.foldl_cons] at ih ⊢
    rw [ih, ValueRegistry.foldl_collect_rangeCount, repeat_start_rangeCount]
    congr 1
    omega

theorem foldl_max_label_le {segments : List (Segment w)} {count bound : Nat} (le : count ≤ bound)
    (labels : ∀ segment ∈ segments, segment.label < bound) :
    segments.foldl (fun count segment => max count (segment.label + 1)) count ≤ bound := by
  induction segments generalizing count with
  | nil => exact le
  | cons segment segments ih =>
    rw [List.foldl_cons]
    apply ih (Nat.max_le.mpr ⟨le, labels segment List.mem_cons_self⟩)
    exact fun other mem => labels other (List.mem_cons_of_mem segment mem)

theorem segmentsClassifierInit_rangeCount {registry registry' : ValueRegistry} {segments : List (Segment w)}
    {classifier : SegmentsClassifier w} (ok : segmentsClassifierInit w registry segments = .ok (classifier, registry')) :
    registry'.rangeCount = segments.foldl (fun count segment => max count (segment.label + 1)) registry.rangeCount := by
  unfold segmentsClassifierInit at ok
  split at ok
  · cases ok
  · cases ok
    exact fillRegistryFromSegments_rangeCount _ _ _ _

theorem segments_classifier_label_out_of_order :
    ∃ classifier registry,
      segmentsClassifierU16Init valueRegistryInit [⟨5, 5, 1⟩, ⟨3, 3, 0⟩] = .ok (classifier, registry) ∧
      segmentU16Classify classifier [3] = [1] ∧ 1 ∉ registry.ranges 0 ∧ 1 ∈ registry.ranges 1 := by
  have run : (match segmentsClassifierU16Init valueRegistryInit [⟨5, 5, 1⟩, ⟨3, 3, 0⟩] with
      | .ok (classifier, registry) =>
        decide (segmentU16Classify classifier [3] = [1] ∧ 1 ∉ registry.ranges 0 ∧ 1 ∈ registry.ranges 1)
      | .error _ => false) = true := by
    decide +kernel
  generalize segmentsClassifierU16Init valueRegistryInit [⟨5, 5, 1⟩, ⟨3, 3, 0⟩] = result at run ⊢
  cases result with
  | error => exact absurd run Bool.false_ne_true
  | ok built => exact ⟨built.1, built.2, rfl, of_decide_eq_true run⟩

end Yanet
