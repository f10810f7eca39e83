import Yanet.Lpm.WalkRun
import Yanet.Lib.Runs

set_option autoImplicit false

-- Over the whole key space, `0…0 … ff…ff`, the range walk is the whole-trie walk of `lpm_remap`.
-- It stands on the blocks of the trie in key order, and each block is a leaf, so every key in it
-- looks up the leaf's value. The open range and the ranges passed on are then a scan of the
-- lookups, block by block. So `lpm_walk`'s ranges, which are `lpm_iter_next`'s, are the maximal
-- runs of keys that look up one valid value, in increasing order, and every key with a valid
-- lookup lies in one of them.

namespace Yanet

open BigEndian

section Lookup

variable {lpm : Lpm} {keySize : Nat}

theorem lpmLookupFrom_congr {x y : Nat → UInt8} (p d n : Nat) (same : ∀ j, d ≤ j → j < d + n → x j = y j) :
    lpmLookupFrom lpm x p d n = lpmLookupFrom lpm y p d n := by
  induction n generalizing p d with
  | zero => rfl
  | succ n ih =>
    rw [lpmLookupFrom, lpmLookupFrom, same d le_rfl (by omega)]
    cases lpm.pages p (y d) with
    | value raw => rfl
    | page q => exact ih q (d + 1) fun j lo hi => same j (by omega) (by omega)

-- The lookup of the key whose big-endian value is `m`.
def lpmLookupAt (lpm : Lpm) (keySize m : Nat) : UInt32 := lpmLookup lpm keySize (toBytes keySize m)

theorem lpmLookup_eq_at (x : Nat → UInt8) : lpmLookup lpm keySize x = lpmLookupAt lpm keySize (value x 0 keySize) := by
  have same : value (toBytes keySize (value x 0 keySize)) 0 keySize = value x 0 keySize := by
    rw [value_toBytes, Nat.mod_eq_of_lt (value_lt _ _)]
  unfold lpmLookupAt lpmLookup
  rw [lpmLookupFrom_congr 0 0 keySize fun j lo hi => (value_eq_iff.mp same j lo hi).symm]

-- A leaf on the walk's stack is what every key of its block looks up.
theorem lpmLookupAt_block {key : Nat → UInt8} {pages : Nat → Nat} {hop : Nat} (stack : LpmStack lpm key pages hop)
    {raw : UInt64} (leaf : lpm.pages (pages hop) (key hop) = .value raw) (lt : hop < keySize) (m : Nat)
    (lo : blockFirst keySize key hop ≤ m) (hi : m ≤ blockLast keySize key hop) :
    lpmLookupAt lpm keySize m = lpmValueGet raw := by
  have below := @value_lt (fill key hop 0xff) 0 keySize
  have bytes : value (toBytes keySize m) 0 keySize = m := by
    rw [value_toBytes, Nat.mod_eq_of_lt (by unfold blockLast at hi; omega)]
  have on := (mem_block_iff (toBytes keySize m) lt).mpr ⟨by rw [bytes]; exact lo, by rw [bytes]; exact hi⟩
  unfold lpmLookupAt lpmLookup
  rw [lpmLookupFrom_stack_leaf stack leaf lt on]
  rfl

end Lookup

-- `from … to` is a maximal run of keys that all look up `value`, a value other than
-- `LPM_VALUE_INVALID`: the keys right before and right after it look up another value.
structure LpmMaximalRun (lpm : Lpm) (keySize : Nat) (range : (Nat → UInt8) × (Nat → UInt8) × UInt32) : Prop where
  valid : range.2.2 ≠ LPM_VALUE_INVALID
  le : value range.1 0 keySize ≤ value range.2.1 0 keySize
  inside : ∀ x, value range.1 0 keySize ≤ value x 0 keySize → value x 0 keySize ≤ value range.2.1 0 keySize →
    lpmLookup lpm keySize x = range.2.2
  left : ∀ x, value x 0 keySize + 1 = value range.1 0 keySize → lpmLookup lpm keySize x ≠ range.2.2
  right : ∀ x, value x 0 keySize = value range.2.1 0 keySize + 1 → lpmLookup lpm keySize x ≠ range.2.2

-- A range read as the big-endian values of its ends.
def lpmRangeValues (keySize : Nat) (range : (Nat → UInt8) × (Nat → UInt8) × UInt32) : Nat × Nat × UInt32 :=
  (value range.1 0 keySize, value range.2.1 0 keySize, range.2.2)

section Runs

variable {lpm : Lpm} {keySize : Nat}

theorem LpmMaximalRun.of_isRun {range : (Nat → UInt8) × (Nat → UInt8) × UInt32}
    (isRun : Runs.IsRun LPM_VALUE_INVALID (lpmLookupAt lpm keySize) (256 ^ keySize) (lpmRangeValues keySize range)) :
    LpmMaximalRun lpm keySize range := by
  refine ⟨isRun.kept, isRun.le, fun x lo hi => ?_, fun x before => ?_, fun x after => ?_⟩
  · rw [lpmLookup_eq_at]
    exact isRun.const _ lo hi
  · rw [lpmLookup_eq_at]
    rcases isRun.left with first | differs
    · exact absurd first (by dsimp only [lpmRangeValues] at first ⊢; omega)
    · rwa [show value x 0 keySize = (lpmRangeValues keySize range).1 - 1 by dsimp only [lpmRangeValues]; omega]
  · rw [lpmLookup_eq_at]
    have bound := @value_lt x 0 keySize
    rcases isRun.right with last | differs
    · exact absurd last (by dsimp only [lpmRangeValues] at last ⊢; omega)
    · rwa [after]

-- The scan of the lookups that the ranges passed on and the open range make up.
def lpmWalkScan (keySize : Nat) (walk : LpmRangeWalk) (out : List ((Nat → UInt8) × (Nat → UInt8) × UInt32)) :
    Runs.Scan UInt32 :=
  ⟨out.map (lpmRangeValues keySize), value walk.prevFrom 0 keySize, value walk.prevTo 0 keySize, walk.prevValue⟩

-- A leaf is a block of the scan.
theorem lpmWalkScan_leaf (walk : LpmRangeWalk) (raw : UInt64) (out : List ((Nat → UInt8) × (Nat → UInt8) × UInt32)) :
    lpmWalkScan keySize (lpmWalkLeaf walk raw).2 (out ++ (lpmWalkLeaf walk raw).1.toList) =
      (lpmWalkScan keySize walk out).block LPM_VALUE_INVALID (blockFirst keySize walk.key walk.hop)
        (blockLast keySize walk.key walk.hop) (lpmValueGet raw) := by
  unfold lpmWalkLeaf lpmWalkScan Runs.Scan.block Runs.Scan.close
  split_ifs <;> simp_all [lpmRangeValues, blockFirst, blockLast]

theorem lpmWalkScan_close (walk : LpmRangeWalk) (out : List ((Nat → UInt8) × (Nat → UInt8) × UInt32)) :
    (lpmWalkScan keySize walk out).close LPM_VALUE_INVALID = (out ++ (lpmWalkOpen walk).toList).map (lpmRangeValues keySize) := by
  unfold lpmWalkScan lpmWalkOpen Runs.Scan.close
  split_ifs <;> simp_all [lpmRangeValues]

-- The walk of the whole key space: the bytes before `hi_limit` are `to`'s `0xff`, and the
-- lookups of the keys before the block it stands on are scanned.
structure LpmFullWalkInv (keySize : Nat) (lpm : Lpm) (walk : LpmRangeWalk)
    (out : List ((Nat → UInt8) × (Nat → UInt8) × UInt32)) : Prop where
  inv : LpmRangeWalkInv keySize lpm walk
  top : ∀ j < walk.hiLimit, walk.key j = 0xff
  scan : Runs.ScanInv LPM_VALUE_INVALID (lpmLookupAt lpm keySize) (blockFirst keySize walk.key walk.hop)
    (lpmWalkScan keySize walk out)

-- With `to` all `0xff`, rotating changes nothing.
theorem lpmWalkRotated_full {hiLimit : Nat} {key : Nat → UInt8} (top : ∀ j < hiLimit, key j = 0xff) :
    lpmWalkRotated (fun _ => 0xff) hiLimit key = key := by
  funext j
  unfold lpmWalkRotated
  split
  · exact (top j ‹_›).symm
  · split
    · grind
    · rfl

-- Over the whole key space the range walk advances as the whole-trie walk.
theorem lpmRangeWalkAdvance_full {hiLimit hop : Nat} {key : Nat → UInt8} (top : ∀ j < hiLimit, key j = 0xff)
    (le : hiLimit ≤ hop) : lpmRangeWalkAdvance (fun _ => 0xff) hiLimit hop key = lpmWalkAdvance hop key := by
  have rotated := @lpmRangeWalkAdvance_rotated (fun _ => 0xff) hiLimit hop key le
  rw [lpmWalkRotated_full top] at rotated
  rw [rotated]
  cases next : lpmRangeWalkAdvance (fun _ => 0xff) hiLimit hop key with
  | none => rfl
  | some position =>
    obtain ⟨hop', key'⟩ := position
    obtain ⟨limit, -, same⟩ := lpmRangeWalkAdvance_some hop key le next
    rw [Option.map_some, lpmWalkRotated_full fun j lt => by dsimp only; rw [same j (by omega), top j lt]]

theorem LpmFullWalkInv.descend {walk : LpmRangeWalk} {out : List ((Nat → UInt8) × (Nat → UInt8) × UInt32)}
    (full : LpmFullWalkInv keySize lpm walk out) {child : Nat}
    (slot : lpm.pages (walk.pages walk.hop) (walk.key walk.hop) = .page child) :
    LpmFullWalkInv keySize lpm (walk.descend (fun _ => 0) (fun _ => 0xff) child) out := by
  have deep := full.inv.stack.deep full.inv.valid slot
  refine ⟨(full.inv.descend slot).1, fun j lt => ?_, ?_⟩
  · have le := full.inv.hiLimit_le
    rw [LpmRangeWalk.descend_hiLimit] at lt
    have below : j ≤ walk.hop := by split at lt <;> omega
    rw [LpmRangeWalk.descend_key, Function.update_of_ne (by omega)]
    split at lt
    · rename_i onTo
      rcases Nat.lt_succ_iff_lt_or_eq.mp lt with before | at_limit
      · exact full.top j before
      · rw [at_limit, ← onTo.2]
        exact onTo.1
    · exact full.top j lt
  · -- going down starts the new level at byte 0, so the block keeps its first key
    have first : blockFirst keySize (walk.descend (fun _ => 0) (fun _ => 0xff) child).key (walk.hop + 1) =
        blockFirst keySize walk.key walk.hop := by
      rw [LpmRangeWalk.descend_key, blockFirst_update_succ deep, ite_self, UInt8.toNat_zero, Nat.zero_mul,
        Nat.add_zero]
    have same : lpmWalkScan keySize (walk.descend (fun _ => 0) (fun _ => 0xff) child) out = lpmWalkScan keySize walk out := by
      simp [lpmWalkScan]
    rw [LpmRangeWalk.descend_hop, first, same]
    exact full.scan

-- A leaf's block is scanned, and the walk moves on to the next block or stands on the last one.
theorem LpmFullWalkInv.leaf {walk : LpmRangeWalk} {out : List ((Nat → UInt8) × (Nat → UInt8) × UInt32)}
    (full : LpmFullWalkInv keySize lpm walk out) {raw : UInt64}
    (slot : lpm.pages (walk.pages walk.hop) (walk.key walk.hop) = .value raw) :
    Runs.ScanInv LPM_VALUE_INVALID (lpmLookupAt lpm keySize) (blockLast keySize walk.key walk.hop + 1)
      (lpmWalkScan keySize (lpmWalkLeaf walk raw).2 (out ++ (lpmWalkLeaf walk raw).1.toList)) := by
  rw [lpmWalkScan_leaf]
  exact full.scan.block (blockFirst_le_blockLast full.inv.hop_lt)
    (lpmLookupAt_block full.inv.stack slot full.inv.hop_lt)

theorem LpmFullWalkInv.next {walk : LpmRangeWalk} {out : List ((Nat → UInt8) × (Nat → UInt8) × UInt32)}
    (full : LpmFullWalkInv keySize lpm walk out) {raw : UInt64}
    (slot : lpm.pages (walk.pages walk.hop) (walk.key walk.hop) = .value raw) {hop : Nat} {key : Nat → UInt8}
    (next : lpmRangeWalkAdvance (fun _ => 0xff) walk.hiLimit walk.hop walk.key = some (hop, key)) :
    LpmFullWalkInv keySize lpm { (lpmWalkLeaf walk raw).2 with hop, key } (out ++ (lpmWalkLeaf walk raw).1.toList) := by
  obtain ⟨limit, -, same⟩ := lpmRangeWalkAdvance_some walk.hop walk.key full.inv.hiLimit_le next
  -- the advance keeps the bytes above `hop`, so the new key is still all ones below `hi_limit`
  have top : ∀ j < walk.hiLimit, key j = 0xff := fun j lt => by rw [same j (by omega), full.top j lt]
  have first := full.inv.first_advance next
  rw [lpmWalkRotated_full top, lpmWalkRotated_full full.top] at first
  refine ⟨(full.inv.advance next (lpmWalkLeaf_pages _ _) (lpmWalkLeaf_hiLimit _ _)).1,
    fun j lt => ?_, ?_⟩
  · simp only [lpmWalkLeaf_hiLimit] at lt
    exact top j lt
  · rw [show blockFirst keySize key hop = blockLast keySize walk.key walk.hop + 1 from first]
    exact full.leaf slot

theorem lpmFullWalkInv_init {lpm : Lpm} (valid : lpm.Valid keySize) (pos : 0 < keySize) :
    LpmFullWalkInv keySize lpm (lpmRangeWalkInit fun _ => 0) [] := by
  have zeros : fill (lpmRangeWalkInit fun _ => 0).key (lpmRangeWalkInit fun _ => 0).hop 0 = fun _ => 0 := by
    funext j
    unfold fill lpmRangeWalkInit
    split
    · simp only [Function.update_apply, ite_self]
    · rfl
  have zero : blockFirst keySize (lpmRangeWalkInit fun _ => 0).key (lpmRangeWalkInit fun _ => 0).hop = 0 := by
    unfold blockFirst
    rw [zeros, value_const_zero]
  refine ⟨lpmRangeWalkInv_init valid pos _, fun j lt => absurd lt (Nat.not_lt_zero j), ?_⟩
  rw [zero]
  have empty : lpmWalkScan keySize (lpmRangeWalkInit fun _ => 0) [] = ⟨[], 0, 0, LPM_VALUE_INVALID⟩ := by
    simp [lpmWalkScan, lpmRangeWalkInit]
  rw [empty]
  exact Runs.scanInv_init _ _

-- A run over the whole key space closes on the maximal runs of the lookups.
theorem LpmWalkRun.full {walk : LpmRangeWalk} {ranges : List ((Nat → UInt8) × (Nat → UInt8) × UInt32)}
    (run : LpmWalkRun lpm (fun _ => 0) (fun _ => 0xff) walk ranges) :
    ∀ {out : List ((Nat → UInt8) × (Nat → UInt8) × UInt32)}, LpmFullWalkInv keySize lpm walk out →
      ∃ scan, Runs.ScanInv LPM_VALUE_INVALID (lpmLookupAt lpm keySize) (256 ^ keySize) scan ∧
        scan.close LPM_VALUE_INVALID = (out ++ ranges).map (lpmRangeValues keySize) := by
  induction run with
  | descend slot _ ih => exact fun full => ih (full.descend slot)
  | next slot next _ ih =>
    intro out full
    rw [← List.append_assoc]
    exact ih (full.next slot next)
  | @out walk raw slot done =>
    intro out full
    -- the last leaf ends the key space
    have last : blockLast keySize walk.key walk.hop + 1 = 256 ^ keySize := by
      have last := full.inv.last_advance done
      rw [lpmWalkRotated_full full.top] at last
      rw [last]
      exact Nat.sub_add_cancel (Nat.one_le_two_pow.trans (Nat.pow_le_pow_left (by omega) _))
    have scanned := full.leaf slot
    rw [last] at scanned
    refine ⟨_, scanned, ?_⟩
    rw [lpmWalkScan_close, List.append_assoc]

-- Over the whole key space the ranges are the maximal runs of the lookups, in increasing order, and
-- every key with a valid lookup lies in one.
theorem LpmWalkRun.maximalRuns {ranges : List ((Nat → UInt8) × (Nat → UInt8) × UInt32)}
    (run : LpmWalkRun lpm (fun _ => 0) (fun _ => 0xff) (lpmRangeWalkInit fun _ => 0) ranges)
    (valid : lpm.Valid keySize) (pos : 0 < keySize) :
    (∀ range ∈ ranges, LpmMaximalRun lpm keySize range) ∧
      (∀ x, lpmLookup lpm keySize x ≠ LPM_VALUE_INVALID →
        ∃ range ∈ ranges, value range.1 0 keySize ≤ value x 0 keySize ∧ value x 0 keySize ≤ value range.2.1 0 keySize) ∧
      ranges.Pairwise fun r t => value r.2.1 0 keySize < value t.1 0 keySize := by
  obtain ⟨scan, inv, closed⟩ := run.full (lpmFullWalkInv_init valid pos)
  rw [List.nil_append] at closed
  refine ⟨fun range mem => ?_, fun x kept => ?_, ?_⟩
  · refine LpmMaximalRun.of_isRun (inv.close_isRun _ ?_)
    rw [closed]
    exact List.mem_map_of_mem mem
  · rw [lpmLookup_eq_at] at kept
    obtain ⟨values, mem, lo, hi⟩ := inv.close_covers _ (value_lt _ _) kept
    rw [closed] at mem
    obtain ⟨range, member, rfl⟩ := List.mem_map.mp mem
    exact ⟨range, member, lo, hi⟩
  · have sorted := inv.close_sorted
    rw [closed, List.pairwise_map] at sorted
    exact sorted

end Runs

-- `lpm_iter_next` after `lpm_iter_init` returns, one per call, the ranges that `lpm_walk` passes to
-- `walk_func`, for any bounds; over the whole key space they are the maximal runs of keys with one
-- valid lookup, in increasing order, covering every key with a valid lookup.
theorem lpm_iter_walk_maximal_runs {keySize : Nat} (pos : 0 < keySize) {lpm : Lpm} (reach : LpmReachable keySize lpm) :
    (∀ fromKey toKey : Nat → UInt8, ∃ ranges, lpmIterAll lpm keySize fromKey toKey = some ranges ∧
      ∀ (σ : Type) (walkFunc : Nat → (Nat → UInt8) → (Nat → UInt8) → UInt32 → σ → Int × σ) (data : σ),
        lpmWalk lpm keySize fromKey toKey walkFunc data = some (lpmWalkCalls keySize walkFunc ranges data)) ∧
    ∃ ranges, lpmIterAll lpm keySize (fun _ => 0) (fun _ => 0xff) = some ranges ∧
      (∀ range ∈ ranges, LpmMaximalRun lpm keySize range) ∧
      (∀ x, lpmLookup lpm keySize x ≠ LPM_VALUE_INVALID →
        ∃ range ∈ ranges, value range.1 0 keySize ≤ value x 0 keySize ∧ value x 0 keySize ≤ value range.2.1 0 keySize) ∧
      ranges.Pairwise fun r t => value r.2.1 0 keySize < value t.1 0 keySize := by
  have valid := reach.valid pos
  refine ⟨fun fromKey toKey => ?_, ?_⟩
  · obtain ⟨ranges, run, length⟩ := lpmWalkRun_init valid pos fromKey toKey
    exact ⟨ranges, run.iterAll_eq valid pos length, fun σ walkFunc data => run.walk_eq valid pos walkFunc data⟩
  · obtain ⟨ranges, run, length⟩ := lpmWalkRun_init valid pos (fun _ => 0) (fun _ => 0xff)
    exact ⟨ranges, run.iterAll_eq valid pos length, run.maximalRuns valid pos⟩

theorem lpm_iter_walk_maximal_runs_split16 :
    ∃ ranges, lpmIterAll lpmSplit16 2 (fun _ => 0) (fun _ => 0xff) = some ranges ∧
      ∀ range ∈ ranges, LpmMaximalRun lpmSplit16 2 range := by
  obtain ⟨-, ranges, iter, runs, -, -⟩ := lpm_iter_walk_maximal_runs (by decide) lpmSplit16_reachable
  exact ⟨ranges, iter, runs⟩

end Yanet
