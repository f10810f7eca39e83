import Yanet.Lpm.Walk
import Yanet.Lpm.Remap

set_option autoImplicit false

-- Every run of `lpm_walk` ends, and `lpm_iter_next` hands out the ranges the walk passes to its
-- callback. Read level `hi_limit` from just past `to`'s byte and take the levels before it as
-- spent. Then the advance of the range walk is the advance of the whole-trie walk (`lpm_remap`'s),
-- whatever `from` and `to` are, and the walk's position goes forward as there. `LpmWalkRun` is the
-- list of ranges a run passes on. The walk's loop calls the callback on that list. The iterator
-- stands where the walk stands before each call and returns the list's ranges one per call.

namespace Yanet

open BigEndian

section Rotate

-- The walk's key in coordinates where every level counts up to a wrap to 0: the levels before
-- `hi_limit` are spent, and level `hi_limit` counts from just past `to`'s byte.
def lpmWalkRotated (toKey : Nat → UInt8) (hiLimit : Nat) (key : Nat → UInt8) : Nat → UInt8 := fun j =>
  if j < hiLimit then 0xff else if j = hiLimit then key j - (toKey j + 1) else key j

variable {toKey : Nat → UInt8} {hiLimit : Nat}

theorem lpmWalkRotated_update {hop : Nat} (le : hiLimit ≤ hop) (key : Nat → UInt8) :
    lpmWalkRotated toKey hiLimit (Function.update key hop (key hop + 1)) =
      Function.update (lpmWalkRotated toKey hiLimit key) hop (lpmWalkRotated toKey hiLimit key hop + 1) := by
  funext j
  unfold lpmWalkRotated
  by_cases at_hop : j = hop
  · subst at_hop
    simp only [Function.update_self, if_neg (show ¬j < hiLimit by omega)]
    split
    · grind
    · rfl
  · simp only [Function.update_of_ne at_hop]

-- The rotated byte of level `hop` wraps to 0 exactly when the byte passes its upper bound.
theorem lpmWalkRotated_succ_eq_zero_iff {hop : Nat} (le : hiLimit ≤ hop) (key : Nat → UInt8) :
    lpmWalkRotated toKey hiLimit key hop + 1 = 0 ↔ key hop + 1 = (if hop = hiLimit then toKey hop else 0xff) + 1 := by
  unfold lpmWalkRotated
  rw [if_neg (show ¬hop < hiLimit by omega)]
  split <;> grind

theorem lpmWalkAdvance_of_top (hop : Nat) : ∀ key : Nat → UInt8, (∀ j ≤ hop, key j = 0xff) → lpmWalkAdvance hop key = none := by
  induction hop with
  | zero =>
    intro key top
    rw [lpmWalkAdvance]
    simp only [Function.update_self, top 0 le_rfl]
    rw [if_pos (by decide)]
  | succ hop ih =>
    intro key top
    rw [lpmWalkAdvance]
    simp only [Function.update_self, top (hop + 1) le_rfl]
    rw [if_pos (by decide)]
    exact ih _ fun j le => by rw [Function.update_of_ne (by omega), top j (by omega)]

-- The range walk's advance is the whole-trie walk's in the rotated key: at `hi_limit` the rotated
-- byte wraps exactly when the byte passes `to`'s, and every level before it wraps too.
theorem lpmRangeWalkAdvance_rotated (hop : Nat) : ∀ key : Nat → UInt8, hiLimit ≤ hop →
    lpmWalkAdvance hop (lpmWalkRotated toKey hiLimit key) =
      (lpmRangeWalkAdvance toKey hiLimit hop key).map fun next => (next.1, lpmWalkRotated toKey hiLimit next.2) := by
  induction hop with
  | zero =>
    intro key le
    have at_limit : hiLimit = 0 := by omega
    rw [lpmWalkAdvance, lpmRangeWalkAdvance]
    simp only [← lpmWalkRotated_update le key, Function.update_self]
    by_cases stop : key 0 + 1 = (if 0 = hiLimit then toKey 0 else 0xff) + 1
    · rw [if_pos ((lpmWalkRotated_succ_eq_zero_iff le key).mpr stop), if_pos stop, if_pos at_limit.symm]
      rfl
    · rw [if_neg (mt (lpmWalkRotated_succ_eq_zero_iff le key).mp stop), if_neg stop]
      rfl
  | succ hop ih =>
    intro key le
    rw [lpmWalkAdvance, lpmRangeWalkAdvance]
    simp only [← lpmWalkRotated_update le key, Function.update_self]
    by_cases stop : key (hop + 1) + 1 = (if hop + 1 = hiLimit then toKey (hop + 1) else 0xff) + 1
    · rw [if_pos ((lpmWalkRotated_succ_eq_zero_iff le key).mpr stop), if_pos stop]
      by_cases at_limit : hop + 1 = hiLimit
      · -- the walk ends; in the rotated key every level before `hi_limit` wraps on the way up
        rw [if_pos at_limit, Option.map_none]
        refine lpmWalkAdvance_of_top hop _ fun j le' => ?_
        unfold lpmWalkRotated
        rw [if_pos (show j < hiLimit by omega)]
      · rw [if_neg at_limit]
        exact ih _ (by omega)
    · rw [if_neg (mt (lpmWalkRotated_succ_eq_zero_iff le key).mp stop), if_neg stop]
      rfl

-- The advance goes up no further than `hi_limit`, and keeps the bytes of the levels it stops above.
theorem lpmRangeWalkAdvance_some (hop : Nat) : ∀ (key : Nat → UInt8) {hop' : Nat} {key' : Nat → UInt8},
    hiLimit ≤ hop → lpmRangeWalkAdvance toKey hiLimit hop key = some (hop', key') →
      hiLimit ≤ hop' ∧ hop' ≤ hop ∧ ∀ j < hop', key' j = key j := by
  induction hop with
  | zero =>
    intro key hop' key' le next
    by_cases stop : key 0 + 1 = (if 0 = hiLimit then toKey 0 else 0xff) + 1
    · rw [lpmRangeWalkAdvance_end stop (by omega)] at next
      cases next
    · rw [lpmRangeWalkAdvance_stay stop] at next
      cases next
      exact ⟨le, le_rfl, fun j lt => absurd lt (Nat.not_lt_zero j)⟩
  | succ hop ih =>
    intro key hop' key' le next
    by_cases stop : key (hop + 1) + 1 = (if hop + 1 = hiLimit then toKey (hop + 1) else 0xff) + 1
    · by_cases at_limit : hop + 1 = hiLimit
      · rw [lpmRangeWalkAdvance_end stop at_limit] at next
        cases next
      · rw [lpmRangeWalkAdvance_up stop at_limit] at next
        obtain ⟨limit, below, same⟩ := ih _ (by omega) next
        exact ⟨limit, by omega, fun j lt => by rw [same j lt, Function.update_of_ne (by omega)]⟩
    · rw [lpmRangeWalkAdvance_stay stop] at next
      cases next
      exact ⟨le, le_rfl, fun j lt => Function.update_of_ne (by omega) _ _⟩

end Rotate

section Run

variable {lpm : Lpm} {keySize : Nat} {fromKey toKey : Nat → UInt8} {walk : LpmRangeWalk}

-- Where a walk may stand: on the stack of a valid trie, above its last level, and not before
-- `hi_limit`.
structure LpmRangeWalkInv (keySize : Nat) (lpm : Lpm) (walk : LpmRangeWalk) : Prop where
  valid : lpm.Valid keySize
  stack : LpmStack lpm walk.key walk.pages walk.hop
  hop_lt : walk.hop < keySize
  hiLimit_le : walk.hiLimit ≤ walk.hop

-- The walk's position: the whole-trie walk's measure in the rotated key.
def lpmRangeWalkMeasure (keySize : Nat) (toKey : Nat → UInt8) (walk : LpmRangeWalk) : Nat :=
  blockMeasure keySize (lpmWalkRotated toKey walk.hiLimit walk.key) walk.hop

theorem lpmRangeWalkInv_init (valid : lpm.Valid keySize) (pos : 0 < keySize) (fromKey : Nat → UInt8) :
    LpmRangeWalkInv keySize lpm (lpmRangeWalkInit fromKey) :=
  ⟨valid, ⟨rfl, fun j lt => absurd lt (Nat.not_lt_zero j)⟩, pos, le_rfl⟩

-- Going down keeps the rotated bytes of the levels above: when `hi_limit` moves on, the byte it
-- leaves is `to`'s, which is spent.
theorem lpmWalkRotated_descend (child : Nat) :
    ∀ j ≤ walk.hop, lpmWalkRotated toKey (walk.descend fromKey toKey child).hiLimit
      (walk.descend fromKey toKey child).key j = lpmWalkRotated toKey walk.hiLimit walk.key j := by
  intro j le
  unfold lpmWalkRotated
  rw [LpmRangeWalk.descend_key, LpmRangeWalk.descend_hiLimit, Function.update_of_ne (by omega)]
  split
  · rename_i onTo
    obtain ⟨same, at_limit⟩ := onTo
    rw [if_pos (show j < walk.hiLimit + 1 by omega)]
    by_cases before : j < walk.hiLimit
    · rw [if_pos before]
    · have at_hop : j = walk.hop := by omega
      rw [if_neg before, if_pos (by omega), at_hop, same]
      grind
  · rfl

theorem lpmRangeWalkMeasure_first_descend (inv : LpmRangeWalkInv keySize lpm walk) {child : Nat}
    (slot : lpm.pages (walk.pages walk.hop) (walk.key walk.hop) = .page child) :
    blockFirst keySize (lpmWalkRotated toKey walk.hiLimit walk.key) walk.hop ≤
      blockFirst keySize (lpmWalkRotated toKey (walk.descend fromKey toKey child).hiLimit
        (walk.descend fromKey toKey child).key) (walk.hop + 1) := by
  have deep := inv.stack.deep inv.valid slot
  set rotated := lpmWalkRotated toKey walk.hiLimit walk.key
  set rotated' := lpmWalkRotated toKey (walk.descend fromKey toKey child).hiLimit (walk.descend fromKey toKey child).key
  -- below the new level the rotated key is the old one with the new level's byte set
  have same : blockFirst keySize rotated' (walk.hop + 1) =
      blockFirst keySize (Function.update rotated (walk.hop + 1) (rotated' (walk.hop + 1))) (walk.hop + 1) := by
    refine blockFirst_congr fun j le => ?_
    by_cases at_new : j = walk.hop + 1
    · rw [at_new, Function.update_self]
    · rw [Function.update_of_ne at_new]
      exact lpmWalkRotated_descend child j (by omega)
  rw [same, blockFirst_update_succ deep]
  exact Nat.le_add_right _ _

theorem LpmRangeWalkInv.descend (inv : LpmRangeWalkInv keySize lpm walk) {child : Nat}
    (slot : lpm.pages (walk.pages walk.hop) (walk.key walk.hop) = .page child) :
    LpmRangeWalkInv keySize lpm (walk.descend fromKey toKey child) ∧
      lpmRangeWalkMeasure keySize toKey (walk.descend fromKey toKey child) < lpmRangeWalkMeasure keySize toKey walk := by
  have deep := inv.stack.deep inv.valid slot
  refine ⟨⟨inv.valid, ?_, by rw [LpmRangeWalk.descend_hop]; exact deep, ?_⟩, ?_⟩
  · rw [LpmRangeWalk.descend_key, LpmRangeWalk.descend_pages, LpmRangeWalk.descend_hop]
    exact inv.stack.descend slot _
  · have le := inv.hiLimit_le
    rw [LpmRangeWalk.descend_hiLimit, LpmRangeWalk.descend_hop]
    split <;> omega
  · unfold lpmRangeWalkMeasure
    rw [LpmRangeWalk.descend_hop]
    exact blockMeasure_lt_of_deeper (lpmRangeWalkMeasure_first_descend inv slot) inv.hop_lt

-- Past a leaf the walk moves on to the rotated key's next block.
theorem LpmRangeWalkInv.first_advance (inv : LpmRangeWalkInv keySize lpm walk) {hop : Nat} {key : Nat → UInt8}
    (next : lpmRangeWalkAdvance toKey walk.hiLimit walk.hop walk.key = some (hop, key)) :
    blockFirst keySize (lpmWalkRotated toKey walk.hiLimit key) hop =
      blockLast keySize (lpmWalkRotated toKey walk.hiLimit walk.key) walk.hop + 1 := by
  have rotated := @lpmRangeWalkAdvance_rotated toKey walk.hiLimit walk.hop walk.key inv.hiLimit_le
  rw [next, Option.map_some] at rotated
  rcases lpmWalkAdvance_spec walk.hop (lpmWalkRotated toKey walk.hiLimit walk.key) inv.hop_lt with
    ⟨done, -⟩ | ⟨hop', key', again, -, -, first⟩
  · rw [done] at rotated
    cases rotated
  · rw [again, Option.some.injEq, Prod.mk.injEq] at rotated
    obtain ⟨rfl, rfl⟩ := rotated
    exact first

-- The walk ends after the rotated key's last block.
theorem LpmRangeWalkInv.last_advance (inv : LpmRangeWalkInv keySize lpm walk)
    (done : lpmRangeWalkAdvance toKey walk.hiLimit walk.hop walk.key = none) :
    blockLast keySize (lpmWalkRotated toKey walk.hiLimit walk.key) walk.hop = 256 ^ keySize - 1 := by
  have rotated := @lpmRangeWalkAdvance_rotated toKey walk.hiLimit walk.hop walk.key inv.hiLimit_le
  rw [done, Option.map_none] at rotated
  rcases lpmWalkAdvance_spec walk.hop (lpmWalkRotated toKey walk.hiLimit walk.key) inv.hop_lt with
    ⟨-, last⟩ | ⟨_, _, again, -⟩
  · exact last
  · rw [again] at rotated
    cases rotated

theorem LpmRangeWalkInv.advance (inv : LpmRangeWalkInv keySize lpm walk) {hop : Nat} {key : Nat → UInt8}
    (next : lpmRangeWalkAdvance toKey walk.hiLimit walk.hop walk.key = some (hop, key)) {walk' : LpmRangeWalk}
    (pages : walk'.pages = walk.pages) (limit : walk'.hiLimit = walk.hiLimit) :
    LpmRangeWalkInv keySize lpm { walk' with hop, key } ∧
      lpmRangeWalkMeasure keySize toKey { walk' with hop, key } < lpmRangeWalkMeasure keySize toKey walk := by
  obtain ⟨limit', below, same⟩ := lpmRangeWalkAdvance_some walk.hop walk.key inv.hiLimit_le next
  have ordered := @blockFirst_le_blockLast (lpmWalkRotated toKey walk.hiLimit walk.key) _ _ inv.hop_lt
  have first := inv.first_advance next
  refine ⟨⟨inv.valid, ?_, by show hop < keySize; have := inv.hop_lt; omega, by dsimp only; omega⟩, ?_⟩
  · dsimp only
    rw [pages]
    exact inv.stack.restrict below same
  · unfold lpmRangeWalkMeasure
    dsimp only
    rw [limit]
    exact blockMeasure_lt_of_later (by omega)

-- The ranges a run of `lpm_walk` from `walk` passes to `walk_func`, when every call returns 0.
inductive LpmWalkRun (lpm : Lpm) (fromKey toKey : Nat → UInt8) :
    LpmRangeWalk → List ((Nat → UInt8) × (Nat → UInt8) × UInt32) → Prop
  | descend {walk : LpmRangeWalk} {child : Nat} {ranges : List ((Nat → UInt8) × (Nat → UInt8) × UInt32)} :
      lpm.pages (walk.pages walk.hop) (walk.key walk.hop) = .page child →
      LpmWalkRun lpm fromKey toKey (walk.descend fromKey toKey child) ranges → LpmWalkRun lpm fromKey toKey walk ranges
  | next {walk : LpmRangeWalk} {raw : UInt64} {hop : Nat} {key : Nat → UInt8}
      {ranges : List ((Nat → UInt8) × (Nat → UInt8) × UInt32)} :
      lpm.pages (walk.pages walk.hop) (walk.key walk.hop) = .value raw →
      lpmRangeWalkAdvance toKey walk.hiLimit walk.hop walk.key = some (hop, key) →
      LpmWalkRun lpm fromKey toKey { (lpmWalkLeaf walk raw).2 with hop, key } ranges →
      LpmWalkRun lpm fromKey toKey walk ((lpmWalkLeaf walk raw).1.toList ++ ranges)
  | out {walk : LpmRangeWalk} {raw : UInt64} :
      lpm.pages (walk.pages walk.hop) (walk.key walk.hop) = .value raw →
      lpmRangeWalkAdvance toKey walk.hiLimit walk.hop walk.key = none →
      LpmWalkRun lpm fromKey toKey walk ((lpmWalkLeaf walk raw).1.toList ++ (lpmWalkOpen (lpmWalkLeaf walk raw).2).toList)

-- Every run ends, with at most one range per block of the rotated key from where it stands, and one
-- more.
theorem LpmRangeWalkInv.run (inv : LpmRangeWalkInv keySize lpm walk) :
    ∃ ranges, LpmWalkRun lpm fromKey toKey walk ranges ∧
      ranges.length + blockFirst keySize (lpmWalkRotated toKey walk.hiLimit walk.key) walk.hop ≤ 256 ^ keySize + 1 := by
  induction h : lpmRangeWalkMeasure keySize toKey walk using Nat.strong_induction_on generalizing walk with
  | _ n ih =>
    subst h
    cases slot : lpm.pages (walk.pages walk.hop) (walk.key walk.hop) with
    | page child =>
      obtain ⟨inv', smaller⟩ := @LpmRangeWalkInv.descend lpm keySize fromKey toKey walk inv child slot
      obtain ⟨ranges, run, length⟩ := ih _ smaller inv' rfl
      have first := @lpmRangeWalkMeasure_first_descend lpm keySize fromKey toKey walk inv child slot
      rw [LpmRangeWalk.descend_hop] at length
      exact ⟨ranges, .descend slot run, by omega⟩
    | value raw =>
      have leafLength : (lpmWalkLeaf walk raw).1.toList.length ≤ 1 := by
        cases (lpmWalkLeaf walk raw).1 <;> simp
      cases next : lpmRangeWalkAdvance toKey walk.hiLimit walk.hop walk.key with
      | none =>
        have openLength : (lpmWalkOpen (lpmWalkLeaf walk raw).2).toList.length ≤ 1 := by
          cases lpmWalkOpen (lpmWalkLeaf walk raw).2 <;> simp
        have last := @value_lt (fill (lpmWalkRotated toKey walk.hiLimit walk.key) walk.hop 0xff) 0 keySize
        have ordered := @blockFirst_le_blockLast (lpmWalkRotated toKey walk.hiLimit walk.key) _ _ inv.hop_lt
        unfold blockLast at ordered
        refine ⟨_, .out slot next, ?_⟩
        rw [List.length_append]
        omega
      | some position =>
        obtain ⟨hop, key⟩ := position
        obtain ⟨inv', smaller⟩ := inv.advance next (lpmWalkLeaf_pages walk raw) (lpmWalkLeaf_hiLimit walk raw)
        obtain ⟨ranges, run, length⟩ := ih _ smaller inv' rfl
        have first := inv.first_advance next
        have ordered := @blockFirst_le_blockLast (lpmWalkRotated toKey walk.hiLimit walk.key) _ _ inv.hop_lt
        simp only [lpmWalkLeaf_hiLimit] at length
        refine ⟨_, .next slot next run, ?_⟩
        rw [List.length_append]
        omega

end Run

section Callback

variable {σ : Type} {lpm : Lpm} {keySize : Nat} {fromKey toKey : Nat → UInt8} {walk : LpmRangeWalk}
  {ranges : List ((Nat → UInt8) × (Nat → UInt8) × UInt32)}
  (walkFunc : Nat → (Nat → UInt8) → (Nat → UInt8) → UInt32 → σ → Int × σ)

-- `walk_func` called on each of `ranges` in order until one returns nonzero, and what `lpm_walk`
-- returns then.
def lpmWalkCalls (keySize : Nat) (walkFunc : Nat → (Nat → UInt8) → (Nat → UInt8) → UInt32 → σ → Int × σ) :
    List ((Nat → UInt8) × (Nat → UInt8) × UInt32) → σ → Int × σ
  | [], data => (0, data)
  | (rangeFrom, rangeTo, value) :: ranges, data =>
    let called := walkFunc keySize rangeFrom rangeTo value data
    if called.1 ≠ 0 then (-1, called.2) else lpmWalkCalls keySize walkFunc ranges called.2

theorem lpmWalkCalls_append (range : Option ((Nat → UInt8) × (Nat → UInt8) × UInt32))
    (ranges : List ((Nat → UInt8) × (Nat → UInt8) × UInt32)) (data : σ) :
    lpmWalkCalls keySize walkFunc (range.toList ++ ranges) data =
      if (lpmWalkCall keySize walkFunc range data).1 ≠ 0 then (-1, (lpmWalkCall keySize walkFunc range data).2)
      else lpmWalkCalls keySize walkFunc ranges (lpmWalkCall keySize walkFunc range data).2 := by
  cases range with
  | none => simp [lpmWalkCall]
  | some range =>
    obtain ⟨rangeFrom, rangeTo, value⟩ := range
    rfl

theorem lpmWalkCalls_last (range : Option ((Nat → UInt8) × (Nat → UInt8) × UInt32)) (data : σ) :
    lpmWalkCalls keySize walkFunc range.toList data =
      (if (lpmWalkCall keySize walkFunc range data).1 ≠ 0 then -1 else 0, (lpmWalkCall keySize walkFunc range data).2) := by
  have calls := @lpmWalkCalls_append σ keySize walkFunc range [] data
  rw [List.append_nil] at calls
  rw [calls]
  split <;> rfl

-- With more fuel than its measure, the loop of `lpm_walk` calls `walk_func` on the run's ranges.
theorem LpmWalkRun.loop (run : LpmWalkRun lpm fromKey toKey walk ranges) (inv : LpmRangeWalkInv keySize lpm walk) :
    ∀ fuel (data : σ), lpmRangeWalkMeasure keySize toKey walk < fuel →
      lpmWalkLoop lpm keySize fromKey toKey walkFunc fuel walk data = some (lpmWalkCalls keySize walkFunc ranges data) := by
  induction run with
  | descend slot _ ih =>
    intro fuel data enough
    obtain ⟨inv', smaller⟩ := inv.descend slot
    obtain ⟨fuel, rfl⟩ : ∃ rest, fuel = rest + 1 := ⟨fuel - 1, by omega⟩
    rw [lpmWalkLoop, slot]
    exact ih inv' fuel data (by omega)
  | next slot next _ ih =>
    intro fuel data enough
    obtain ⟨inv', smaller⟩ := inv.advance next (lpmWalkLeaf_pages _ _) (lpmWalkLeaf_hiLimit _ _)
    obtain ⟨fuel, rfl⟩ : ∃ rest, fuel = rest + 1 := ⟨fuel - 1, by omega⟩
    rw [lpmWalkLoop, slot]
    dsimp only
    rw [lpmWalkCalls_append]
    split
    · rfl
    · rw [next]
      exact ih inv' fuel _ (Nat.lt_of_lt_of_le smaller (Nat.le_of_lt_succ enough))
  | out slot done =>
    intro fuel data enough
    obtain ⟨fuel, rfl⟩ : ∃ rest, fuel = rest + 1 := ⟨fuel - 1, by omega⟩
    rw [lpmWalkLoop, slot]
    dsimp only
    rw [lpmWalkCalls_append]
    split
    · rfl
    · rw [done, lpmWalkCalls_last]

end Callback

section Iter

variable {lpm : Lpm} {keySize : Nat} {fromKey toKey : Nat → UInt8} {walk : LpmRangeWalk} {it : LpmIter}

-- The iterator stands where the walk stands: the same trie and bounds, the walk's locals, not done.
structure LpmIter.At (it : LpmIter) (lpm : Lpm) (keySize : Nat) (fromKey toKey : Nat → UInt8)
    (walk : LpmRangeWalk) : Prop where
  lpm_eq : it.lpm = lpm
  keySize_eq : it.keySize = keySize
  rangeFrom_eq : it.rangeFrom = fromKey
  rangeTo_eq : it.rangeTo = toKey
  walk_eq : it.walk = walk
  running : it.done = false

theorem lpmIterInit_at (lpm : Lpm) (keySize : Nat) (fromKey toKey : Nat → UInt8) :
    (lpmIterInit lpm keySize fromKey toKey).At lpm keySize fromKey toKey (lpmRangeWalkInit fromKey) :=
  ⟨rfl, rfl, rfl, rfl, rfl, rfl⟩

-- An iterator with the walk's locals replaced stands where the new locals do.
theorem LpmIter.At.set (at_walk : it.At lpm keySize fromKey toKey walk) (walk' : LpmRangeWalk)
    (curFrom curTo : Nat → UInt8) (curValue : UInt32) :
    ({ it with curFrom, curTo, curValue, walk := walk' } : LpmIter).At lpm keySize fromKey toKey walk' :=
  ⟨at_walk.lpm_eq, at_walk.keySize_eq, at_walk.rangeFrom_eq, at_walk.rangeTo_eq, rfl, at_walk.running⟩

theorem LpmIter.At.round_page (at_walk : it.At lpm keySize fromKey toKey walk) {child : Nat}
    (slot : lpm.pages (walk.pages walk.hop) (walk.key walk.hop) = .page child) :
    ∃ it', lpmIterRound it = .inr it' ∧ it'.At lpm keySize fromKey toKey (walk.descend fromKey toKey child) := by
  obtain ⟨rfl, rfl, rfl, rfl, rfl, running⟩ := at_walk
  refine ⟨{ it with walk := it.walk.descend it.rangeFrom it.rangeTo child }, ?_, ⟨rfl, rfl, rfl, rfl, rfl, running⟩⟩
  simp only [lpmIterRound, slot]

theorem LpmIter.At.round_yield (at_walk : it.At lpm keySize fromKey toKey walk) {raw : UInt64}
    (slot : lpm.pages (walk.pages walk.hop) (walk.key walk.hop) = .value raw)
    {range : (Nat → UInt8) × (Nat → UInt8) × UInt32} (yield : (lpmWalkLeaf walk raw).1 = some range) :
    lpmIterRound it = .inl (true, { it with curFrom := range.1, curTo := range.2.1, curValue := range.2.2,
                                             walk := (lpmWalkLeaf walk raw).2 }) := by
  obtain ⟨rfl, rfl, rfl, rfl, rfl, -⟩ := at_walk
  unfold lpmWalkLeaf at yield ⊢
  split_ifs at yield with changed kept
  · cases yield
    simp [lpmIterRound, slot, changed, kept]

theorem LpmIter.At.round_skip (at_walk : it.At lpm keySize fromKey toKey walk) {raw : UInt64}
    (slot : lpm.pages (walk.pages walk.hop) (walk.key walk.hop) = .value raw)
    (skip : (lpmWalkLeaf walk raw).1 = none) :
    lpmIterRound it = lpmIterAdvance { it with walk := (lpmWalkLeaf walk raw).2 } := by
  obtain ⟨rfl, rfl, rfl, rfl, rfl, -⟩ := at_walk
  unfold lpmWalkLeaf at skip ⊢
  split_ifs at skip ⊢ with changed kept
  · simp [lpmIterRound, slot, changed, kept]
  · simp [lpmIterRound, slot, changed]

theorem LpmIter.At.advance_some (at_walk : it.At lpm keySize fromKey toKey walk) {hop : Nat} {key : Nat → UInt8}
    (next : lpmRangeWalkAdvance toKey walk.hiLimit walk.hop walk.key = some (hop, key)) :
    ∃ it', lpmIterAdvance it = .inr it' ∧ it'.At lpm keySize fromKey toKey { walk with hop, key } := by
  obtain ⟨rfl, rfl, rfl, rfl, rfl, running⟩ := at_walk
  refine ⟨{ it with walk := { it.walk with hop, key } }, ?_, ⟨rfl, rfl, rfl, rfl, rfl, running⟩⟩
  simp only [lpmIterAdvance, next]

theorem LpmIter.At.advance_none (at_walk : it.At lpm keySize fromKey toKey walk)
    (done : lpmRangeWalkAdvance toKey walk.hiLimit walk.hop walk.key = none) :
    lpmIterAdvance it = .inl (lpmIterOut it) := by
  obtain ⟨rfl, rfl, rfl, rfl, rfl, -⟩ := at_walk
  simp only [lpmIterAdvance, done]

-- At `out:` the iterator returns the range `lpm_walk` passes last, and is done.
theorem LpmIter.At.out_some (at_walk : it.At lpm keySize fromKey toKey walk)
    {range : (Nat → UInt8) × (Nat → UInt8) × UInt32} (last : lpmWalkOpen walk = some range) :
    (lpmIterOut it).1 = true ∧ (lpmIterOut it).2.done = true ∧
      ((lpmIterOut it).2.curFrom, (lpmIterOut it).2.curTo, (lpmIterOut it).2.curValue) = range := by
  obtain ⟨-, -, -, -, rfl, -⟩ := at_walk
  unfold lpmWalkOpen at last
  split_ifs at last with kept
  cases last
  simp [lpmIterOut, kept]

theorem LpmIter.At.out_none (at_walk : it.At lpm keySize fromKey toKey walk) (last : lpmWalkOpen walk = none) :
    (lpmIterOut it).1 = false := by
  obtain ⟨-, -, -, -, rfl, -⟩ := at_walk
  unfold lpmWalkOpen at last
  split_ifs at last with kept
  simp [lpmIterOut, kept]

-- What one call of `lpm_iter_next` returns, read off the ranges a walk from where it stands passes
-- on: `false` when there are none, else the first one, and then either the end or an iterator
-- standing where the walk that passes on the rest stands.
inductive LpmIterReturns (lpm : Lpm) (keySize : Nat) (fromKey toKey : Nat → UInt8) :
    List ((Nat → UInt8) × (Nat → UInt8) × UInt32) → Bool × LpmIter → Prop
  | finish {it : LpmIter} : LpmIterReturns lpm keySize fromKey toKey [] (false, it)
  | last {it : LpmIter} {range : (Nat → UInt8) × (Nat → UInt8) × UInt32} :
      it.done = true → (it.curFrom, it.curTo, it.curValue) = range →
      LpmIterReturns lpm keySize fromKey toKey [range] (true, it)
  | more {it : LpmIter} {walk : LpmRangeWalk} {range : (Nat → UInt8) × (Nat → UInt8) × UInt32}
      {rest : List ((Nat → UInt8) × (Nat → UInt8) × UInt32)} :
      (it.curFrom, it.curTo, it.curValue) = range → it.At lpm keySize fromKey toKey walk →
      LpmRangeWalkInv keySize lpm walk → LpmWalkRun lpm fromKey toKey walk rest →
      LpmIterReturns lpm keySize fromKey toKey (range :: rest) (true, it)

-- After a range the iterator stands on the same leaf, with the range that leaf opened; a walk from
-- there takes the leaf up again and passes on what the walk had left.
theorem LpmWalkRun.again {raw : UInt64} (slot : lpm.pages (walk.pages walk.hop) (walk.key walk.hop) = .value raw)
    {hop : Nat} {key : Nat → UInt8} (next : lpmRangeWalkAdvance toKey walk.hiLimit walk.hop walk.key = some (hop, key))
    {rest : List ((Nat → UInt8) × (Nat → UInt8) × UInt32)}
    (run : LpmWalkRun lpm fromKey toKey { (lpmWalkLeaf walk raw).2 with hop, key } rest) :
    LpmWalkRun lpm fromKey toKey (lpmWalkLeaf walk raw).2 rest := by
  have again := lpmWalkLeaf_again walk raw
  have resumed := @LpmWalkRun.next lpm fromKey toKey (lpmWalkLeaf walk raw).2 raw hop key rest
    (by simpa using slot) (by simpa using next) (by rw [again]; exact run)
  rwa [again, Option.toList_none, List.nil_append] at resumed

theorem LpmWalkRun.again_out {raw : UInt64} (slot : lpm.pages (walk.pages walk.hop) (walk.key walk.hop) = .value raw)
    (done : lpmRangeWalkAdvance toKey walk.hiLimit walk.hop walk.key = none) :
    LpmWalkRun lpm fromKey toKey (lpmWalkLeaf walk raw).2 (lpmWalkOpen (lpmWalkLeaf walk raw).2).toList := by
  have again := lpmWalkLeaf_again walk raw
  have resumed := @LpmWalkRun.out lpm fromKey toKey (lpmWalkLeaf walk raw).2 raw
    (by simpa using slot) (by simpa using done)
  rwa [again, Option.toList_none, List.nil_append] at resumed

theorem LpmRangeWalkInv.leaf (inv : LpmRangeWalkInv keySize lpm walk) (raw : UInt64) :
    LpmRangeWalkInv keySize lpm (lpmWalkLeaf walk raw).2 := by
  refine ⟨inv.valid, ?_, ?_, ?_⟩
  · simpa using inv.stack
  · simpa using inv.hop_lt
  · simpa using inv.hiLimit_le

-- A range closes at the leaf: the call returns it and stands on the leaf, from where a walk passes
-- on the rest.
theorem LpmIter.At.loop_yield (at_walk : it.At lpm keySize fromKey toKey walk) (inv : LpmRangeWalkInv keySize lpm walk)
    {raw : UInt64} (slot : lpm.pages (walk.pages walk.hop) (walk.key walk.hop) = .value raw)
    {range : (Nat → UInt8) × (Nat → UInt8) × UInt32} (leaf : (lpmWalkLeaf walk raw).1 = some range)
    {rest : List ((Nat → UInt8) × (Nat → UInt8) × UInt32)}
    (run : LpmWalkRun lpm fromKey toKey (lpmWalkLeaf walk raw).2 rest) (fuel : Nat) :
    ∃ result, lpmIterLoop (fuel + 1) it = some result ∧ LpmIterReturns lpm keySize fromKey toKey (range :: rest) result :=
  ⟨_, by rw [lpmIterLoop, at_walk.round_yield slot leaf], .more rfl (at_walk.set _ _ _ _) (inv.leaf raw) run⟩

-- One call, from an iterator standing where a run stands, with more rounds than the run's measure.
theorem LpmWalkRun.iterLoop {ranges : List ((Nat → UInt8) × (Nat → UInt8) × UInt32)}
    (run : LpmWalkRun lpm fromKey toKey walk ranges) (inv : LpmRangeWalkInv keySize lpm walk) :
    ∀ fuel it, it.At lpm keySize fromKey toKey walk → lpmRangeWalkMeasure keySize toKey walk < fuel →
      ∃ result, lpmIterLoop fuel it = some result ∧ LpmIterReturns lpm keySize fromKey toKey ranges result := by
  induction run with
  | descend slot _ ih =>
    intro fuel it at_walk enough
    obtain ⟨inv', smaller⟩ := inv.descend slot
    obtain ⟨it', round, at'⟩ := at_walk.round_page slot
    obtain ⟨fuel, rfl⟩ : ∃ rest, fuel = rest + 1 := ⟨fuel - 1, by omega⟩
    rw [lpmIterLoop, round]
    exact ih inv' fuel it' at' (by omega)
  | @next walk raw hop key rest slot next run ih =>
    intro fuel it at_walk enough
    obtain ⟨fuel, rfl⟩ : ∃ rest, fuel = rest + 1 := ⟨fuel - 1, by omega⟩
    cases leaf : (lpmWalkLeaf walk raw).1 with
    | none =>
      -- no range closes: the iterator moves past the leaf as the walk does
      obtain ⟨inv', smaller⟩ := inv.advance next (lpmWalkLeaf_pages _ _) (lpmWalkLeaf_hiLimit _ _)
      have at_leaf : ({ it with walk := (lpmWalkLeaf walk raw).2 } : LpmIter).At lpm keySize fromKey toKey
          (lpmWalkLeaf walk raw).2 := at_walk.set _ _ _ _
      obtain ⟨it', advance, at'⟩ := at_leaf.advance_some (by simpa using next)
      rw [lpmIterLoop, at_walk.round_skip slot leaf, advance, Option.toList_none, List.nil_append]
      exact ih inv' fuel it' at' (Nat.lt_of_lt_of_le smaller (Nat.le_of_lt_succ enough))
    | some range => exact at_walk.loop_yield inv slot leaf (LpmWalkRun.again slot next run) fuel
  | @out walk raw slot done =>
    intro fuel it at_walk enough
    obtain ⟨fuel, rfl⟩ : ∃ rest, fuel = rest + 1 := ⟨fuel - 1, by omega⟩
    cases leaf : (lpmWalkLeaf walk raw).1 with
    | none =>
      -- no range closes: the iterator ends as the walk does
      have at_leaf : ({ it with walk := (lpmWalkLeaf walk raw).2 } : LpmIter).At lpm keySize fromKey toKey
          (lpmWalkLeaf walk raw).2 := at_walk.set _ _ _ _
      rw [lpmIterLoop, at_walk.round_skip slot leaf, at_leaf.advance_none (by simpa using done),
        Option.toList_none, List.nil_append]
      refine ⟨_, rfl, ?_⟩
      have outNone := @LpmIter.At.out_none _ _ _ _ _ _ at_leaf
      have outSome := @LpmIter.At.out_some _ _ _ _ _ _ at_leaf
      generalize lpmIterOut { it with walk := (lpmWalkLeaf walk raw).2 } = result at outNone outSome ⊢
      obtain ⟨returned, it'⟩ := result
      cases last : lpmWalkOpen (lpmWalkLeaf walk raw).2 with
      | none =>
        have returnedFalse : returned = false := outNone last
        rw [returnedFalse, Option.toList_none]
        exact .finish
      | some range =>
        obtain ⟨returnedTrue, finished, current⟩ := outSome last
        dsimp only at returnedTrue finished current
        rw [returnedTrue, Option.toList_some]
        exact .last finished current
    | some range => exact at_walk.loop_yield inv slot leaf (LpmWalkRun.again_out slot done) fuel

-- Repeated calls return the run's ranges one per call, and then `false`.
theorem LpmWalkRun.iterCollect {ranges : List ((Nat → UInt8) × (Nat → UInt8) × UInt32)}
    (run : LpmWalkRun lpm fromKey toKey walk ranges) (inv : LpmRangeWalkInv keySize lpm walk) (fuel : Nat) :
    ∀ it, it.At lpm keySize fromKey toKey walk → ranges.length < fuel → lpmIterCollect fuel it = some ranges := by
  induction fuel generalizing walk ranges with
  | zero => exact fun _ _ enough => absurd enough (Nat.not_lt_zero _)
  | succ fuel ih =>
    intro it at_walk enough
    obtain ⟨result, loop, returns⟩ := run.iterLoop inv (lpmInsertFuel keySize) it at_walk (blockMeasure_lt keySize _ _)
    have call : lpmIterNext it = some result := by
      rw [lpmIterNext, at_walk.running, at_walk.keySize_eq, loop]
      rfl
    rw [lpmIterCollect, call]
    cases returns with
    | finish => rfl
    | last finished current =>
      -- the next call finds the iterator done
      obtain ⟨fuel, rfl⟩ : ∃ rest, fuel = rest + 1 := ⟨fuel - 1, by simp at enough; omega⟩
      simp only [lpmIterCollect, lpmIterNext, finished, if_true, Option.map_some, current]
    | more current at' inv' run' =>
      rw [List.length_cons] at enough
      show (lpmIterCollect fuel _).map _ = _
      rw [ih run' inv' _ at' (by omega), Option.map_some, current]

theorem lpmWalkRun_init (valid : lpm.Valid keySize) (pos : 0 < keySize) (fromKey toKey : Nat → UInt8) :
    ∃ ranges, LpmWalkRun lpm fromKey toKey (lpmRangeWalkInit fromKey) ranges ∧ ranges.length ≤ 256 ^ keySize + 1 := by
  obtain ⟨ranges, run, length⟩ :=
    @LpmRangeWalkInv.run lpm keySize fromKey toKey (lpmRangeWalkInit fromKey) (lpmRangeWalkInv_init valid pos fromKey)
  exact ⟨ranges, run, by omega⟩

theorem LpmWalkRun.walk_eq {σ : Type} {ranges : List ((Nat → UInt8) × (Nat → UInt8) × UInt32)}
    (run : LpmWalkRun lpm fromKey toKey (lpmRangeWalkInit fromKey) ranges) (valid : lpm.Valid keySize) (pos : 0 < keySize)
    (walkFunc : Nat → (Nat → UInt8) → (Nat → UInt8) → UInt32 → σ → Int × σ) (data : σ) :
    lpmWalk lpm keySize fromKey toKey walkFunc data = some (lpmWalkCalls keySize walkFunc ranges data) :=
  run.loop walkFunc (lpmRangeWalkInv_init valid pos fromKey) _ data (blockMeasure_lt keySize _ _)

theorem LpmWalkRun.iterAll_eq {ranges : List ((Nat → UInt8) × (Nat → UInt8) × UInt32)}
    (run : LpmWalkRun lpm fromKey toKey (lpmRangeWalkInit fromKey) ranges) (valid : lpm.Valid keySize) (pos : 0 < keySize)
    (length : ranges.length ≤ 256 ^ keySize + 1) : lpmIterAll lpm keySize fromKey toKey = some ranges := by
  -- one call per range and one more fit in the insert's fuel
  have wide : 256 ^ keySize * 1 ≤ 256 ^ keySize * keySize := Nat.mul_le_mul_left _ pos
  have fits : ranges.length < lpmInsertFuel keySize := by
    unfold lpmInsertFuel
    rw [Nat.mul_succ]
    omega
  exact run.iterCollect (lpmRangeWalkInv_init valid pos fromKey) _ _ (lpmIterInit_at lpm keySize fromKey toKey) fits

end Iter

end Yanet
