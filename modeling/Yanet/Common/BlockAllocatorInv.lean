import Yanet.Common.BlockAllocator
import Yanet.Lib.Cover

set_option autoImplicit false

-- What each operation of the block allocator does to its free blocks. `freeCover alloc x` counts
-- the free blocks holding byte `x` and `freeBytes alloc` the bytes on the free lists. A pool get
-- takes the head block off its list; a borrow cuts a block of the pool above into the two halves
-- of its own size, which hold the same bytes; `balloc` is borrows down to its pool and a get;
-- `bfree` and each block of `put_arena` put one block on a list. `BlockAllocator.Ok` is what every
-- operation keeps: the free counts and the mask agree with the lists, and every free block is
-- aligned to its size, up to 2 MiB.

namespace Yanet

def blockSpan (i addr : Nat) : Nat × Nat := (addr, blockAllocatorPoolSize i)

namespace BlockAllocator

def freeCover (alloc : BlockAllocator) (x : Nat) : Nat :=
  ∑ i ∈ Finset.range memoryBlockAllocatorExp, Cover.count ((alloc.pools i).freeList.map (blockSpan i)) x

def freeBytes (alloc : BlockAllocator) : Nat :=
  ∑ i ∈ Finset.range memoryBlockAllocatorExp, (alloc.pools i).freeList.length * blockAllocatorPoolSize i

-- A block of pool `i` at `addr` is aligned to its size, up to the maximal alignment.
def Aligned (i addr : Nat) : Prop := min (blockAllocatorPoolSize i) memoryBlockAllocatorMaxAlign ∣ addr

-- The mask as the pools' free counts set it.
def MaskOk (pools : Nat → BlockAllocatorPool) (mask : UInt32) : Prop :=
  ∀ j, mask.toNat.testBit j = (decide (j < memoryBlockAllocatorExp) && decide (0 < (pools j).free))

structure Ok (alloc : BlockAllocator) : Prop where
  free_eq : ∀ i < memoryBlockAllocatorExp, (alloc.pools i).free = (alloc.pools i).freeList.length
  mask : MaskOk alloc.pools alloc.notEmptyMask
  aligned : ∀ i < memoryBlockAllocatorExp, ∀ a ∈ (alloc.pools i).freeList, Aligned i a

theorem ok_init : blockAllocatorInit.Ok := by
  refine ⟨fun _ _ => rfl, fun j => ?_, fun _ _ a mem => absurd mem List.not_mem_nil⟩
  rw [show blockAllocatorInit.notEmptyMask.toNat = 0 from rfl, Nat.zero_testBit]
  simp [blockAllocatorInit]

section Mask

variable {pools : Nat → BlockAllocatorPool} {mask : UInt32} {i : Nat} {pool : BlockAllocatorPool}

theorem MaskOk.update (ok : MaskOk pools mask) (same : 0 < pool.free ↔ 0 < (pools i).free) :
    MaskOk (Function.update pools i pool) mask := by
  intro j
  rw [ok j]
  by_cases here : j = i
  · subst here
    rw [Function.update_self]
    simp only [same]
  · rw [Function.update_of_ne here]

theorem MaskOk.set (ok : MaskOk pools mask) (lt : i < memoryBlockAllocatorExp) (positive : 0 < pool.free) :
    MaskOk (Function.update pools i pool) (mask ||| ((1 : UInt32) <<< UInt32.ofNat i)) := by
  intro j
  rw [Bits.testBit_or_one_shiftLeft _ (Nat.lt_trans lt (by decide)), ok j]
  by_cases here : j = i
  · subst here
    rw [Function.update_self]
    simp [lt, positive]
  · rw [Function.update_of_ne here]
    simp [here]

theorem MaskOk.clear (ok : MaskOk pools mask) (lt : i < memoryBlockAllocatorExp) (empty : pool.free = 0) :
    MaskOk (Function.update pools i pool) (mask &&& ~~~((1 : UInt32) <<< UInt32.ofNat i)) := by
  intro j
  rw [Bits.testBit_and_not_one_shiftLeft _ (Nat.lt_trans lt (by decide)), ok j]
  by_cases here : j = i
  · subst here
    rw [Function.update_self, empty]
    simp
  · rw [Function.update_of_ne here]
    simp [here]

end Mask

section Update

variable {alloc alloc' : BlockAllocator} {i : Nat} (lt : i < memoryBlockAllocatorExp) {pool : BlockAllocatorPool}
  (pools : alloc'.pools = Function.update alloc.pools i pool)

include lt pools

theorem freeCover_update (x : Nat) :
    alloc'.freeCover x + Cover.count ((alloc.pools i).freeList.map (blockSpan i)) x =
      alloc.freeCover x + Cover.count (pool.freeList.map (blockSpan i)) x := by
  unfold freeCover
  rw [pools]
  exact Cover.sum_update_add (Finset.mem_range.mpr lt) alloc.pools pool fun j p => Cover.count (p.freeList.map (blockSpan j)) x

theorem freeBytes_update :
    alloc'.freeBytes + (alloc.pools i).freeList.length * blockAllocatorPoolSize i =
      alloc.freeBytes + pool.freeList.length * blockAllocatorPoolSize i := by
  unfold freeBytes
  rw [pools]
  exact Cover.sum_update_add (Finset.mem_range.mpr lt) alloc.pools pool fun j p => p.freeList.length * blockAllocatorPoolSize j

theorem freeCover_eq_of_update (same : pool.freeList = (alloc.pools i).freeList) (x : Nat) :
    alloc'.freeCover x = alloc.freeCover x := by
  have step := freeCover_update lt pools x
  rw [same] at step
  omega

theorem freeBytes_eq_of_update (same : pool.freeList = (alloc.pools i).freeList) : alloc'.freeBytes = alloc.freeBytes := by
  have step := freeBytes_update lt pools
  rw [same] at step
  omega

theorem Ok.update (ok : alloc.Ok) (free_eq : pool.free = pool.freeList.length)
    (aligned : ∀ a ∈ pool.freeList, Aligned i a) (mask : MaskOk alloc'.pools alloc'.notEmptyMask) : alloc'.Ok := by
  refine ⟨fun j below => ?_, mask, fun j below => ?_⟩ <;> rw [pools]
  · by_cases same : j = i
    · subst same
      rw [Function.update_self]
      exact free_eq
    · rw [Function.update_of_ne same]
      exact ok.free_eq j below
  · by_cases same : j = i
    · subst same
      rw [Function.update_self]
      exact aligned
    · rw [Function.update_of_ne same]
      exact ok.aligned j below

end Update

theorem Ok.exists_cons {alloc : BlockAllocator} (ok : alloc.Ok) {i : Nat} (lt : i < memoryBlockAllocatorExp)
    (nonempty : 0 < (alloc.pools i).free) : ∃ h t, (alloc.pools i).freeList = h :: t := by
  rw [ok.free_eq i lt] at nonempty
  exact List.exists_cons_of_length_pos nonempty

theorem Ok.freeSize_eq {alloc : BlockAllocator} (ok : alloc.Ok) : blockAllocatorFreeSize alloc = alloc.freeBytes := by
  rw [blockAllocatorFreeSize_eq]
  exact Finset.sum_congr rfl fun i mem => by rw [ok.free_eq i (Finset.mem_range.mp mem)]

section Aligned

theorem min_pow_dvd_left (a b : Nat) : min (2 ^ a) (2 ^ b) ∣ 2 ^ a := by
  rcases Nat.le_total a b with le | ge
  · rw [Nat.min_eq_left (Nat.pow_le_pow_right (by decide) le)]
  · rw [Nat.min_eq_right (Nat.pow_le_pow_right (by decide) ge)]
    exact Nat.pow_dvd_pow 2 ge

theorem Aligned.half {p a : Nat} (aligned : Aligned (p + 1) a) : Aligned p a := by
  refine Nat.dvd_trans ?_ aligned
  unfold blockAllocatorPoolSize
  rcases Nat.le_total (memoryBlockAllocatorMinBits + (p + 1)) 21 with small | large
  · have maxAlign : memoryBlockAllocatorMaxAlign = 2 ^ 21 := rfl
    rw [maxAlign, Nat.min_eq_left (Nat.pow_le_pow_right (by decide) small),
      Nat.min_eq_left (Nat.pow_le_pow_right (by decide) (by omega))]
    exact Nat.pow_dvd_pow 2 (by omega)
  · have maxAlign : memoryBlockAllocatorMaxAlign ≤ 2 ^ (memoryBlockAllocatorMinBits + (p + 1)) :=
      Nat.pow_le_pow_right (by decide) large
    rw [Nat.min_eq_right maxAlign]
    exact min_two_pow_dvd_max_align _

theorem Aligned.add_size {p a : Nat} (aligned : Aligned p a) : Aligned p (a + blockAllocatorPoolSize p) :=
  Nat.dvd_add aligned (min_pow_dvd_left _ 21)

end Aligned

-- What the borrows of `balloc` keep: the invariant, and which bytes the free lists hold.
structure Keeps (alloc alloc' : BlockAllocator) : Prop where
  ok : alloc'.Ok
  freeCover : ∀ x, alloc'.freeCover x = alloc.freeCover x
  freeBytes : alloc'.freeBytes = alloc.freeBytes

theorem Keeps.trans {alloc alloc' alloc'' : BlockAllocator} (first : Keeps alloc alloc') (second : Keeps alloc' alloc'') :
    Keeps alloc alloc'' :=
  ⟨second.ok, fun x => (second.freeCover x).trans (first.freeCover x), second.freeBytes.trans first.freeBytes⟩

-- `alloc'` is `alloc` less the free block at `a` of pool `i`.
structure Takes (alloc alloc' : BlockAllocator) (i a : Nat) : Prop where
  lt : i < memoryBlockAllocatorExp
  aligned : Aligned i a
  freeCover : ∀ x, alloc'.freeCover x + Cover.count [blockSpan i a] x = alloc.freeCover x
  freeBytes : alloc'.freeBytes + blockAllocatorPoolSize i = alloc.freeBytes

theorem Keeps.takes {alloc alloc' alloc'' : BlockAllocator} {i a : Nat} (first : Keeps alloc alloc')
    (second : Takes alloc' alloc'' i a) : Takes alloc alloc'' i a :=
  ⟨second.lt, second.aligned, fun x => (second.freeCover x).trans (first.freeCover x),
    second.freeBytes.trans first.freeBytes⟩

theorem Takes.keeps {alloc alloc' alloc'' : BlockAllocator} {i a : Nat} (first : Takes alloc alloc' i a)
    (second : Keeps alloc' alloc'') : Takes alloc alloc'' i a :=
  ⟨first.lt, first.aligned, fun x => by rw [second.freeCover x]; exact first.freeCover x,
    by rw [second.freeBytes]; exact first.freeBytes⟩

theorem count_halves (p a : Nat) (spans : List (Nat × Nat)) (x : Nat) :
    Cover.count (blockSpan p a :: blockSpan p (a + blockAllocatorPoolSize p) :: spans) x =
      Cover.count [blockSpan (p + 1) a] x + Cover.count spans x := by
  have size : blockAllocatorPoolSize (p + 1) = blockAllocatorPoolSize p + blockAllocatorPoolSize p := by
    rw [blockAllocatorPoolSize_eq, blockAllocatorPoolSize_eq, Nat.pow_succ]
    omega
  show Cover.count ([blockSpan p a, blockSpan p (a + blockAllocatorPoolSize p)] ++ spans) x = _
  rw [Cover.count_append]
  unfold blockSpan
  rw [Cover.count_split, size]

section PoolGet

variable {alloc : BlockAllocator} (ok : alloc.Ok) {i : Nat} (lt : i < memoryBlockAllocatorExp) {h : Nat} {t : List Nat}
  (list : (alloc.pools i).freeList = h :: t)

include list

theorem poolGet_fst : (blockAllocatorPoolGet alloc i).1 = h := by
  show (alloc.pools i).freeList.headD 0 = h
  rw [list]
  rfl

include ok lt

theorem Ok.poolGet : (blockAllocatorPoolGet alloc i).2.Ok := by
  have free : (alloc.pools i).free = t.length + 1 := by
    rw [ok.free_eq i lt, list]
    rfl
  refine Ok.update lt rfl ok ?_ (fun a mem => ok.aligned i lt a (List.mem_of_mem_tail mem)) ?_
  · show (alloc.pools i).free - 1 = (alloc.pools i).freeList.tail.length
    rw [free, list]
    rfl
  · show MaskOk _ (if (alloc.pools i).free - 1 = 0 then _ else _)
    split
    · exact ok.mask.clear lt ‹_›
    · exact ok.mask.update (by dsimp only; omega)

theorem takes_poolGet : Takes alloc (blockAllocatorPoolGet alloc i).2 i h := by
  refine ⟨lt, ok.aligned i lt h (by rw [list]; exact List.mem_cons_self), fun x => ?_, ?_⟩
  · have step := @freeCover_update alloc (blockAllocatorPoolGet alloc i).2 i lt _ rfl x
    rw [list, List.map_cons, Cover.count_cons] at step
    dsimp only at step
    rw [List.tail_cons] at step
    rw [Cover.count_singleton]
    omega
  · have step := @freeBytes_update alloc (blockAllocatorPoolGet alloc i).2 i lt _ rfl
    dsimp only at step
    rw [list, List.tail_cons, List.length_cons, Nat.succ_mul] at step
    omega

end PoolGet

section Borrow

theorem keeps_bump {alloc : BlockAllocator} (ok : alloc.Ok) {i : Nat} (lt : i < memoryBlockAllocatorExp) :
    Keeps alloc ⟨Function.update alloc.pools i { alloc.pools i with borrow := (alloc.pools i).borrow + 1 },
      alloc.notEmptyMask⟩ := by
  exact ⟨Ok.update lt rfl ok (ok.free_eq i lt) (ok.aligned i lt) (ok.mask.update Iff.rfl),
    fun x => freeCover_eq_of_update lt rfl (by rfl) x, freeBytes_eq_of_update lt rfl (by rfl)⟩

theorem keeps_halves {alloc mid fin : BlockAllocator} {p h : Nat} (pLt : p < memoryBlockAllocatorExp)
    (midOk : mid.Ok) (taken : Takes alloc mid (p + 1) h) {pool : BlockAllocatorPool} (same : mid.pools p = pool)
    (pools : fin.pools = Function.update mid.pools p
      { pool with freeList := h :: (h + blockAllocatorPoolSize p) :: pool.freeList, free := pool.free + 2 })
    (mask : fin.notEmptyMask = mid.notEmptyMask ||| ((1 : UInt32) <<< UInt32.ofNat p)) : Keeps alloc fin := by
  subst same
  have free := midOk.free_eq p pLt
  refine ⟨Ok.update pLt pools midOk ?_ ?_ ?_, fun x => ?_, ?_⟩
  · dsimp only
    rw [free]
    rfl
  · -- the halves are aligned as blocks of pool `p`, the rest were already
    intro a mem
    rcases List.mem_cons.mp mem with rfl | mem
    · exact taken.aligned.half
    rcases List.mem_cons.mp mem with rfl | mem
    · exact taken.aligned.half.add_size
    · exact midOk.aligned p pLt a mem
  · rw [pools, mask]
    exact midOk.mask.set pLt (by dsimp only; omega)
  · have step := freeCover_update pLt pools x
    dsimp only at step
    rw [List.map_cons, List.map_cons, count_halves] at step
    have rest := taken.freeCover x
    omega
  · have step := freeBytes_update pLt pools
    dsimp only at step
    have size : blockAllocatorPoolSize (p + 1) = 2 * blockAllocatorPoolSize p := by
      rw [blockAllocatorPoolSize_eq, blockAllocatorPoolSize_eq, Nat.pow_succ]
      omega
    rw [List.length_cons, List.length_cons, Nat.add_mul, Nat.add_mul] at step
    have rest := taken.freeBytes
    omega

theorem keeps_borrow {alloc : BlockAllocator} (ok : alloc.Ok) {p : Nat} (lt : p + 1 < memoryBlockAllocatorExp)
    (nonempty : 0 < (alloc.pools (p + 1)).free) : Keeps alloc (blockAllocatorPoolBorrow alloc p) := by
  obtain ⟨h, t, list⟩ := ok.exists_cons lt nonempty
  have gotOk := ok.poolGet lt list
  have gotFst := poolGet_fst list
  have gotTakes := takes_poolGet ok lt list
  unfold blockAllocatorPoolBorrow
  generalize blockAllocatorPoolGet alloc (p + 1) = got at gotOk gotFst gotTakes ⊢
  obtain ⟨data, got⟩ := got
  dsimp only at gotOk gotFst gotTakes ⊢
  subst gotFst
  have bump := keeps_bump gotOk lt
  exact keeps_halves (by omega) bump.ok (gotTakes.keeps bump) (Function.update_of_ne (by omega) _ _) rfl rfl

theorem borrow_free_pos (alloc : BlockAllocator) (p : Nat) : 0 < ((blockAllocatorPoolBorrow alloc p).pools p).free := by
  unfold blockAllocatorPoolBorrow
  dsimp only
  rw [Function.update_self]
  dsimp only
  omega

end Borrow

theorem keeps_borrowDown {idx : Nat} (count : Nat) {alloc : BlockAllocator} (ok : alloc.Ok)
    (lt : idx + count < memoryBlockAllocatorExp) (nonempty : 0 < (alloc.pools (idx + count)).free) :
    Keeps alloc (blockAllocatorBorrowDown alloc idx count) ∧
      0 < ((blockAllocatorBorrowDown alloc idx count).pools idx).free := by
  induction count generalizing alloc with
  | zero => exact ⟨⟨ok, fun _ => rfl, rfl⟩, nonempty⟩
  | succ count ih =>
    -- the borrow from the pool `count + 1` above fills the pool `count` above
    have first := keeps_borrow ok (show idx + count + 1 < memoryBlockAllocatorExp by omega) nonempty
    obtain ⟨rest, filled⟩ := ih first.ok (by omega) (borrow_free_pos _ _)
    exact ⟨first.trans rest, filled⟩

section Balloc

theorem MaskOk.shiftRight_testBit {pools : Nat → BlockAllocatorPool} {mask : UInt32} (ok : MaskOk pools mask)
    {idx : Nat} (small : idx < 32) (k : Nat) :
    (mask >>> UInt32.ofNat idx).toNat.testBit k =
      (decide (idx + k < memoryBlockAllocatorExp) && decide (0 < (pools (idx + k)).free)) := by
  rw [Bits.toNat_shiftRight_ofNat _ small, Nat.testBit_shiftRight, ok]

theorem MaskOk.shiftRight_eq_zero {pools : Nat → BlockAllocatorPool} {mask : UInt32} (ok : MaskOk pools mask)
    {idx : Nat} (small : idx < 32) :
    mask >>> UInt32.ofNat idx = 0 ↔ ∀ j, idx ≤ j → j < memoryBlockAllocatorExp → (pools j).free = 0 := by
  rw [← UInt32.toNat_inj, UInt32.toNat_zero]
  constructor
  · intro zero j le lt
    have bit := ok.shiftRight_testBit small (j - idx)
    rw [zero, Nat.zero_testBit, Nat.add_sub_cancel' le] at bit
    simp only [lt, decide_true, Bool.true_and, Bool.false_eq, decide_eq_false_iff_not] at bit
    omega
  · intro empty
    apply Nat.eq_of_testBit_eq
    intro k
    rw [ok.shiftRight_testBit small, Nat.zero_testBit]
    by_cases lt : idx + k < memoryBlockAllocatorExp
    · simp [empty (idx + k) (by omega) lt]
    · simp [lt]

theorem blockAllocatorBalloc_eq_get {alloc : BlockAllocator} {size : Nat} (positive : 0 < size)
    (le : size ≤ memoryBlockAllocatorMaxSize)
    (nonzero : alloc.notEmptyMask >>> UInt32.ofNat (blockAllocatorPoolIndex size) ≠ 0) :
    blockAllocatorBalloc alloc size =
      let got := blockAllocatorPoolGet (blockAllocatorBorrowDown alloc (blockAllocatorPoolIndex size)
        (Bits.trailingZeros 32 (alloc.notEmptyMask >>> UInt32.ofNat (blockAllocatorPoolIndex size)).toNat))
        (blockAllocatorPoolIndex size)
      (some got.1, got.2) := by
  unfold blockAllocatorBalloc
  rw [if_neg (Nat.pos_iff_ne_zero.mp positive), if_neg (Nat.not_lt_of_le le)]
  simp only [asanRedZone, Nat.mul_zero, Nat.add_zero, if_neg nonzero, Nat.add_sub_cancel_left]

-- Every `NULL` of `balloc` leaves the allocator as it was.
theorem blockAllocatorBalloc_none {alloc : BlockAllocator} {size : Nat}
    (failed : (blockAllocatorBalloc alloc size).1 = none) : (blockAllocatorBalloc alloc size).2 = alloc := by
  unfold blockAllocatorBalloc at failed ⊢
  dsimp only at failed ⊢
  split_ifs at failed ⊢ <;> rfl

theorem poolIndex_lt {size : Nat} (positive : 0 < size) (le : size ≤ memoryBlockAllocatorMaxSize) :
    blockAllocatorPoolIndex size < memoryBlockAllocatorExp :=
  (blockAllocatorPoolIndex_spec positive le).1

theorem blockAllocatorBalloc_some {alloc : BlockAllocator} {size a : Nat} (result : (blockAllocatorBalloc alloc size).1 = some a) :
    0 < size ∧ size ≤ memoryBlockAllocatorMaxSize ∧
      alloc.notEmptyMask >>> UInt32.ofNat (blockAllocatorPoolIndex size) ≠ 0 := by
  unfold blockAllocatorBalloc at result
  dsimp only at result
  split_ifs at result with zero large empty
  exact ⟨Nat.pos_of_ne_zero zero, Nat.le_of_not_lt large, empty⟩

variable {alloc : BlockAllocator} (ok : alloc.Ok) {size : Nat} (positive : 0 < size) (le : size ≤ memoryBlockAllocatorMaxSize)

include ok positive le

-- A `balloc` that finds a pool with a block borrows down from the lowest such pool at or above the
-- size's, then takes the head of the size's pool.
theorem blockAllocatorBalloc_borrows (nonzero : alloc.notEmptyMask >>> UInt32.ofNat (blockAllocatorPoolIndex size) ≠ 0) :
    ∃ count, blockAllocatorPoolIndex size + count < memoryBlockAllocatorExp ∧
      0 < (alloc.pools (blockAllocatorPoolIndex size + count)).free ∧
      blockAllocatorBalloc alloc size =
        (some (blockAllocatorPoolGet (blockAllocatorBorrowDown alloc (blockAllocatorPoolIndex size) count)
            (blockAllocatorPoolIndex size)).1,
          (blockAllocatorPoolGet (blockAllocatorBorrowDown alloc (blockAllocatorPoolIndex size) count)
            (blockAllocatorPoolIndex size)).2) := by
  have small : blockAllocatorPoolIndex size < 32 := Nat.lt_trans (poolIndex_lt positive le) (by decide)
  -- the lowest set bit of the shifted mask is the pool to borrow from
  have bit := Bits.testBit_trailingZeros (fun h => nonzero (UInt32.toNat_inj.mp (h.trans UInt32.toNat_zero.symm)))
    (UInt32.toNat_lt (alloc.notEmptyMask >>> UInt32.ofNat (blockAllocatorPoolIndex size)))
  rw [ok.mask.shiftRight_testBit small] at bit
  simp only [Bool.and_eq_true, decide_eq_true_eq] at bit
  exact ⟨_, bit.1, bit.2, blockAllocatorBalloc_eq_get positive le nonzero⟩

theorem takes_balloc (found : ∃ j, blockAllocatorPoolIndex size ≤ j ∧ j < memoryBlockAllocatorExp ∧ 0 < (alloc.pools j).free) :
    ∃ a, (blockAllocatorBalloc alloc size).1 = some a ∧ (blockAllocatorBalloc alloc size).2.Ok ∧
      Takes alloc (blockAllocatorBalloc alloc size).2 (blockAllocatorPoolIndex size) a := by
  have idxLt := poolIndex_lt positive le
  have small : blockAllocatorPoolIndex size < 32 := Nat.lt_trans idxLt (by decide)
  have nonzero : alloc.notEmptyMask >>> UInt32.ofNat (blockAllocatorPoolIndex size) ≠ 0 := by
    intro zero
    obtain ⟨j, above, lt, nonempty⟩ := found
    have empty := (ok.mask.shiftRight_eq_zero small).mp zero j above lt
    omega
  obtain ⟨count, lt, nonempty, result⟩ := blockAllocatorBalloc_borrows ok positive le nonzero
  rw [result]
  obtain ⟨keeps, filled⟩ := keeps_borrowDown count ok lt nonempty
  obtain ⟨h, t, list⟩ := keeps.ok.exists_cons idxLt filled
  exact ⟨h, by rw [poolGet_fst list], keeps.ok.poolGet idxLt list, keeps.takes (takes_poolGet keeps.ok idxLt list)⟩

end Balloc

theorem takes_of_balloc_some {alloc : BlockAllocator} (ok : alloc.Ok) {size a : Nat}
    (result : (blockAllocatorBalloc alloc size).1 = some a) :
    (blockAllocatorBalloc alloc size).2.Ok ∧ Takes alloc (blockAllocatorBalloc alloc size).2 (blockAllocatorPoolIndex size) a := by
  obtain ⟨positive, le, nonzero⟩ := blockAllocatorBalloc_some result
  have small : blockAllocatorPoolIndex size < 32 := Nat.lt_trans (poolIndex_lt positive le) (by decide)
  have found : ∃ j, blockAllocatorPoolIndex size ≤ j ∧ j < memoryBlockAllocatorExp ∧ 0 < (alloc.pools j).free := by
    by_contra none
    push Not at none
    exact nonzero ((ok.mask.shiftRight_eq_zero small).mpr fun j above lt => Nat.eq_zero_of_le_zero (none j above lt))
  obtain ⟨a', given, gotOk, taken⟩ := takes_balloc ok positive le found
  rw [given, Option.some.injEq] at result
  subst result
  exact ⟨gotOk, taken⟩

-- `balloc` of a size it serves returns `NULL` only when no pool from the size's up has a block.
theorem Ok.empty_of_balloc_none {alloc : BlockAllocator} (ok : alloc.Ok) {size : Nat} (positive : 0 < size)
    (le : size ≤ memoryBlockAllocatorMaxSize) (failed : (blockAllocatorBalloc alloc size).1 = none) :
    ∀ j, blockAllocatorPoolIndex size ≤ j → j < memoryBlockAllocatorExp → (alloc.pools j).freeList = [] := by
  intro j above lt
  by_contra nonempty
  have free : 0 < (alloc.pools j).free := by
    rw [ok.free_eq j lt]
    exact List.length_pos_iff.mpr nonempty
  obtain ⟨a, given, -⟩ := takes_balloc ok positive le ⟨j, above, lt, free⟩
  rw [given] at failed
  exact Option.some_ne_none a failed

theorem Ok.testBit_mask {alloc : BlockAllocator} (ok : alloc.Ok) {i : Nat} (lt : i < memoryBlockAllocatorExp) :
    alloc.notEmptyMask.toNat.testBit i = decide ((alloc.pools i).freeList ≠ []) := by
  rw [ok.mask i]
  simp only [lt, decide_true, Bool.true_and, ok.free_eq i lt, List.length_pos_iff]

section Bfree

variable {alloc : BlockAllocator} {block size : Nat} (positive : 0 < size)

include positive

theorem blockAllocatorBfreeInternal_pools :
    (blockAllocatorBfreeInternal alloc block size).pools =
      Function.update alloc.pools (blockAllocatorPoolIndex size)
        { alloc.pools (blockAllocatorPoolIndex size) with
          freeList := block :: (alloc.pools (blockAllocatorPoolIndex size)).freeList,
          free := (alloc.pools (blockAllocatorPoolIndex size)).free + 1 } := by
  rw [blockAllocatorBfreeInternal, if_neg (Nat.pos_iff_ne_zero.mp positive)]

theorem blockAllocatorBfreeInternal_mask :
    (blockAllocatorBfreeInternal alloc block size).notEmptyMask =
      alloc.notEmptyMask ||| ((1 : UInt32) <<< UInt32.ofNat (blockAllocatorPoolIndex size)) := by
  rw [blockAllocatorBfreeInternal, if_neg (Nat.pos_iff_ne_zero.mp positive)]

theorem blockAllocatorBfree_eq : blockAllocatorBfree alloc block size = blockAllocatorBfreeInternal alloc block size := by
  rw [blockAllocatorBfree, if_neg (Nat.pos_iff_ne_zero.mp positive)]
  rfl

variable (lt : blockAllocatorPoolIndex size < memoryBlockAllocatorExp)
  (aligned : Aligned (blockAllocatorPoolIndex size) block)

include lt aligned

theorem Ok.bfreeInternal (ok : alloc.Ok) : (blockAllocatorBfreeInternal alloc block size).Ok := by
  refine Ok.update lt (blockAllocatorBfreeInternal_pools positive) ok ?_ ?_ ?_
  · dsimp only
    rw [ok.free_eq _ lt]
    rfl
  · intro a mem
    rcases List.mem_cons.mp mem with rfl | mem
    · exact aligned
    · exact ok.aligned _ lt a mem
  · rw [blockAllocatorBfreeInternal_pools positive, blockAllocatorBfreeInternal_mask positive]
    exact ok.mask.set lt (by dsimp only; omega)

theorem takes_bfreeInternal :
    Takes (blockAllocatorBfreeInternal alloc block size) alloc (blockAllocatorPoolIndex size) block := by
  refine ⟨lt, aligned, fun x => ?_, ?_⟩
  · have step := freeCover_update lt (@blockAllocatorBfreeInternal_pools alloc block size positive) x
    dsimp only at step
    rw [List.map_cons, Cover.count_cons] at step
    rw [Cover.count_singleton]
    omega
  · have step := freeBytes_update lt (@blockAllocatorBfreeInternal_pools alloc block size positive)
    dsimp only at step
    rw [List.length_cons, Nat.succ_mul] at step
    omega

end Bfree

-- `alloc'` is `alloc` with free blocks added that hold the bytes of `span`, each once.
structure Adds (alloc alloc' : BlockAllocator) (span : Nat × Nat) : Prop where
  ok : alloc'.Ok
  freeCover : ∀ x, alloc'.freeCover x = alloc.freeCover x + Cover.count [span] x
  freeBytes : alloc'.freeBytes = alloc.freeBytes + span.2

section PutArena

theorem poolSize_sub_three {k : Nat} (three : 3 ≤ k) : blockAllocatorPoolSize (k - 3) = 2 ^ k := by
  rw [blockAllocatorPoolSize, memoryBlockAllocatorMinBits, Nat.add_sub_cancel' three]

theorem adds_putArenaLoop {end_ : Nat} (end8 : 8 ∣ end_) (word : end_ < 2 ^ 64) (pos : Nat) {alloc : BlockAllocator}
    (ok : alloc.Ok) (positive : 0 < pos) (pos8 : 8 ∣ pos) :
    Adds alloc (blockAllocatorPutArenaLoop alloc pos end_) (pos, end_ - pos) := by
  generalize left_eq : end_ - pos = left
  induction left using Nat.strong_induction_on generalizing pos alloc with
  | _ left ih =>
    rw [blockAllocatorPutArenaLoop]
    split
    · rename_i inside
      obtain ⟨k, block, three, le, fits, aligned⟩ :=
        blockAllocatorArenaBlock_spec positive (by omega) pos8 end8 inside
      dsimp only
      rw [block]
      -- the first block goes to the pool of its size
      have index := blockAllocatorPoolIndex_two_pow three le
      have idxLt : blockAllocatorPoolIndex (2 ^ k) < memoryBlockAllocatorExp := by
        rw [index]
        exact Nat.lt_of_le_of_lt (Nat.sub_le_sub_right le 3) (by decide)
      have idxAligned : Aligned (blockAllocatorPoolIndex (2 ^ k)) pos := by
        unfold Aligned
        rw [index, poolSize_sub_three three]
        exact aligned
      have firstOk := Ok.bfreeInternal (Nat.two_pow_pos k) idxLt idxAligned ok
      have first := @takes_bfreeInternal alloc pos (2 ^ k) (Nat.two_pow_pos k) idxLt idxAligned
      have blockPos := Nat.two_pow_pos k
      have rest := ih (end_ - (pos + 2 ^ k)) (by omega) (pos + 2 ^ k) firstOk (by omega)
        (Nat.dvd_add pos8 (Nat.pow_dvd_pow 2 three)) rfl
      refine ⟨rest.ok, fun x => ?_, ?_⟩
      · -- the first block and the rest of the span make up the span
        have whole := Cover.count_split pos (2 ^ k) (end_ - (pos + 2 ^ k)) x
        rw [← List.singleton_append, Cover.count_append, show 2 ^ k + (end_ - (pos + 2 ^ k)) = left by omega] at whole
        have firstCover := first.freeCover x
        rw [blockSpan, index, poolSize_sub_three three] at firstCover
        rw [rest.freeCover]
        omega
      · have firstBytes := first.freeBytes
        rw [index, poolSize_sub_three three] at firstBytes
        rw [rest.freeBytes, ← firstBytes]
        dsimp only
        omega
    · rename_i done
      have none : left = 0 := by omega
      subst none
      have empty : ∀ x, Cover.count [(pos, 0)] x = 0 := fun x => by
        rw [Cover.count_singleton, Cover.covers, decide_eq_false (by omega)]
        rfl
      exact ⟨ok, fun x => by rw [empty x, Nat.add_zero], (Nat.add_zero _).symm⟩

end PutArena

-- The bytes `put_arena` frees: from the arena's first 8-byte boundary to its last.
def arenaSpan (arena size : Nat) : Nat × Nat :=
  ((arena + 7) - (arena + 7) % 8, ((arena + size) - (arena + size) % 8) - ((arena + 7) - (arena + 7) % 8))

theorem adds_putArena {alloc : BlockAllocator} (ok : alloc.Ok) {arena size : Nat} (nonnull : 0 < arena)
    (word : arena + size < 2 ^ 64) :
    Adds alloc (blockAllocatorPutArena alloc arena size) (arenaSpan arena size) :=
  adds_putArenaLoop (Nat.dvd_sub_mod _) (by omega) _ ok (by omega) (Nat.dvd_sub_mod _)

theorem arenaSpan_covers {arena size x : Nat} (within : Cover.covers (arenaSpan arena size) x = true) :
    arena ≤ x ∧ x < arena + size := by
  unfold Cover.covers arenaSpan at within
  rw [decide_eq_true_eq] at within
  omega

end BlockAllocator

end Yanet
