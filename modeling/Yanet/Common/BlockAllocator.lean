import Yanet.Lib.Bits

set_option autoImplicit false

-- The block allocator of common/memory_block.h, which serves every `memory_balloc` of the dataplane
-- and the control plane. There are 24 pools; pool `i` keeps free blocks of `8 << i` bytes on a free
-- list, and a bit of `not_empty_mask` tells which pools have any. `balloc` rounds the size up to a
-- pool, takes a block from the first non-empty pool at or above it and splits it down, half by
-- half; `bfree` puts a block back on the list of its size's pool; `put_arena` cuts an arena into
-- blocks aligned to their size (at most 2 MiB) and frees them.
--
-- The free lists live inside the free blocks; here each is the list of its blocks' addresses.
-- Addresses and sizes are `Nat`. The build modelled is the one without ASAN, whose red zone is 0.

namespace Yanet

def asanRedZone : Nat := 0
def memoryBlockAllocatorExp : Nat := 24
def memoryBlockAllocatorMinBits : Nat := 3
def memoryBlockAllocatorMaxBits : Nat := memoryBlockAllocatorMinBits + memoryBlockAllocatorExp - 1
def memoryBlockAllocatorMaxAlign : Nat := 2 ^ 21
def memoryBlockAllocatorMinSize : Nat := 2 ^ memoryBlockAllocatorMinBits
def memoryBlockAllocatorMaxSizeInternal : Nat := 2 ^ memoryBlockAllocatorMaxBits
def memoryBlockAllocatorMaxSize : Nat := memoryBlockAllocatorMaxSizeInternal - asanRedZone * 2

structure BlockAllocatorPool where
  allocate : Nat
  free : Nat
  borrow : Nat
  freeList : List Nat

structure BlockAllocator where
  pools : Nat → BlockAllocatorPool
  notEmptyMask : UInt32

def blockAllocatorInit : BlockAllocator := ⟨fun _ => ⟨0, 0, 0, []⟩, 0⟩

def blockAllocatorPoolSize (poolIndex : Nat) : Nat := 2 ^ (memoryBlockAllocatorMinBits + poolIndex)

-- __builtin_clzll of a nonzero 64-bit word.
def clzll (x : Nat) : Nat := 63 - Nat.log2 x

def blockAllocatorPoolIndex (size : Nat) : Nat :=
  if size < memoryBlockAllocatorMinSize then 0
  else
    -- the upper end of the size's power-of-two range, in units of the minimum block size
    let size := (size <<< 1) - 1
    let size := size >>> memoryBlockAllocatorMinBits
    8 * 8 - 1 - clzll size

-- The head of the pool's free list; the pool's bit of the mask is cleared when it empties.
def blockAllocatorPoolGet (alloc : BlockAllocator) (index : Nat) : Nat × BlockAllocator :=
  let pool := alloc.pools index
  let free := pool.free - 1
  let mask :=
    if free = 0 then alloc.notEmptyMask &&& ~~~((1 : UInt32) <<< UInt32.ofNat index) else alloc.notEmptyMask
  (pool.freeList.headD 0,
    ⟨Function.update alloc.pools index
      { pool with freeList := pool.freeList.tail, allocate := pool.allocate + 1, free := free }, mask⟩)

-- A block of the parent pool split into two blocks of this pool.
def blockAllocatorPoolBorrow (alloc : BlockAllocator) (poolIndex : Nat) : BlockAllocator :=
  let got := blockAllocatorPoolGet alloc (poolIndex + 1)
  let data := got.1
  let parent := got.2.pools (poolIndex + 1)
  let pools := Function.update got.2.pools (poolIndex + 1) { parent with borrow := parent.borrow + 1 }
  let pool := got.2.pools poolIndex
  let nextData := data + blockAllocatorPoolSize poolIndex
  ⟨Function.update pools poolIndex { pool with freeList := data :: nextData :: pool.freeList, free := pool.free + 2 },
    got.2.notEmptyMask ||| ((1 : UInt32) <<< UInt32.ofNat poolIndex)⟩

-- The loop of balloc: `count` borrows, from the pool `count` above `poolIndex` down to it.
def blockAllocatorBorrowDown (alloc : BlockAllocator) (poolIndex : Nat) : Nat → BlockAllocator
  | 0 => alloc
  | count + 1 => blockAllocatorBorrowDown (blockAllocatorPoolBorrow alloc (poolIndex + count)) poolIndex count

def blockAllocatorBalloc (alloc : BlockAllocator) (size : Nat) : Option Nat × BlockAllocator :=
  if size = 0 then (none, alloc)
  else if memoryBlockAllocatorMaxSize < size then (none, alloc)
  else
    let size := size + 2 * asanRedZone
    let poolIndex := blockAllocatorPoolIndex size
    let mask := alloc.notEmptyMask >>> UInt32.ofNat poolIndex
    if mask = 0 then (none, alloc)
    else
      let parentPoolIndex := poolIndex + Bits.trailingZeros 32 mask.toNat
      let got := blockAllocatorPoolGet (blockAllocatorBorrowDown alloc poolIndex (parentPoolIndex - poolIndex)) poolIndex
      (some (got.1 + asanRedZone), got.2)

def blockAllocatorBfreeInternal (alloc : BlockAllocator) (block size : Nat) : BlockAllocator :=
  if size = 0 then alloc
  else
    let poolIndex := blockAllocatorPoolIndex size
    let pool := alloc.pools poolIndex
    ⟨Function.update alloc.pools poolIndex { pool with freeList := block :: pool.freeList, free := pool.free + 1 },
      alloc.notEmptyMask ||| ((1 : UInt32) <<< UInt32.ofNat poolIndex)⟩

def blockAllocatorBfree (alloc : BlockAllocator) (block size : Nat) : BlockAllocator :=
  if size = 0 then alloc else blockAllocatorBfreeInternal alloc (block - asanRedZone) (size + 2 * asanRedZone)

-- The inner loop of put_arena: halve the block until it ends by `end_`. (A block of 0 bytes fits
-- whenever `pos ≤ end_`, which the outer loop keeps; the guard shows the halving stops.)
def blockAllocatorFitBlock (pos end_ blockSize : Nat) : Nat :=
  if h : end_ < pos + blockSize ∧ 0 < blockSize then blockAllocatorFitBlock pos end_ (blockSize / 2) else blockSize
termination_by blockSize
decreasing_by exact Nat.div_lt_self h.2 (by decide)

-- The block put_arena frees at `pos`: aligned to its size, up to the maximal alignment, and ending
-- by `end_`.
def blockAllocatorArenaBlock (pos end_ : Nat) : Nat :=
  let align := 2 ^ Bits.trailingZeros 64 pos
  let blockSize := if align < memoryBlockAllocatorMaxAlign then align else memoryBlockAllocatorMaxSizeInternal
  let blockSize := blockAllocatorFitBlock pos end_ blockSize
  if memoryBlockAllocatorMaxSizeInternal < blockSize then memoryBlockAllocatorMaxSizeInternal else blockSize

theorem blockAllocatorFitBlock_pos {pos end_ blockSize : Nat} (left : pos < end_) (positive : 0 < blockSize) :
    0 < blockAllocatorFitBlock pos end_ blockSize := by
  induction blockSize using Nat.strongRecOn with
  | _ blockSize ih =>
    rw [blockAllocatorFitBlock]
    split
    · rename_i wide
      by_cases one : blockSize = 1
      · omega
      · exact ih (blockSize / 2) (Nat.div_lt_self positive (by decide)) (by omega)
    · exact positive

theorem blockAllocatorArenaBlock_pos {pos end_ : Nat} (left : pos < end_) : 0 < blockAllocatorArenaBlock pos end_ := by
  have capped : ∀ {b : Nat}, 0 < b →
      0 < if memoryBlockAllocatorMaxSizeInternal < b then memoryBlockAllocatorMaxSizeInternal else b := by
    intro b positive
    split
    · exact Nat.two_pow_pos _
    · exact positive
  apply capped
  apply blockAllocatorFitBlock_pos left
  split
  · exact Nat.two_pow_pos _
  · exact Nat.two_pow_pos _

def blockAllocatorPutArenaLoop (alloc : BlockAllocator) (pos end_ : Nat) : BlockAllocator :=
  if pos < end_ then
    let blockSize := blockAllocatorArenaBlock pos end_
    blockAllocatorPutArenaLoop (blockAllocatorBfreeInternal alloc pos blockSize) (pos + blockSize) end_
  else alloc
termination_by end_ - pos
decreasing_by
  have := blockAllocatorArenaBlock_pos (by assumption : pos < end_)
  omega

-- `(pos + 7) & ~7` and `end & ~7`: the arena's bounds rounded inwards to 8 bytes.
def blockAllocatorPutArena (alloc : BlockAllocator) (arena size : Nat) : BlockAllocator :=
  let pos := (arena + 7) - (arena + 7) % 8
  let end_ := (arena + size) - (arena + size) % 8
  blockAllocatorPutArenaLoop alloc pos end_

def blockAllocatorFreeSize (alloc : BlockAllocator) : Nat :=
  (List.range memoryBlockAllocatorExp).foldl
    (fun size i => size + (alloc.pools i).free * blockAllocatorPoolSize i) 0

section Spec

theorem blockAllocatorPoolSize_eq (i : Nat) : blockAllocatorPoolSize i = 8 * 2 ^ i := by
  rw [blockAllocatorPoolSize, memoryBlockAllocatorMinBits, Nat.pow_add]

theorem blockAllocatorPoolIndex_spec {size : Nat} (positive : 0 < size) (le : size ≤ memoryBlockAllocatorMaxSizeInternal) :
    blockAllocatorPoolIndex size < memoryBlockAllocatorExp ∧ size ≤ blockAllocatorPoolSize (blockAllocatorPoolIndex size) ∧
      (blockAllocatorPoolIndex size = 0 ∨ blockAllocatorPoolSize (blockAllocatorPoolIndex size - 1) < size) := by
  have maxSize : memoryBlockAllocatorMaxSizeInternal = 2 ^ 26 := rfl
  unfold blockAllocatorPoolIndex
  split
  · rename_i small
    have minSize : memoryBlockAllocatorMinSize = 8 := rfl
    exact ⟨by decide, by rw [blockAllocatorPoolSize_eq]; omega, Or.inl rfl⟩
  · rename_i large
    have minSize : memoryBlockAllocatorMinSize = 8 := rfl
    dsimp only
    rw [Nat.shiftLeft_eq, Nat.shiftRight_eq_div_pow, memoryBlockAllocatorMinBits]
    -- the normalised size `u` lies between 2^L and 2^(L+1)
    have units : 0 < (size * 2 ^ 1 - 1) / 2 ^ 3 := by
      rw [Nat.pow_one]
      omega
    have lower := Nat.log2_self_le (Nat.pos_iff_ne_zero.mp units)
    have upper := @Nat.lt_log2_self ((size * 2 ^ 1 - 1) / 2 ^ 3)
    have below : Nat.log2 ((size * 2 ^ 1 - 1) / 2 ^ 3) < 24 := by
      rw [Nat.log2_lt (Nat.pos_iff_ne_zero.mp units)]
      omega
    have index : 8 * 8 - 1 - clzll ((size * 2 ^ 1 - 1) / 2 ^ 3) = Nat.log2 ((size * 2 ^ 1 - 1) / 2 ^ 3) := by
      rw [clzll]
      omega
    rw [index, blockAllocatorPoolSize_eq]
    generalize Nat.log2 ((size * 2 ^ 1 - 1) / 2 ^ 3) = L at lower upper below
    rw [Nat.pow_succ] at upper
    refine ⟨below, by omega, ?_⟩
    cases L with
    | zero => exact Or.inl rfl
    | succ L =>
      rw [Nat.pow_succ] at lower
      right
      rw [blockAllocatorPoolSize_eq, Nat.add_sub_cancel]
      omega

theorem blockAllocatorFitBlock_pow {pos end_ e : Nat} (room : pos + 8 ≤ end_) (three : 3 ≤ e) :
    ∃ k, blockAllocatorFitBlock pos end_ (2 ^ e) = 2 ^ k ∧ 3 ≤ k ∧ k ≤ e ∧ pos + 2 ^ k ≤ end_ := by
  induction e, three using Nat.le_induction with
  | base =>
    refine ⟨3, ?_, le_rfl, le_rfl, room⟩
    rw [blockAllocatorFitBlock, dif_neg (by omega)]
  | succ e three ih =>
    rw [blockAllocatorFitBlock]
    split
    · rename_i wide
      obtain ⟨k, fit, lo, hi, fits⟩ := ih
      rw [Nat.pow_succ, Nat.mul_div_cancel _ (by decide)]
      exact ⟨k, fit, lo, Nat.le_succ_of_le hi, fits⟩
    · rename_i narrow
      have positive : 0 < 2 ^ (e + 1) := Nat.two_pow_pos _
      exact ⟨e + 1, rfl, Nat.le_succ_of_le three, le_rfl, by omega⟩

theorem min_two_pow_dvd_max_align (k : Nat) : min (2 ^ k) memoryBlockAllocatorMaxAlign ∣ memoryBlockAllocatorMaxAlign := by
  rw [memoryBlockAllocatorMaxAlign]
  rcases Nat.le_total k 21 with small | large
  · rw [Nat.min_eq_left (Nat.pow_le_pow_right (by decide) small)]
    exact Nat.pow_dvd_pow 2 small
  · rw [Nat.min_eq_right (Nat.pow_le_pow_right (by decide) large)]

theorem blockAllocatorArenaBlock_spec {pos end_ : Nat} (positive : 0 < pos) (word : pos < 2 ^ 64) (pos8 : 8 ∣ pos)
    (end8 : 8 ∣ end_) (left : pos < end_) :
    ∃ k, blockAllocatorArenaBlock pos end_ = 2 ^ k ∧ 3 ≤ k ∧ k ≤ 26 ∧ pos + 2 ^ k ≤ end_ ∧
      min (2 ^ k) memoryBlockAllocatorMaxAlign ∣ pos := by
  have room : pos + 8 ≤ end_ := by omega
  have three : 3 ≤ Bits.trailingZeros 64 pos := Bits.le_trailingZeros (by omega) word (by simpa using pos8)
  have aligned := Bits.two_pow_trailingZeros_dvd 64 pos
  have maxSize : memoryBlockAllocatorMaxSizeInternal = 2 ^ 26 := rfl
  unfold blockAllocatorArenaBlock
  dsimp only
  split
  · -- aligned below 2 MiB: the block starts at the alignment and is halved to fit
    rename_i small
    obtain ⟨k, fit, lo, hi, fits⟩ := blockAllocatorFitBlock_pow room three
    have below : k < 21 := by
      have : 2 ^ Bits.trailingZeros 64 pos < 2 ^ 21 := small
      have := (Nat.pow_lt_pow_iff_right (by decide)).mp this
      omega
    have notCapped : ¬ memoryBlockAllocatorMaxSizeInternal < 2 ^ k := by
      rw [maxSize]
      exact Nat.not_lt_of_le (Nat.pow_le_pow_right (by decide) (by omega))
    rw [fit, if_neg notCapped]
    refine ⟨k, rfl, lo, by omega, fits, ?_⟩
    have within : 2 ^ k ≤ memoryBlockAllocatorMaxAlign := Nat.pow_le_pow_right (by decide) (by omega)
    rw [Nat.min_eq_left within]
    exact Nat.dvd_trans (Nat.pow_dvd_pow 2 hi) aligned
  · -- aligned to 2 MiB or more: the block starts at the largest size
    rename_i large
    rw [maxSize]
    obtain ⟨k, fit, lo, hi, fits⟩ := blockAllocatorFitBlock_pow room (by decide : 3 ≤ 26)
    have notCapped : ¬ 2 ^ 26 < 2 ^ k := Nat.not_lt_of_le (Nat.pow_le_pow_right (by decide) hi)
    rw [fit, if_neg notCapped]
    refine ⟨k, rfl, lo, hi, fits, Nat.dvd_trans (min_two_pow_dvd_max_align k) (Nat.dvd_trans ?_ aligned)⟩
    have : 21 ≤ Bits.trailingZeros 64 pos := by
      have := Nat.le_of_not_lt large
      exact (Nat.pow_le_pow_iff_right (by decide)).mp this
    exact Nat.pow_dvd_pow 2 this

theorem blockAllocatorPoolIndex_two_pow {k : Nat} (three : 3 ≤ k) (le : k ≤ 26) :
    blockAllocatorPoolIndex (2 ^ k) = k - 3 := by
  have spec := blockAllocatorPoolIndex_spec (Nat.two_pow_pos k) (Nat.pow_le_pow_right (by decide) le)
  obtain ⟨_, fits, least⟩ := spec
  rw [blockAllocatorPoolSize_eq] at fits
  have upper : k ≤ blockAllocatorPoolIndex (2 ^ k) + 3 := by
    have : 2 ^ k ≤ 2 ^ (blockAllocatorPoolIndex (2 ^ k) + 3) := by rw [Nat.pow_add]; omega
    exact (Nat.pow_le_pow_iff_right (by decide)).mp this
  rcases least with zero | below
  · omega
  · rw [blockAllocatorPoolSize_eq] at below
    have : 2 ^ (blockAllocatorPoolIndex (2 ^ k) - 1 + 3) < 2 ^ k := by rw [Nat.pow_add]; omega
    have := (Nat.pow_lt_pow_iff_right (by decide)).mp this
    omega

theorem foldl_add_range (f : Nat → Nat) (n : Nat) :
    (List.range n).foldl (fun size i => size + f i) 0 = ∑ i ∈ Finset.range n, f i := by
  induction n with
  | zero => rfl
  | succ n ih => rw [List.range_succ, List.foldl_append, ih, Finset.sum_range_succ, List.foldl_cons, List.foldl_nil]

theorem blockAllocatorFreeSize_eq (alloc : BlockAllocator) :
    blockAllocatorFreeSize alloc =
      ∑ i ∈ Finset.range memoryBlockAllocatorExp, (alloc.pools i).free * blockAllocatorPoolSize i :=
  foldl_add_range _ _

end Spec

end Yanet
