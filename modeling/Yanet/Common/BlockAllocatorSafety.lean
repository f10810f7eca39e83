import Yanet.Common.BlockAllocatorInv

set_option autoImplicit false

-- The block allocator under its clients. A client holds the blocks `balloc` gave it, gives one back
-- with `bfree` and a size of its pool, and hands `put_arena` memory that no block holds.
-- `AllocSystem` adds to the allocator the blocks the clients hold and the bytes given to it. In
-- every state a run reaches, no byte lies in two blocks, free or held, the free and the held blocks
-- hold every byte given, and the mask shows which pools have free blocks.

namespace Yanet

-- A block a client holds: its address and its pool.
structure AllocBlock where
  addr : Nat
  pool : Nat
deriving DecidableEq, Repr

def AllocBlock.span (b : AllocBlock) : Nat × Nat := blockSpan b.pool b.addr

structure AllocSystem where
  alloc : BlockAllocator
  live : List AllocBlock
  total : Nat

namespace AllocSystem

def init : AllocSystem := ⟨blockAllocatorInit, [], 0⟩

-- How many blocks, free or held, hold byte `x`.
def cover (s : AllocSystem) (x : Nat) : Nat := s.alloc.freeCover x + Cover.count (s.live.map AllocBlock.span) x

def liveBytes (s : AllocSystem) : Nat := (s.live.map fun b => blockAllocatorPoolSize b.pool).sum

def balloc (s : AllocSystem) (size : Nat) : AllocSystem :=
  { s with
    alloc := (blockAllocatorBalloc s.alloc size).2
    live := ((blockAllocatorBalloc s.alloc size).1.map fun a => AllocBlock.mk a (blockAllocatorPoolIndex size)).toList ++
      s.live }

def bfree (s : AllocSystem) (b : AllocBlock) (size : Nat) : AllocSystem :=
  { s with alloc := blockAllocatorBfree s.alloc b.addr size, live := s.live.erase b }

def putArena (s : AllocSystem) (arena size : Nat) : AllocSystem :=
  { s with
    alloc := blockAllocatorPutArena s.alloc arena size
    total := s.total + (BlockAllocator.arenaSpan arena size).2 }

end AllocSystem

inductive AllocStep : AllocSystem → AllocSystem → Prop
  | balloc (s : AllocSystem) (size : Nat) : AllocStep s (s.balloc size)
  | bfree (s : AllocSystem) (b : AllocBlock) (size : Nat) (held : b ∈ s.live) (positive : 0 < size)
      (pool : blockAllocatorPoolIndex size = b.pool) : AllocStep s (s.bfree b size)
  -- the arena ends far enough below 2^64 that `pos + block_size` does not wrap
  | putArena (s : AllocSystem) (arena size : Nat) (nonnull : 0 < arena)
      (word : arena + size + memoryBlockAllocatorMaxSizeInternal ≤ 2 ^ 64)
      (unused : ∀ x, arena ≤ x → x < arena + size → s.cover x = 0) : AllocStep s (s.putArena arena size)

theorem lt_of_arena_room {arena size : Nat} (word : arena + size + memoryBlockAllocatorMaxSizeInternal ≤ 2 ^ 64) :
    arena + size < 2 ^ 64 := by
  have positive : 0 < memoryBlockAllocatorMaxSizeInternal := Nat.two_pow_pos _
  omega

inductive AllocReachable : AllocSystem → Prop
  | init : AllocReachable AllocSystem.init
  | step {s s' : AllocSystem} : AllocReachable s → AllocStep s s' → AllocReachable s'

structure AllocInv (s : AllocSystem) : Prop where
  ok : s.alloc.Ok
  live : ∀ b ∈ s.live, b.pool < memoryBlockAllocatorExp ∧ BlockAllocator.Aligned b.pool b.addr
  disjoint : ∀ x, s.cover x ≤ 1
  bytes : s.alloc.freeBytes + s.liveBytes = s.total

theorem AllocSystem.init_cover (x : Nat) : AllocSystem.init.cover x = 0 := by
  simp [AllocSystem.init, AllocSystem.cover, BlockAllocator.freeCover, blockAllocatorInit, Cover.count_nil]

theorem allocInv_init : AllocInv AllocSystem.init := by
  refine ⟨BlockAllocator.ok_init, fun b mem => absurd mem List.not_mem_nil, fun x => ?_, ?_⟩
  · rw [AllocSystem.init_cover]
    exact Nat.zero_le 1
  · simp [AllocSystem.init, AllocSystem.liveBytes, BlockAllocator.freeBytes, blockAllocatorInit]

namespace AllocInv

variable {s : AllocSystem} (inv : AllocInv s)

include inv

theorem balloc (size : Nat) : AllocInv (s.balloc size) := by
  cases result : (blockAllocatorBalloc s.alloc size).1 with
  | none =>
    -- a `NULL` leaves everything as it was
    have same := BlockAllocator.blockAllocatorBalloc_none result
    have unchanged : s.balloc size = s := by
      unfold AllocSystem.balloc
      rw [result, same]
      rfl
    rw [unchanged]
    exact inv
  | some a =>
    -- the block handed out leaves the free lists for the client's
    obtain ⟨ok, taken⟩ := BlockAllocator.takes_of_balloc_some inv.ok result
    have live : (s.balloc size).live = ⟨a, blockAllocatorPoolIndex size⟩ :: s.live := by
      unfold AllocSystem.balloc
      rw [result]
      rfl
    have alloc : (s.balloc size).alloc = (blockAllocatorBalloc s.alloc size).2 := rfl
    refine ⟨ok, fun b mem => ?_, fun x => ?_, ?_⟩
    · rw [live] at mem
      rcases List.mem_cons.mp mem with rfl | mem
      · exact ⟨taken.lt, taken.aligned⟩
      · exact inv.live b mem
    · have moved := taken.freeCover x
      have before := inv.disjoint x
      unfold AllocSystem.cover at before ⊢
      rw [alloc, live, List.map_cons, Cover.count_cons, ← Cover.count_singleton,
        show AllocBlock.span ⟨a, blockAllocatorPoolIndex size⟩ = blockSpan (blockAllocatorPoolIndex size) a from rfl]
      omega
    · have moved := taken.freeBytes
      have total : (s.balloc size).total = s.total := rfl
      have before := inv.bytes
      unfold AllocSystem.liveBytes at before ⊢
      rw [alloc, live, total, List.map_cons, List.sum_cons]
      dsimp only
      omega

theorem bfree {b : AllocBlock} {size : Nat} (held : b ∈ s.live) (positive : 0 < size)
    (pool : blockAllocatorPoolIndex size = b.pool) : AllocInv (s.bfree b size) := by
  -- the block goes back to the free list of its pool
  obtain ⟨lt, aligned⟩ := inv.live b held
  rw [← pool] at lt aligned
  have alloc : (s.bfree b size).alloc = blockAllocatorBfreeInternal s.alloc b.addr size :=
    BlockAllocator.blockAllocatorBfree_eq positive
  have back := @BlockAllocator.takes_bfreeInternal s.alloc b.addr size positive lt aligned
  rw [pool] at back
  refine ⟨alloc ▸ BlockAllocator.Ok.bfreeInternal positive lt aligned inv.ok,
    fun b' mem => inv.live b' (List.mem_of_mem_erase mem), fun x => ?_, ?_⟩
  · have moved := back.freeCover x
    have before := inv.disjoint x
    have rest := Cover.count_perm (List.Perm.map AllocBlock.span (List.perm_cons_erase held)) x
    rw [List.map_cons, Cover.count_cons, ← Cover.count_singleton] at rest
    unfold AllocSystem.cover at before ⊢
    rw [alloc, show (s.bfree b size).live = s.live.erase b from rfl]
    rw [show b.span = blockSpan b.pool b.addr from rfl] at rest
    omega
  · have moved := back.freeBytes
    have rest := List.sum_map_erase (fun b => blockAllocatorPoolSize b.pool) held
    have before := inv.bytes
    unfold AllocSystem.liveBytes at before ⊢
    rw [alloc, show (s.bfree b size).live = s.live.erase b from rfl, show (s.bfree b size).total = s.total from rfl]
    omega

theorem putArena {arena size : Nat} (nonnull : 0 < arena)
    (word : arena + size + memoryBlockAllocatorMaxSizeInternal ≤ 2 ^ 64)
    (unused : ∀ x, arena ≤ x → x < arena + size → s.cover x = 0) : AllocInv (s.putArena arena size) := by
  have added := BlockAllocator.adds_putArena inv.ok nonnull (lt_of_arena_room word)
  refine ⟨added.ok, inv.live, fun x => ?_, ?_⟩
  · -- the arena's bytes were in no block
    have before := inv.disjoint x
    show (s.putArena arena size).alloc.freeCover x + _ ≤ 1
    rw [show (s.putArena arena size).alloc = blockAllocatorPutArena s.alloc arena size from rfl, added.freeCover x,
      Cover.count_singleton, show (s.putArena arena size).live = s.live from rfl]
    unfold AllocSystem.cover at before unused
    split
    · rename_i within
      obtain ⟨low, high⟩ := BlockAllocator.arenaSpan_covers within
      have empty := unused x low high
      omega
    · omega
  · have before := inv.bytes
    show (blockAllocatorPutArena s.alloc arena size).freeBytes + s.liveBytes = s.total + _
    rw [added.freeBytes]
    omega

theorem freeCover_eq_zero {b : AllocBlock} (held : b ∈ s.live) {x : Nat} (inside : Cover.covers b.span x = true) :
    s.alloc.freeCover x = 0 := by
  have counted : 0 < Cover.count (s.live.map AllocBlock.span) x :=
    List.countP_pos_iff.mpr ⟨b.span, List.mem_map_of_mem held, inside⟩
  have once := inv.disjoint x
  unfold AllocSystem.cover at once
  omega

theorem live_apart {b b' : AllocBlock} (held : b ∈ s.live) (other : b' ∈ s.live.erase b) (x : Nat) :
    ¬ (Cover.covers b.span x = true ∧ Cover.covers b'.span x = true) := by
  have once : ∀ x, Cover.count (b.span :: (s.live.erase b).map AllocBlock.span) x ≤ 1 := fun x => by
    have perm := Cover.count_perm (List.Perm.map AllocBlock.span (List.perm_cons_erase held)) x
    have le := inv.disjoint x
    unfold AllocSystem.cover at le
    rw [List.map_cons] at perm
    omega
  exact Cover.disjoint_of_count_le_one once (List.mem_map_of_mem other) x

theorem step {s' : AllocSystem} (step : AllocStep s s') : AllocInv s' := by
  cases step with
  | balloc size => exact inv.balloc size
  | bfree b size held positive pool => exact inv.bfree held positive pool
  | putArena arena size nonnull word unused => exact inv.putArena nonnull word unused

end AllocInv

theorem allocInv_reachable {s : AllocSystem} (reachable : AllocReachable s) : AllocInv s := by
  induction reachable with
  | init => exact allocInv_init
  | step _ step ih => exact ih.step step

-- A run: an arena of 64 bytes at address 64 given to an empty allocator, then two blocks of 8
-- bytes taken from it.
def allocArena : AllocSystem := AllocSystem.init.putArena 64 64

def allocTwoBlocks : AllocSystem := (allocArena.balloc 8).balloc 8

theorem allocArena_reachable : AllocReachable allocArena :=
  .step .init (.putArena _ 64 64 (by decide) (by decide) fun x _ _ => AllocSystem.init_cover x)

theorem allocTwoBlocks_reachable : AllocReachable allocTwoBlocks :=
  .step (.step allocArena_reachable (.balloc _ 8)) (.balloc _ 8)

theorem allocArena_alloc : allocArena.alloc = blockAllocatorBfreeInternal blockAllocatorInit 64 64 := by
  have fit : blockAllocatorFitBlock 64 128 64 = 64 := by
    rw [blockAllocatorFitBlock, dif_neg (by decide)]
  have align : (if 2 ^ Bits.trailingZeros 64 64 < memoryBlockAllocatorMaxAlign then 2 ^ Bits.trailingZeros 64 64
      else memoryBlockAllocatorMaxSizeInternal) = 64 := by decide
  have block : blockAllocatorArenaBlock 64 128 = 64 := by
    unfold blockAllocatorArenaBlock
    dsimp only
    rw [align, fit]
    decide
  show blockAllocatorPutArenaLoop blockAllocatorInit 64 128 = _
  rw [blockAllocatorPutArenaLoop, if_pos (by decide)]
  dsimp only
  rw [block, blockAllocatorPutArenaLoop, if_neg (by decide)]

theorem allocTwoBlocks_live : allocTwoBlocks.live = [⟨72, 0⟩, ⟨64, 0⟩] := by
  unfold allocTwoBlocks AllocSystem.balloc
  dsimp only
  rw [allocArena_alloc]
  decide

theorem alloc_held_disjoint {s : AllocSystem} (reachable : AllocReachable s) {b b' : AllocBlock} (held : b ∈ s.live)
    (other : b' ∈ s.live.erase b) (x : Nat) :
    ¬ (Cover.covers b.span x = true ∧ Cover.covers b'.span x = true) :=
  (allocInv_reachable reachable).live_apart held other x

theorem alloc_held_disjoint_twoBlocks :
    ¬ (Cover.covers (AllocBlock.span ⟨72, 0⟩) 72 = true ∧ Cover.covers (AllocBlock.span ⟨64, 0⟩) 72 = true) :=
  alloc_held_disjoint allocTwoBlocks_reachable (by rw [allocTwoBlocks_live]; decide)
    (by rw [allocTwoBlocks_live]; decide) 72

theorem alloc_held_not_free {s : AllocSystem} (reachable : AllocReachable s) {b : AllocBlock} (held : b ∈ s.live)
    {x : Nat} (inside : Cover.covers b.span x = true) :
    s.alloc.freeCover x = 0 :=
  (allocInv_reachable reachable).freeCover_eq_zero held inside

theorem alloc_held_not_free_twoBlocks : allocTwoBlocks.alloc.freeCover 64 = 0 :=
  alloc_held_not_free allocTwoBlocks_reachable
    (by rw [allocTwoBlocks_live]; decide : (⟨64, 0⟩ : AllocBlock) ∈ allocTwoBlocks.live) (by decide)

theorem balloc_fresh {s : AllocSystem} (reachable : AllocReachable s) {size a : Nat}
    (result : (blockAllocatorBalloc s.alloc size).1 = some a) :
    size ≤ blockAllocatorPoolSize (blockAllocatorPoolIndex size) ∧
      BlockAllocator.Aligned (blockAllocatorPoolIndex size) a ∧
      ∀ b ∈ s.live, ∀ x, Cover.covers (blockSpan (blockAllocatorPoolIndex size) a) x = true → Cover.covers b.span x = false := by
  have inv := allocInv_reachable reachable
  obtain ⟨positive, le, -⟩ := BlockAllocator.blockAllocatorBalloc_some result
  obtain ⟨-, taken⟩ := BlockAllocator.takes_of_balloc_some inv.ok result
  have fits : size ≤ memoryBlockAllocatorMaxSizeInternal := Nat.le_trans le (Nat.sub_le _ _)
  refine ⟨(blockAllocatorPoolIndex_spec positive fits).2.1, taken.aligned, fun b held x inside => ?_⟩
  -- the byte was free before, so no held block holds it
  have free := taken.freeCover x
  rw [Cover.count_singleton, if_pos inside] at free
  cases covered : Cover.covers b.span x with
  | false => rfl
  | true =>
    have empty := inv.freeCover_eq_zero held covered
    omega

theorem balloc_fresh_arena :
    8 ≤ blockAllocatorPoolSize (blockAllocatorPoolIndex 8) ∧ BlockAllocator.Aligned (blockAllocatorPoolIndex 8) 64 ∧
      ∀ b ∈ allocArena.live, ∀ x, Cover.covers (blockSpan (blockAllocatorPoolIndex 8) 64) x = true →
        Cover.covers b.span x = false :=
  balloc_fresh allocArena_reachable (by rw [allocArena_alloc]; decide)

theorem alloc_bytes_conserved {s : AllocSystem} (reachable : AllocReachable s) :
    blockAllocatorFreeSize s.alloc + s.liveBytes = s.total := by
  have inv := allocInv_reachable reachable
  rw [inv.ok.freeSize_eq]
  exact inv.bytes

theorem alloc_bytes_conserved_twoBlocks :
    blockAllocatorFreeSize allocTwoBlocks.alloc + allocTwoBlocks.liveBytes = allocTwoBlocks.total :=
  alloc_bytes_conserved allocTwoBlocks_reachable

theorem alloc_mask_nonempty {s : AllocSystem} (reachable : AllocReachable s) (i : Nat) :
    s.alloc.notEmptyMask.toNat.testBit i =
      (decide (i < memoryBlockAllocatorExp) && decide ((s.alloc.pools i).freeList ≠ [])) := by
  have ok := (allocInv_reachable reachable).ok
  by_cases lt : i < memoryBlockAllocatorExp
  · rw [ok.testBit_mask lt]
    simp [lt]
  · rw [ok.mask i]
    simp [lt]

theorem alloc_mask_nonempty_twoBlocks :
    allocTwoBlocks.alloc.notEmptyMask.toNat.testBit 2 =
      (decide (2 < memoryBlockAllocatorExp) && decide ((allocTwoBlocks.alloc.pools 2).freeList ≠ [])) :=
  alloc_mask_nonempty allocTwoBlocks_reachable 2

-- `balloc` of a size it serves returns `NULL` only when no pool from the size's up has a block.
theorem balloc_none_iff {s : AllocSystem} (reachable : AllocReachable s) {size : Nat} (positive : 0 < size)
    (le : size ≤ memoryBlockAllocatorMaxSize) :
    (blockAllocatorBalloc s.alloc size).1 = none ↔
      ∀ j, blockAllocatorPoolIndex size ≤ j → j < memoryBlockAllocatorExp → (s.alloc.pools j).freeList = [] := by
  have ok := (allocInv_reachable reachable).ok
  have small : blockAllocatorPoolIndex size < 32 := Nat.lt_trans (BlockAllocator.poolIndex_lt positive le) (by decide)
  constructor
  · exact ok.empty_of_balloc_none positive le
  · intro empty
    cases result : (blockAllocatorBalloc s.alloc size).1 with
    | none => rfl
    | some a =>
      obtain ⟨-, -, nonzero⟩ := BlockAllocator.blockAllocatorBalloc_some result
      refine absurd ((ok.mask.shiftRight_eq_zero small).mpr fun j above lt => ?_) nonzero
      rw [ok.free_eq j lt, empty j above lt]
      rfl

theorem balloc_none_iff_arena :
    (blockAllocatorBalloc allocArena.alloc 16).1 = none ↔
      ∀ j, blockAllocatorPoolIndex 16 ≤ j → j < memoryBlockAllocatorExp → (allocArena.alloc.pools j).freeList = [] :=
  balloc_none_iff allocArena_reachable (by decide) (by decide)

theorem putArena_frees_arena {s : AllocSystem} (reachable : AllocReachable s) {arena size : Nat} (nonnull : 0 < arena)
    (word : arena + size + memoryBlockAllocatorMaxSizeInternal ≤ 2 ^ 64) (x : Nat) :
    (blockAllocatorPutArena s.alloc arena size).freeCover x =
        s.alloc.freeCover x + (if Cover.covers (BlockAllocator.arenaSpan arena size) x then 1 else 0) ∧
      blockAllocatorFreeSize (blockAllocatorPutArena s.alloc arena size) =
        blockAllocatorFreeSize s.alloc + (BlockAllocator.arenaSpan arena size).2 := by
  have inv := allocInv_reachable reachable
  have added := BlockAllocator.adds_putArena inv.ok nonnull (lt_of_arena_room word)
  refine ⟨by rw [added.freeCover x, Cover.count_singleton], ?_⟩
  rw [added.ok.freeSize_eq, inv.ok.freeSize_eq]
  exact added.freeBytes

theorem putArena_frees_arena_init :
    (blockAllocatorPutArena AllocSystem.init.alloc 60 70).freeCover 64 =
        AllocSystem.init.alloc.freeCover 64 + (if Cover.covers (BlockAllocator.arenaSpan 60 70) 64 then 1 else 0) ∧
      blockAllocatorFreeSize (blockAllocatorPutArena AllocSystem.init.alloc 60 70) =
        blockAllocatorFreeSize AllocSystem.init.alloc + (BlockAllocator.arenaSpan 60 70).2 :=
  putArena_frees_arena AllocReachable.init (by decide) (by decide) 64


theorem bfree_balloc_reuse (alloc : BlockAllocator) (a : Nat) {size : Nat} (positive : 0 < size)
    (le : size ≤ memoryBlockAllocatorMaxSize) :
    (blockAllocatorBalloc (blockAllocatorBfree alloc a size) size).1 = some a := by
  have small : blockAllocatorPoolIndex size < 32 := Nat.lt_trans (BlockAllocator.poolIndex_lt positive le) (by decide)
  rw [BlockAllocator.blockAllocatorBfree_eq positive]
  have bit : ((blockAllocatorBfreeInternal alloc a size).notEmptyMask >>>
      UInt32.ofNat (blockAllocatorPoolIndex size)).toNat.testBit 0 = true := by
    rw [Bits.toNat_shiftRight_ofNat _ small, Nat.testBit_shiftRight, Nat.add_zero,
      BlockAllocator.blockAllocatorBfreeInternal_mask positive, Bits.testBit_or_one_shiftLeft _ small]
    simp
  have nonzero : (blockAllocatorBfreeInternal alloc a size).notEmptyMask >>>
      UInt32.ofNat (blockAllocatorPoolIndex size) ≠ 0 := by
    intro zero
    rw [zero, UInt32.toNat_zero, Nat.zero_testBit] at bit
    exact Bool.false_ne_true bit
  rw [BlockAllocator.blockAllocatorBalloc_eq_get positive le nonzero]
  dsimp only
  rw [Bits.trailingZeros_of_testBit_zero bit]
  have head : ((blockAllocatorBfreeInternal alloc a size).pools (blockAllocatorPoolIndex size)).freeList =
      a :: (alloc.pools (blockAllocatorPoolIndex size)).freeList := by
    rw [BlockAllocator.blockAllocatorBfreeInternal_pools positive, Function.update_self]
  exact congrArg some (BlockAllocator.poolGet_fst head)

theorem bfree_balloc_reuse_init : (blockAllocatorBalloc (blockAllocatorBfree blockAllocatorInit 64 8) 8).1 = some 64 :=
  bfree_balloc_reuse blockAllocatorInit 64 (by decide) (by decide)

theorem pool_index_least {size : Nat} (positive : 0 < size) (le : size ≤ memoryBlockAllocatorMaxSizeInternal) :
    size ≤ blockAllocatorPoolSize (blockAllocatorPoolIndex size) ∧
      ∀ j < blockAllocatorPoolIndex size, blockAllocatorPoolSize j < size := by
  obtain ⟨-, fits, least⟩ := blockAllocatorPoolIndex_spec positive le
  refine ⟨fits, fun j below => ?_⟩
  rcases least with zero | smaller
  · omega
  · have mono : blockAllocatorPoolSize j ≤ blockAllocatorPoolSize (blockAllocatorPoolIndex size - 1) :=
      Nat.pow_le_pow_right (by decide) (by omega)
    omega

theorem pool_index_least_hundred :
    100 ≤ blockAllocatorPoolSize (blockAllocatorPoolIndex 100) ∧
      ∀ j < blockAllocatorPoolIndex 100, blockAllocatorPoolSize j < 100 :=
  pool_index_least (by decide) (by decide)

end Yanet
