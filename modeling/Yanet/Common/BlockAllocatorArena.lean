import Yanet.Common.BlockAllocatorSafety

set_option autoImplicit false

-- Where the blocks of the block allocator lie. The clients give `put_arena` arenas that do not
-- overlap; every block the allocator hands out, and every block on its free lists, then lies in
-- the bytes of one arena: `put_arena` cuts its blocks inside the arena, a borrow splits a block
-- into its two halves, and `bfree` only returns a block that was handed out.

namespace Yanet

namespace BlockAllocator

-- Every free block lies in a span that `W` accepts.
def FreeIn (W : Nat × Nat → Prop) (alloc : BlockAllocator) : Prop :=
  ∀ i < memoryBlockAllocatorExp, ∀ a ∈ (alloc.pools i).freeList, W (blockSpan i a)

-- `W` accepts the two halves of every block it accepts.
def Halves (W : Nat × Nat → Prop) : Prop :=
  ∀ p a, W (blockSpan (p + 1) a) → W (blockSpan p a) ∧ W (blockSpan p (a + blockAllocatorPoolSize p))

namespace FreeIn

variable {W : Nat × Nat → Prop} {alloc : BlockAllocator}

theorem update {alloc' : BlockAllocator} {i : Nat} {pool : BlockAllocatorPool} (free : FreeIn W alloc)
    (pools : alloc'.pools = Function.update alloc.pools i pool)
    (new : i < memoryBlockAllocatorExp → ∀ a ∈ pool.freeList, W (blockSpan i a)) : FreeIn W alloc' := by
  intro j lt a mem
  rw [pools] at mem
  by_cases same : j = i
  · subst same
    rw [Function.update_self] at mem
    exact new lt a mem
  · rw [Function.update_of_ne same] at mem
    exact free j lt a mem

theorem poolGet (free : FreeIn W alloc) (i : Nat) : FreeIn W (blockAllocatorPoolGet alloc i).2 :=
  free.update rfl fun lt a mem => free i lt a (List.mem_of_mem_tail mem)

theorem poolGet_fst (free : FreeIn W alloc) {i : Nat} (lt : i < memoryBlockAllocatorExp) {h : Nat} {t : List Nat}
    (list : (alloc.pools i).freeList = h :: t) : W (blockSpan i (blockAllocatorPoolGet alloc i).1) := by
  rw [BlockAllocator.poolGet_fst list]
  exact free i lt h (by rw [list]; exact List.mem_cons_self)

-- A borrow puts the two halves of the parent pool's head on the pool.
theorem borrow (free : FreeIn W alloc) (halves : Halves W) {p : Nat} (lt : p + 1 < memoryBlockAllocatorExp)
    {h : Nat} {t : List Nat} (list : (alloc.pools (p + 1)).freeList = h :: t) :
    FreeIn W (blockAllocatorPoolBorrow alloc p) := by
  have got := free.poolGet (p + 1)
  obtain ⟨low, high⟩ := halves p _ (free.poolGet_fst lt list)
  intro j jLt a mem
  unfold blockAllocatorPoolBorrow at mem
  dsimp only at mem
  by_cases own : j = p
  · subst own
    rw [Function.update_self] at mem
    rcases List.mem_cons.mp mem with rfl | mem
    · exact low
    rcases List.mem_cons.mp mem with rfl | mem
    · exact high
    · exact got j jLt a mem
  · rw [Function.update_of_ne own] at mem
    by_cases parent : j = p + 1
    · subst parent
      rw [Function.update_self] at mem
      exact got _ jLt a mem
    · rw [Function.update_of_ne parent] at mem
      exact got j jLt a mem

theorem borrowDown (halves : Halves W) {idx : Nat} (count : Nat) {alloc : BlockAllocator} (ok : alloc.Ok)
    (free : FreeIn W alloc) (lt : idx + count < memoryBlockAllocatorExp)
    (nonempty : 0 < (alloc.pools (idx + count)).free) : FreeIn W (blockAllocatorBorrowDown alloc idx count) := by
  induction count generalizing alloc with
  | zero => exact free
  | succ count ih =>
    obtain ⟨h, t, list⟩ := ok.exists_cons lt nonempty
    have borrowed := free.borrow halves (show idx + count + 1 < memoryBlockAllocatorExp by omega) list
    exact ih (keeps_borrow ok (by omega) nonempty).ok borrowed (by omega) (borrow_free_pos _ _)

-- After `balloc` the free blocks, and the block handed out, lie in spans `W` accepts.
theorem balloc (halves : Halves W) (ok : alloc.Ok) (free : FreeIn W alloc) (size : Nat) :
    FreeIn W (blockAllocatorBalloc alloc size).2 ∧
      ∀ a, (blockAllocatorBalloc alloc size).1 = some a → W (blockSpan (blockAllocatorPoolIndex size) a) := by
  cases result : (blockAllocatorBalloc alloc size).1 with
  | none =>
    rw [blockAllocatorBalloc_none result]
    exact ⟨free, fun a no => absurd no (Option.some_ne_none a).symm⟩
  | some a =>
    obtain ⟨positive, le, nonzero⟩ := blockAllocatorBalloc_some result
    obtain ⟨count, lt, nonempty, given⟩ := blockAllocatorBalloc_borrows ok positive le nonzero
    have idxLt := poolIndex_lt positive le
    obtain ⟨keeps, filled⟩ := keeps_borrowDown count ok lt nonempty
    have down := free.borrowDown halves count ok lt nonempty
    obtain ⟨h, t, list⟩ := keeps.ok.exists_cons idxLt filled
    rw [given] at result ⊢
    obtain rfl := Option.some.inj result
    refine ⟨down.poolGet _, fun a' same => ?_⟩
    obtain rfl := Option.some.inj same
    exact down.poolGet_fst idxLt list

theorem bfreeInternal (free : FreeIn W alloc) {block size : Nat} (positive : 0 < size)
    (fits : W (blockSpan (blockAllocatorPoolIndex size) block)) :
    FreeIn W (blockAllocatorBfreeInternal alloc block size) :=
  free.update (blockAllocatorBfreeInternal_pools positive) fun lt a mem => by
    rcases List.mem_cons.mp mem with rfl | mem
    · exact fits
    · exact free _ lt a mem

-- The loop of `put_arena` frees blocks between `pos` and `end_` only.
theorem putArenaLoop {end_ : Nat} (end8 : 8 ∣ end_) (word : end_ < 2 ^ 64) (pos : Nat) {alloc : BlockAllocator}
    (free : FreeIn W alloc) (positive : 0 < pos) (pos8 : 8 ∣ pos)
    (within : ∀ span : Nat × Nat, pos ≤ span.1 → span.1 + span.2 ≤ end_ → W span) :
    FreeIn W (blockAllocatorPutArenaLoop alloc pos end_) := by
  generalize left_eq : end_ - pos = left
  induction left using Nat.strong_induction_on generalizing pos alloc with
  | _ left ih =>
    rw [blockAllocatorPutArenaLoop]
    split
    · rename_i inside
      obtain ⟨k, block, three, le, fits, -⟩ := blockAllocatorArenaBlock_spec positive (by omega) pos8 end8 inside
      dsimp only
      rw [block]
      have span : blockSpan (blockAllocatorPoolIndex (2 ^ k)) pos = (pos, 2 ^ k) := by
        rw [blockSpan, blockAllocatorPoolIndex_two_pow three le, poolSize_sub_three three]
      have first := free.bfreeInternal (Nat.two_pow_pos k) (by rw [span]; exact within _ (Nat.le_refl pos) fits)
      have blockPos := Nat.two_pow_pos k
      exact ih _ (by omega) (pos + 2 ^ k) first (by omega) (Nat.dvd_add pos8 (Nat.pow_dvd_pow 2 three))
        (fun span low high => within span (by omega) high) rfl
    · exact free

end FreeIn

end BlockAllocator

-- The span lies in the bytes `put_arena` freed from one of the arenas, each an address and a size.
def InArena (arenas : List (Nat × Nat)) (span : Nat × Nat) : Prop :=
  ∃ arena ∈ arenas, (BlockAllocator.arenaSpan arena.1 arena.2).1 ≤ span.1 ∧
    span.1 + span.2 ≤ (BlockAllocator.arenaSpan arena.1 arena.2).1 + (BlockAllocator.arenaSpan arena.1 arena.2).2

namespace InArena

variable {arenas : List (Nat × Nat)} {span : Nat × Nat}

theorem mono (inside : InArena arenas span) (arena : Nat × Nat) : InArena (arena :: arenas) span := by
  obtain ⟨other, mem, low, high⟩ := inside
  exact ⟨other, List.mem_cons_of_mem arena mem, low, high⟩

theorem covers (inside : InArena arenas span) {x : Nat} (covered : Cover.covers span x = true) :
    ∃ arena ∈ arenas, arena.1 ≤ x ∧ x < arena.1 + arena.2 := by
  obtain ⟨arena, mem, low, high⟩ := inside
  refine ⟨arena, mem, BlockAllocator.arenaSpan_covers ?_⟩
  unfold Cover.covers at covered ⊢
  rw [decide_eq_true_eq] at covered ⊢
  omega

end InArena

theorem halves_inArena (arenas : List (Nat × Nat)) : BlockAllocator.Halves (InArena arenas) := by
  intro p a ⟨arena, mem, low, high⟩
  have size : blockAllocatorPoolSize (p + 1) = 2 * blockAllocatorPoolSize p := by
    rw [blockAllocatorPoolSize_eq, blockAllocatorPoolSize_eq, Nat.pow_succ]
    omega
  unfold blockSpan at low high ⊢
  dsimp only at low high ⊢
  rw [size] at high
  exact ⟨⟨arena, mem, low, by omega⟩, ⟨arena, mem, by omega, by omega⟩⟩

-- The runs of the allocator's clients: `put_arena` of an arena that overlaps none given before,
-- `balloc`, and `bfree` of a block a client holds, with a size of its pool.
inductive AllocArenaRun : List (Nat × Nat) → AllocSystem → Prop
  | init : AllocArenaRun [] AllocSystem.init
  | balloc {arenas : List (Nat × Nat)} {s : AllocSystem} (run : AllocArenaRun arenas s) (size : Nat) :
      AllocArenaRun arenas (s.balloc size)
  | bfree {arenas : List (Nat × Nat)} {s : AllocSystem} (run : AllocArenaRun arenas s) (b : AllocBlock) (size : Nat)
      (held : b ∈ s.live) (positive : 0 < size) (pool : blockAllocatorPoolIndex size = b.pool) :
      AllocArenaRun arenas (s.bfree b size)
  -- the arena ends far enough below 2^64 that `pos + block_size` does not wrap
  | putArena {arenas : List (Nat × Nat)} {s : AllocSystem} (run : AllocArenaRun arenas s) (arena size : Nat)
      (nonnull : 0 < arena) (word : arena + size + memoryBlockAllocatorMaxSizeInternal ≤ 2 ^ 64)
      (apart : ∀ other ∈ arenas, arena + size ≤ other.1 ∨ other.1 + other.2 ≤ arena) :
      AllocArenaRun ((arena, size) :: arenas) (s.putArena arena size)

structure ArenaInv (arenas : List (Nat × Nat)) (s : AllocSystem) : Prop where
  reachable : AllocReachable s
  free : BlockAllocator.FreeIn (InArena arenas) s.alloc
  live : ∀ b ∈ s.live, InArena arenas b.span

namespace ArenaInv

variable {arenas : List (Nat × Nat)} {s : AllocSystem} (inv : ArenaInv arenas s)

include inv

-- A byte that a block, free or held, holds lies in an arena.
theorem mem_arena {x : Nat} (used : s.cover x ≠ 0) : ∃ arena ∈ arenas, arena.1 ≤ x ∧ x < arena.1 + arena.2 := by
  unfold AllocSystem.cover at used
  by_cases free : s.alloc.freeCover x = 0
  · rw [free, Nat.zero_add] at used
    obtain ⟨span, mem, covered⟩ := List.countP_pos_iff.mp (Nat.pos_of_ne_zero used)
    obtain ⟨b, held, rfl⟩ := List.mem_map.mp mem
    exact (inv.live b held).covers covered
  · unfold BlockAllocator.freeCover at free
    obtain ⟨i, range, nonzero⟩ := Finset.exists_ne_zero_of_sum_ne_zero free
    obtain ⟨span, mem, covered⟩ := List.countP_pos_iff.mp (Nat.pos_of_ne_zero nonzero)
    obtain ⟨a, held, rfl⟩ := List.mem_map.mp mem
    exact (inv.free i (Finset.mem_range.mp range) a held).covers covered

theorem balloc (size : Nat) : ArenaInv arenas (s.balloc size) := by
  have ok := (allocInv_reachable inv.reachable).ok
  obtain ⟨free, fresh⟩ := inv.free.balloc (halves_inArena arenas) ok size
  refine ⟨.step inv.reachable (.balloc s size), free, fun b mem => ?_⟩
  unfold AllocSystem.balloc at mem
  rcases List.mem_append.mp mem with new | old
  · cases result : (blockAllocatorBalloc s.alloc size).1 with
    | none =>
      rw [result] at new
      exact absurd new List.not_mem_nil
    | some a =>
      rw [result, Option.map_some, Option.toList_some, List.mem_singleton] at new
      subst new
      exact fresh a result
  · exact inv.live b old

theorem bfree {b : AllocBlock} {size : Nat} (held : b ∈ s.live) (positive : 0 < size)
    (pool : blockAllocatorPoolIndex size = b.pool) : ArenaInv arenas (s.bfree b size) := by
  have alloc : (s.bfree b size).alloc = blockAllocatorBfreeInternal s.alloc b.addr size :=
    BlockAllocator.blockAllocatorBfree_eq positive
  refine ⟨.step inv.reachable (.bfree s b size held positive pool), ?_,
    fun b' mem => inv.live b' (List.mem_of_mem_erase mem)⟩
  rw [alloc]
  exact inv.free.bfreeInternal positive (by rw [pool]; exact inv.live b held)

theorem putArena {arena size : Nat} (nonnull : 0 < arena)
    (word : arena + size + memoryBlockAllocatorMaxSizeInternal ≤ 2 ^ 64)
    (apart : ∀ other ∈ arenas, arena + size ≤ other.1 ∨ other.1 + other.2 ≤ arena) :
    ArenaInv ((arena, size) :: arenas) (s.putArena arena size) := by
  -- an arena apart from the others holds no byte of any block
  have unused : ∀ x, arena ≤ x → x < arena + size → s.cover x = 0 := by
    intro x low high
    by_contra used
    obtain ⟨other, mem, low', high'⟩ := inv.mem_arena used
    rcases apart other mem with before | after <;> omega
  refine ⟨.step inv.reachable (.putArena s arena size nonnull word unused), ?_, fun b mem => (inv.live b mem).mono _⟩
  have old : BlockAllocator.FreeIn (InArena ((arena, size) :: arenas)) s.alloc :=
    fun i lt a mem => (inv.free i lt a mem).mono _
  have room := lt_of_arena_room word
  show BlockAllocator.FreeIn _ (blockAllocatorPutArena s.alloc arena size)
  unfold blockAllocatorPutArena
  refine old.putArenaLoop (Nat.dvd_sub_mod _) (by omega) _ (by omega) (Nat.dvd_sub_mod _) fun span low high => ?_
  refine ⟨(arena, size), List.mem_cons_self, ?_, ?_⟩ <;>
    simp only [BlockAllocator.arenaSpan] <;> omega

end ArenaInv

theorem arenaInv_run {arenas : List (Nat × Nat)} {s : AllocSystem} (run : AllocArenaRun arenas s) :
    ArenaInv arenas s := by
  induction run with
  | init =>
    exact ⟨.init, fun i _ a mem => absurd mem List.not_mem_nil, fun b mem => absurd mem List.not_mem_nil⟩
  | balloc _ size ih => exact ih.balloc size
  | bfree _ b size held positive pool ih => exact ih.bfree held positive pool
  | putArena _ arena size nonnull word apart ih => exact ih.putArena nonnull word apart

-- Every run of the clients: a block `balloc` hands out holds the size, is aligned to its block
-- size up to 2 MiB and lies in one arena; a held block shares no byte with a free block or with
-- another held block; each pool's counter is the length of its free list, and its mask bit is set
-- exactly when the list is not empty; `balloc` fails only for size 0, for a size above the maximum,
-- or when every pool from the size's up is empty.
theorem block_allocator_arena_runs {arenas : List (Nat × Nat)} {s : AllocSystem} (run : AllocArenaRun arenas s) :
    (∀ size a, (blockAllocatorBalloc s.alloc size).1 = some a →
      size ≤ blockAllocatorPoolSize (blockAllocatorPoolIndex size) ∧
        BlockAllocator.Aligned (blockAllocatorPoolIndex size) a ∧
        InArena arenas (blockSpan (blockAllocatorPoolIndex size) a)) ∧
    (∀ b ∈ s.live, ∀ x, Cover.covers b.span x = true →
      s.alloc.freeCover x = 0 ∧ ∀ b' ∈ s.live.erase b, Cover.covers b'.span x = false) ∧
    (∀ i < memoryBlockAllocatorExp, (s.alloc.pools i).free = (s.alloc.pools i).freeList.length ∧
      (s.alloc.notEmptyMask.toNat.testBit i = true ↔ (s.alloc.pools i).freeList ≠ [])) ∧
    (∀ size, (blockAllocatorBalloc s.alloc size).1 = none →
      size = 0 ∨ memoryBlockAllocatorMaxSize < size ∨
        ∀ j, blockAllocatorPoolIndex size ≤ j → j < memoryBlockAllocatorExp → (s.alloc.pools j).freeList = []) := by
  have inv := arenaInv_run run
  have alloc := allocInv_reachable inv.reachable
  refine ⟨fun size a result => ?_, fun b held x inside => ?_, fun i lt => ?_, fun size failed => ?_⟩
  · obtain ⟨positive, le, -⟩ := BlockAllocator.blockAllocatorBalloc_some result
    have fits : size ≤ memoryBlockAllocatorMaxSizeInternal := Nat.le_trans le (Nat.sub_le _ _)
    exact ⟨(blockAllocatorPoolIndex_spec positive fits).2.1,
      (BlockAllocator.takes_of_balloc_some alloc.ok result).2.aligned,
      (inv.free.balloc (halves_inArena arenas) alloc.ok size).2 a result⟩
  · refine ⟨alloc.freeCover_eq_zero held inside, fun b' other => ?_⟩
    cases covered : Cover.covers b'.span x with
    | false => rfl
    | true => exact absurd ⟨inside, covered⟩ (alloc.live_apart held other x)
  · refine ⟨alloc.ok.free_eq i lt, ?_⟩
    rw [alloc.ok.testBit_mask lt, decide_eq_true_iff]
  · by_cases zero : size = 0
    · exact Or.inl zero
    by_cases large : memoryBlockAllocatorMaxSize < size
    · exact Or.inr (Or.inl large)
    exact Or.inr (Or.inr (alloc.ok.empty_of_balloc_none (Nat.pos_of_ne_zero zero) (Nat.le_of_not_lt large) failed))

theorem allocArena_arenaRun : AllocArenaRun [(64, 64)] allocArena :=
  .putArena .init 64 64 (by decide) (by decide) fun _ mem => absurd mem List.not_mem_nil

-- In the run that gives one arena of 64 bytes at 64, `balloc(8)` returns the arena's first block.
theorem block_allocator_arena_runs_arena :
    InArena [(64, 64)] (blockSpan (blockAllocatorPoolIndex 8) 64) ∧
      (allocArena.alloc.pools 3).free = (allocArena.alloc.pools 3).freeList.length :=
  ⟨((block_allocator_arena_runs allocArena_arenaRun).1 8 64 (by rw [allocArena_alloc]; decide)).2.2,
    ((block_allocator_arena_runs allocArena_arenaRun).2.2.1 3 (by decide)).1⟩

end Yanet
