import Mathlib

set_option autoImplicit false

-- The static search trees of `common/btree/u16.h`, `u32.h` and `u64.h`. A tree over `n` sorted
-- values has `ceil (n / B)` blocks of `B` values each (one 64-byte cache line), laid out as an
-- implicit `(B + 1)`-ary tree and filled in order, with the last value as padding. The values are
-- stored with their top bit flipped so that the SIMD signed comparisons order them as unsigned;
-- the block searches below are those comparisons, lane by lane. A search walks `h` levels,
-- accumulating the slot index it takes at each level, and finishes in a leaf block or, when the
-- path leaves the allocated blocks, by adding the number of values on the deepest level.
--
-- The three headers differ only in the width of the values, hence in `B`; they are one model over
-- the width `w`.

namespace Yanet

-- Values per 64-byte block: 32 for `uint16_t`, 16 for `uint32_t`, 8 for `uint64_t`.
def btreeBlockSize (w : Nat) : Nat := 512 / w

def btreeSignBit (w : Nat) : BitVec w := BitVec.ofNat w (2 ^ (w - 1))

def btreeMaxBatchSize : Nat := 32

structure Btree (w : Nat) where
  blocks : Nat → Nat → BitVec w
  nblocks : Nat
  n : Nat
  h : Nat
  maxHCnt : Nat

def btreeNext (B v i : Nat) : Nat := v * (B + 1) + i + 1

variable {w : Nat}

-- `btree_*_block_search_gt`: the first slot whose value exceeds the target, or `B`.
def btreeBlockSearchGt (B : Nat) (block : Nat → BitVec w) (target : BitVec w) : Nat :=
  ((List.range B).find? fun i => target.slt (block i)).getD B

-- `btree_*_block_search`: the first slot whose value is at least the target, or `B`.
def btreeBlockSearch (B : Nat) (block : Nat → BitVec w) (target : BitVec w) : Nat :=
  ((List.range B).find? fun i => !(block i).slt target).getD B

-- `btree_*_build` on node `v` at height `h`, with `idx` values placed so far: the children
-- left of each slot are built first, then the slot takes the next value. The recursion stops at
-- the first node past the allocated blocks; `fuel` bounds the depth.
def btreeBuild (B : Nat) (data : List (BitVec w)) : Nat → Btree w → Nat → Nat → Nat → Btree w × Nat
  | 0, btree, _, idx, _ => (btree, idx)
  | fuel + 1, btree, v, idx, h =>
    if btree.nblocks ≤ v then (btree, idx)
    else
      let btree := if btree.h < h then { btree with h := h, maxHCnt := 0 } else btree
      let filled := (List.range B).foldl
        (fun (acc : Btree w × Nat) i =>
          let child := btreeBuild B data fuel acc.1 (btreeNext B v i) acc.2 (h + 1)
          if child.2 < data.length then
            ({ child.1 with
                blocks := Function.update child.1.blocks v
                  (Function.update (child.1.blocks v) i (data.getD child.2 0 ^^^ btreeSignBit w))
                maxHCnt := if child.1.h = h then child.1.maxHCnt + 1 else child.1.maxHCnt },
              child.2 + 1)
          else child)
        (btree, idx)
      btreeBuild B data fuel filled.1 (btreeNext B v B) filled.2 (h + 1)

-- `btree_*_init`: every slot starts as the (flipped) last value. The recursion of the source
-- never goes deeper than the number of blocks, which the fuel covers.
def btreeInit (w : Nat) (data : List (BitVec w)) : Btree w :=
  let B := btreeBlockSize w
  let nblocks := (data.length + B - 1) / B
  let btree : Btree w :=
    { blocks := fun _ _ => if 0 < data.length then data.getD (data.length - 1) 0 ^^^ btreeSignBit w else 0
      nblocks
      n := data.length
      h := 0
      maxHCnt := 0 }
  (btreeBuild B data (nblocks + 1) btree 0 0 0).1

-- One search of `btree_*_upper_bounds` or `_lower_bounds`, with the block search it uses. The
-- source interleaves the searches of a batch level by level; each only reads the tree.
def btreeSearch (btree : Btree w) (search : (Nat → BitVec w) → BitVec w → Nat) (value : BitVec w) : Nat :=
  let B := btreeBlockSize w
  let target := value ^^^ btreeSignBit w
  let ctx := (List.range btree.h).foldl
    (fun (ctx : Nat × Nat) _ =>
      let idx := search (btree.blocks ctx.2) target
      (ctx.1 * (B + 1) + idx, btreeNext B ctx.2 idx))
    (0, 0)
  let result :=
    if ctx.2 < btree.nblocks then ctx.1 * (B + 1) + search (btree.blocks ctx.2) target
    else ctx.1 + btree.maxHCnt
  if result < btree.n then result else btree.n

-- `btree_*_upper_bounds`: the results of the first `btreeMaxBatchSize` values; their number is
-- what the source returns.
def btreeUpperBounds (btree : Btree w) (values : List (BitVec w)) : List Nat :=
  (values.take btreeMaxBatchSize).map (btreeSearch btree (btreeBlockSearchGt (btreeBlockSize w)))

def btreeLowerBounds (btree : Btree w) (values : List (BitVec w)) : List Nat :=
  (values.take btreeMaxBatchSize).map (btreeSearch btree (btreeBlockSearch (btreeBlockSize w)))

def btreeUpperBound (btree : Btree w) (value : BitVec w) : Nat := (btreeUpperBounds btree [value]).headD 0

def btreeLowerBound (btree : Btree w) (value : BitVec w) : Nat := (btreeLowerBounds btree [value]).headD 0

def btreeU16Init (data : List (BitVec 16)) : Btree 16 := btreeInit 16 data
def btreeU32Init (data : List (BitVec 32)) : Btree 32 := btreeInit 32 data
def btreeU64Init (data : List (BitVec 64)) : Btree 64 := btreeInit 64 data

def btreeU16UpperBounds (btree : Btree 16) (values : List (BitVec 16)) : List Nat := btreeUpperBounds btree values
def btreeU32UpperBounds (btree : Btree 32) (values : List (BitVec 32)) : List Nat := btreeUpperBounds btree values
def btreeU64UpperBounds (btree : Btree 64) (values : List (BitVec 64)) : List Nat := btreeUpperBounds btree values

def btreeU16LowerBounds (btree : Btree 16) (values : List (BitVec 16)) : List Nat := btreeLowerBounds btree values
def btreeU32LowerBounds (btree : Btree 32) (values : List (BitVec 32)) : List Nat := btreeLowerBounds btree values
def btreeU64LowerBounds (btree : Btree 64) (values : List (BitVec 64)) : List Nat := btreeLowerBounds btree values

example : btreeUpperBounds (btreeU16Init [3, 4, 5, 6]) [2, 3, 5, 6, 7] = [0, 1, 3, 4, 4] := by decide +kernel

end Yanet
