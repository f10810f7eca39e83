import Mathlib
import Yanet.Filter.BtreeShape
import Yanet.Lib.Bits

set_option autoImplicit false

-- What a search of a built tree returns. The slots, in the order the build fills them, hold the
-- sorted values and then copies of the last one; the values passing the search's test (`≤ v` for
-- `upper_bounds`, `< v` for `lower_bounds`) fill the first `p` slots. Level by level the search
-- stays in a subtree whose slots contain position `p`: the block search finds the first slot at
-- or past `p`, and the child left of it holds the position. On level `height` the slot index taken
-- and the Horner sum of the indices before it give `p`; past the allocated blocks the count of
-- values on level `height` makes up the rest.

namespace Yanet

section Descent

variable {B N : Nat}

-- Slot `i` of block `v`, in a list that holds the block's slots.
theorem slot_position {fs pre post : List (Nat × Nat × Nat)} {v d fuel i : Nat} (present : v < N) (slot : i < B)
    (split : fs = pre ++ btreeSlots B N (fuel + 1) v d ++ post) :
    ∃ inside : pre.length + (btreePrefix B N fuel v d i).length + (btreeSlots B N fuel (btreeNext B v i) (d + 1)).length < fs.length,
      fs[pre.length + (btreePrefix B N fuel v d i).length + (btreeSlots B N fuel (btreeNext B v i) (d + 1)).length] = (v, i, d) := by
  rw [btreeSlots_split present fuel d slot] at split
  have cut : fs = (pre ++ btreePrefix B N fuel v d i ++ btreeSlots B N fuel (btreeNext B v i) (d + 1)) ++ (v, i, d) ::
      ((List.range' (i + 1) (B - (i + 1))).flatMap (fun j => btreeSlots B N fuel (btreeNext B v j) (d + 1) ++ [(v, j, d)]) ++
        btreeSlots B N fuel (btreeNext B v B) (d + 1) ++ post) := by
    rw [split]
    simp only [List.append_assoc, List.cons_append]
  have position : (pre ++ btreePrefix B N fuel v d i ++ btreeSlots B N fuel (btreeNext B v i) (d + 1)).length =
      pre.length + (btreePrefix B N fuel v d i).length + (btreeSlots B N fuel (btreeNext B v i) (d + 1)).length := by
    simp only [List.length_append]
  refine ⟨?_, List.getElem_of_append cut position⟩
  rw [cut]
  simp only [List.length_append, List.length_cons]
  omega

-- One level of the search: the block search at `v` finds the child whose slots hold `p`.
theorem btree_descend {fs pre post : List (Nat × Nat × Nat)} {v d fuel p : Nat} (present : v < N)
    (split : fs = pre ++ btreeSlots B N (fuel + 1) v d ++ post)
    (inside : pre.length ≤ p ∧ p ≤ pre.length + (btreeSlots B N (fuel + 1) v d).length)
    (test : Nat → Bool) (hit : ∀ i < B, ∀ k (lt : k < fs.length), fs[k] = (v, i, d) → test i = decide (p ≤ k)) :
    ((List.range B).find? test).getD B ≤ B ∧
      ∃ post', fs = (pre ++ btreePrefix B N fuel v d (((List.range B).find? test).getD B)) ++
          btreeSlots B N fuel (btreeNext B v (((List.range B).find? test).getD B)) (d + 1) ++ post' ∧
        (pre ++ btreePrefix B N fuel v d (((List.range B).find? test).getD B)).length ≤ p ∧
        p ≤ (pre ++ btreePrefix B N fuel v d (((List.range B).find? test).getD B)).length +
          (btreeSlots B N fuel (btreeNext B v (((List.range B).find? test).getD B)) (d + 1)).length := by
  obtain ⟨le, before, found⟩ := Scan.find?_range_getD_spec B test
  generalize ((List.range B).find? test).getD B = m at le before found ⊢
  -- the slots left of `m` come before `p`
  have lower : (pre ++ btreePrefix B N fuel v d m).length ≤ p := by
    cases m with
    | zero => simpa [btreePrefix_zero] using inside.1
    | succ m =>
      obtain ⟨lt, at_slot⟩ := slot_position present (Nat.lt_of_succ_le le) split
      have miss := hit m (Nat.lt_of_succ_le le) _ lt at_slot
      rw [before m (Nat.lt_succ_self m)] at miss
      rw [List.length_append, btreePrefix_succ, List.length_append, List.length_append, List.length_singleton]
      have := of_decide_eq_false miss.symm
      omega
  refine ⟨le, ?_⟩
  rcases le.lt_or_eq with slot | rfl
  · obtain ⟨lt, at_slot⟩ := slot_position present slot split
    have stop := hit m slot _ lt at_slot
    rw [found slot] at stop
    rw [btreeSlots_split present fuel d slot] at split
    refine ⟨(v, m, d) :: ((List.range' (m + 1) (B - (m + 1))).flatMap
        (fun i => btreeSlots B N fuel (btreeNext B v i) (d + 1) ++ [(v, i, d)]) ++
          btreeSlots B N fuel (btreeNext B v B) (d + 1)) ++ post,
      by rw [split]; simp only [List.append_assoc, List.cons_append], lower, ?_⟩
    have := of_decide_eq_true stop.symm
    rw [List.length_append]
    omega
  · rw [btreeSlots_succ present] at split inside
    refine ⟨post, by rw [split]; simp only [List.append_assoc], lower, ?_⟩
    rw [List.length_append] at inside ⊢
    omega

-- After `j` levels the search is in block `g` of level `j`. Before the block's subtree come `g`
-- complete subtrees above level `height`, and the allocated blocks of that level left of it; the
-- split position `p` lies within the subtree.
structure BtreeShape.Descent (s : BtreeShape B N) (fs : List (Nat × Nat × Nat)) (p j : Nat) (ctx : Nat × Nat) : Prop where
  block : ctx.2 = btreeLevelStart B j + ctx.1
  digit : ctx.1 < (B + 1) ^ j
  split : ∃ pre post, fs = pre ++ btreeSlots B N (N + 1 - j) ctx.2 j ++ post ∧
    pre.length = ctx.1 * (B + 1) ^ (s.height - j) + B * s.leavesBefore j ctx.1 ∧
    pre.countP (fun x => x.2.2 = s.height) = B * s.leavesBefore j ctx.1 ∧
    pre.length ≤ p ∧ p ≤ pre.length + (btreeSlots B N (N + 1 - j) ctx.2 j).length

namespace BtreeShape

variable (s : BtreeShape B N)

theorem descent_root {p : Nat} (inside : p ≤ (btreeSlots B N (N + 1) 0 0).length) :
    s.Descent (btreeSlots B N (N + 1) 0 0) p 0 (0, 0) where
  block := rfl
  digit := by simp
  split := ⟨[], [], by simp, by simp [leavesBefore], by simp [leavesBefore], Nat.zero_le p, by simpa using inside⟩

variable {s}

theorem Descent.step {fs : List (Nat × Nat × Nat)} {p j : Nat} {ctx : Nat × Nat} (descent : s.Descent fs p j ctx)
    (inner : j < s.height) (test : Nat → Bool)
    (hit : ∀ i < B, ∀ k (lt : k < fs.length), fs[k] = (ctx.2, i, j) → test i = decide (p ≤ k)) :
    s.Descent fs p (j + 1) (ctx.1 * (B + 1) + ((List.range B).find? test).getD B,
      btreeNext B ctx.2 (((List.range B).find? test).getD B)) := by
  obtain ⟨pre, post, split, length, deepest, lower, upper⟩ := descent.split
  have short := s.height_le_nblocks
  have fuel : N + 1 - j = N - j + 1 := by omega
  rw [fuel] at split upper
  have present : ctx.2 < N := descent.block ▸ s.present_of_lt descent.digit inner
  obtain ⟨slot, post', split', lower', upper'⟩ := btree_descend present split ⟨lower, upper⟩ test hit
  generalize ((List.range B).find? test).getD B = m at slot split' lower' upper' ⊢
  obtain ⟨-, prefixDeep, prefixLength⟩ :=
    s.btreePrefix_counts inner descent.digit (show s.height + 1 ≤ N - j + 1 + j by omega) slot
  rw [← descent.block] at prefixDeep prefixLength
  have grown := s.leavesBefore_mono (d := j + 1) (Nat.le_add_right (ctx.1 * (B + 1)) m)
  have merged : B * (s.leavesBefore (j + 1) (ctx.1 * (B + 1) + m) - s.leavesBefore (j + 1) (ctx.1 * (B + 1))) +
      B * s.leavesBefore j ctx.1 = B * s.leavesBefore (j + 1) (ctx.1 * (B + 1) + m) := by
    rw [← s.leavesBefore_child inner, ← Nat.mul_add, Nat.sub_add_cancel grown]
  have levels : ctx.1 * (B + 1) ^ (s.height - j) + m * (B + 1) ^ (s.height - (j + 1)) =
      (ctx.1 * (B + 1) + m) * (B + 1) ^ (s.height - (j + 1)) := by
    rw [show s.height - j = s.height - (j + 1) + 1 by omega, pow_succ]
    ring
  have next : btreeNext B ctx.2 m = btreeLevelStart B (j + 1) + (ctx.1 * (B + 1) + m) := by
    rw [descent.block, btreeNext_levelStart]
  have fuel' : N + 1 - (j + 1) = N - j := by omega
  refine ⟨next, child_digit_lt B descent.digit slot, pre ++ btreePrefix B N (N - j) ctx.2 j m, post', ?_, ?_, ?_, ?_, ?_⟩
  · rw [fuel']
    exact split'
  · dsimp only
    rw [List.length_append, length, prefixLength]
    omega
  · dsimp only
    rw [List.countP_append, deepest, prefixDeep]
    omega
  · exact lower'
  · rw [fuel']
    exact upper'

-- On level `height`, in an allocated block, the slot index completes the Horner sum to `p`.
theorem Descent.leaf {fs : List (Nat × Nat × Nat)} {p : Nat} {ctx : Nat × Nat} (descent : s.Descent fs p s.height ctx)
    (present : ctx.2 < N) (test : Nat → Bool)
    (hit : ∀ i < B, ∀ k (lt : k < fs.length), fs[k] = (ctx.2, i, s.height) → test i = decide (p ≤ k)) :
    ctx.1 * (B + 1) + ((List.range B).find? test).getD B = p := by
  obtain ⟨pre, post, split, length, -, lower, upper⟩ := descent.split
  have short := s.height_le_nblocks
  have fuel : N + 1 - s.height = N - s.height + 1 := by omega
  rw [fuel] at split upper
  obtain ⟨slot, -, -, lower', upper'⟩ := btree_descend present split ⟨lower, upper⟩ test hit
  generalize ((List.range B).find? test).getD B = m at slot lower' upper' ⊢
  have allocated : ctx.1 < s.last := by
    have := (s.present_iff descent.digit).mp (descent.block ▸ present)
    omega
  have leaves : ∀ i ≤ B, N ≤ btreeNext B ctx.2 i := fun i slot => descent.block ▸ s.leaves_absent descent.digit slot
  rw [btreeSlots_of_le (leaves m slot), List.length_nil, Nat.add_zero, List.length_append,
    btreePrefix_of_leaves leaves m slot, List.length_map, List.length_range] at upper'
  rw [List.length_append, btreePrefix_of_leaves leaves m slot, List.length_map, List.length_range] at lower'
  rw [length, Nat.sub_self, pow_zero, Nat.mul_one, leavesBefore, Nat.sub_self, pow_zero, Nat.mul_one,
    Nat.min_eq_right allocated.le] at upper' lower'
  rw [Nat.mul_succ, Nat.mul_comm ctx.1 B]
  omega

-- Past the allocated blocks of level `height`, every slot of that level comes before `p`.
theorem Descent.beyond {fs : List (Nat × Nat × Nat)} {p : Nat} {ctx : Nat × Nat} (descent : s.Descent fs p s.height ctx)
    (absent : N ≤ ctx.2) :
    p = ctx.1 + B * s.last ∧ ∃ pre post, fs = pre ++ post ∧ pre.length = p ∧
      pre.countP (fun x => x.2.2 = s.height) = B * s.last := by
  obtain ⟨pre, post, split, length, deepest, lower, upper⟩ := descent.split
  have beyond : s.last ≤ ctx.1 := by
    have := mt (s.present_iff descent.digit).mpr (Nat.not_lt.mpr (descent.block ▸ absent))
    omega
  have all : s.leavesBefore s.height ctx.1 = s.last := by
    rw [leavesBefore, Nat.sub_self, pow_zero, Nat.mul_one, Nat.min_eq_left beyond]
  rw [btreeSlots_of_le absent, List.append_nil] at split
  rw [btreeSlots_of_le absent, List.length_nil, Nat.add_zero] at upper
  rw [all, Nat.sub_self, pow_zero, Nat.mul_one] at length
  rw [all] at deepest
  exact ⟨by omega, pre, post, split, by omega, deepest⟩

end BtreeShape

end Descent

section Split

variable {w : Nat} (data : List (BitVec w)) (q : BitVec w → Bool)

-- The value of slot `k` of the in-order fill: the `k`-th value, or the last one past the end.
def btreePadded (k : Nat) : BitVec w := data.getD (min k (data.length - 1)) 0

-- The slots whose values pass `q`, a test closed downwards, are the first `btreeSplit`: all
-- `total` of them when the last value passes, and otherwise as many as there are passing values.
def btreeSplit (total : Nat) : Nat := if q (data.getD (data.length - 1) 0) then total else data.countP q

variable {data q}

section

variable (sorted : data.Pairwise (· ≤ ·)) (down : ∀ x y, x ≤ y → q y = true → q x = true)
  (nonempty : 0 < data.length)
include sorted down nonempty

theorem countP_eq_length_of_last (last : q (data.getD (data.length - 1) 0) = true) : data.countP q = data.length := by
  rw [List.countP_eq_length]
  intro x mem
  obtain ⟨i, lt, rfl⟩ := List.mem_iff_getElem.mp mem
  rw [List.getD_eq_getElem _ _ (by omega)] at last
  rcases Nat.lt_or_ge i (data.length - 1) with before | at_end
  · exact down _ _ (List.pairwise_iff_getElem.mp sorted i _ lt (by omega) before) last
  · obtain rfl : i = data.length - 1 := by omega
    exact last

theorem countP_lt_length_of_last (last : q (data.getD (data.length - 1) 0) = false) : data.countP q < data.length := by
  have fails := Scan.pass_iff_lt_countP sorted q down (k := data.length - 1) (by omega)
  rw [List.getD_eq_getElem _ _ (by omega)] at last
  rw [last] at fails
  have := List.countP_le_length (p := q) (l := data)
  simp only [Bool.false_eq_true, false_iff, not_lt] at fails
  omega

theorem padded_pass {total k : Nat} (inside : k < total) :
    q (btreePadded data k) = decide (k < btreeSplit data q total) := by
  rw [btreePadded, btreeSplit]
  by_cases last : q (data.getD (data.length - 1) 0) = true
  · rw [if_pos last, decide_eq_true inside]
    rcases Nat.lt_or_ge (min k (data.length - 1)) (data.length - 1) with before | at_end
    · rw [List.getD_eq_getElem _ _ (by omega)]
      rw [List.getD_eq_getElem _ _ (by omega)] at last
      exact down _ _ (List.pairwise_iff_getElem.mp sorted _ _ (by omega) (by omega) before) last
    · rwa [show min k (data.length - 1) = data.length - 1 by omega]
  · rw [if_neg last]
    have below := countP_lt_length_of_last sorted down nonempty (Bool.eq_false_iff.mpr last)
    rcases Nat.lt_or_ge k data.length with slot | past
    · rw [show min k (data.length - 1) = k by omega, List.getD_eq_getElem _ _ slot]
      exact Bool.eq_iff_iff.mpr ((Scan.pass_iff_lt_countP sorted q down slot).trans decide_eq_true_iff.symm)
    · rw [show min k (data.length - 1) = data.length - 1 by omega, decide_eq_false (by omega)]
      exact Bool.eq_false_iff.mpr last

-- What the clamp `min result n` makes of the split position.
theorem min_btreeSplit {total : Nat} (room : data.length ≤ total) :
    min (btreeSplit data q total) data.length = data.countP q := by
  rw [btreeSplit]
  by_cases last : q (data.getD (data.length - 1) 0) = true
  · rw [if_pos last, countP_eq_length_of_last sorted down nonempty last]
    omega
  · rw [if_neg last]
    have := countP_lt_length_of_last sorted down nonempty (Bool.eq_false_iff.mpr last)
    omega

theorem btreeSplit_eq_of_lt {total : Nat} (room : data.length ≤ total) (lt : btreeSplit data q total < data.length) :
    btreeSplit data q total = data.countP q := by
  have := min_btreeSplit sorted down nonempty room
  omega

theorem btreeSplit_eq_total {total : Nat} (ge : data.length ≤ btreeSplit data q total) :
    btreeSplit data q total = total := by
  rw [btreeSplit] at ge ⊢
  by_cases last : q (data.getD (data.length - 1) 0) = true
  · rw [if_pos last]
  · rw [if_neg last] at ge
    have := countP_lt_length_of_last sorted down nonempty (Bool.eq_false_iff.mpr last)
    omega

end

theorem btreeSplit_le {total : Nat} (room : data.length ≤ total) : btreeSplit data q total ≤ total := by
  rw [btreeSplit]
  split
  · exact le_rfl
  · exact List.countP_le_length.trans room

end Split

section Built

variable {w : Nat} (data : List (BitVec w))

-- The number of blocks `btree_*_init` allocates, `ceil (n / B)`.
def btreeBlocks (w : Nat) (data : List (BitVec w)) : Nat := (data.length + btreeBlockSize w - 1) / btreeBlockSize w

-- The slots of the tree `btree_*_init` builds, in the order its build fills them.
def btreeInitSlots (w : Nat) (data : List (BitVec w)) : List (Nat × Nat × Nat) :=
  btreeSlots (btreeBlockSize w) (btreeBlocks w data) (btreeBlocks w data + 1) 0 0

theorem btreeInit_eq :
    btreeInit w data =
      ((btreeTrace (btreeBlockSize w) (btreeBlocks w data) (btreeBlocks w data + 1) 0 0).foldl (btreeStep data)
        ({ blocks := fun _ _ => if 0 < data.length then data.getD (data.length - 1) 0 ^^^ btreeSignBit w else 0
           nblocks := btreeBlocks w data
           n := data.length
           h := 0
           maxHCnt := 0 }, 0)).1 := by
  rw [btreeInit, ← btreeBuild_eq_foldl]
  rfl

theorem btreeInit_nblocks : (btreeInit w data).nblocks = btreeBlocks w data := by
  rw [btreeInit_eq, foldl_btreeStep_nblocks]

theorem btreeInit_n : (btreeInit w data).n = data.length := by
  rw [btreeInit_eq, foldl_btreeStep_n]

-- Slot `k` of the in-order fill holds the `k`-th padded value, sign bit flipped.
theorem btreeInit_blocks (nonempty : 0 < data.length) {k : Nat}
    (inside : k < (btreeInitSlots w data).length) :
    (btreeInit w data).blocks
        (btreeInitSlots w data)[k].1
        (btreeInitSlots w data)[k].2.1 =
      btreePadded data k ^^^ btreeSignBit w := by
  have distinct : ((btreeInitSlots w data).map fun x => (x.1, x.2.1)).Nodup :=
    nodup_btreeSlots_keys (d := 0) (g := 0) (by simp)
  unfold btreeInitSlots btreeSlots at inside distinct ⊢
  rw [btreeInit_eq]
  by_cases placed : k < data.length
  · rw [foldl_btreeStep_blocks_of_fill data _ _ distinct inside (by simpa using placed), btreePadded, Nat.zero_add,
      Nat.min_eq_left (by omega)]
  · -- past the values the slot keeps the padding, the last value
    have fresh := Scan.getElem_not_mem_take distinct (by simpa using inside) (Nat.le_of_not_lt placed)
    rw [List.getElem_map, ← List.map_take] at fresh
    rw [foldl_btreeStep_blocks_of_not_mem data _ _ (by simpa using fresh), btreePadded,
      Nat.min_eq_right (by omega)]
    exact if_pos nonempty

-- The slots outnumber the values: `B` per block, `ceil (n / B)` blocks.
theorem btreeInit_room {data : List (BitVec w)} (wide : 0 < btreeBlockSize w)
    (s : BtreeShape (btreeBlockSize w) (btreeBlocks w data)) :
    data.length ≤ (btreeInitSlots w data).length := by
  rw [btreeInitSlots, (s.btreeSlots_root (by have := s.height_le_nblocks; omega)).1, btreeBlocks]
  have := Nat.div_add_mod (data.length + btreeBlockSize w - 1) (btreeBlockSize w)
  have := Nat.mod_lt (data.length + btreeBlockSize w - 1) wide
  omega

section Shaped

variable {data} (s : BtreeShape (btreeBlockSize w) (btreeBlocks w data))
  (wide : 0 < btreeBlockSize w)
include wide

theorem btreeInit_h : (btreeInit w data).h = s.height := by
  rw [btreeInit_eq, foldl_btreeStep_h]
  exact s.foldl_reach_btreeTrace wide (by have := s.height_le_nblocks; omega)

-- The count of values on the deepest level: the slots of level `height` among the first `n`.
theorem btreeInit_maxHCnt :
    (btreeInit w data).maxHCnt =
      ((btreeInitSlots w data).take data.length).countP
          fun x => x.2.2 = s.height := by
  rw [btreeInit_eq, foldl_btreeStep_maxHCnt _ _ _ (ordered_btreeTrace _ _ _ _)]
  dsimp only
  rw [s.foldl_reach_btreeTrace wide (by have := s.height_le_nblocks; omega), ite_self, Nat.zero_add, Nat.sub_zero]
  rfl

end Shaped

end Built

section Search

variable {w : Nat}

-- The walk of `btreeSearch` down `h` levels: the Horner sum of the slot indices taken, and the
-- block reached.
def btreeWalk (btree : Btree w) (search : (Nat → BitVec w) → BitVec w → Nat) (target : BitVec w) : Nat × Nat :=
  (List.range btree.h).foldl
    (fun (ctx : Nat × Nat) _ =>
      let idx := search (btree.blocks ctx.2) target
      (ctx.1 * (btreeBlockSize w + 1) + idx, btreeNext (btreeBlockSize w) ctx.2 idx))
    (0, 0)

theorem btreeSearch_eq (btree : Btree w) (search : (Nat → BitVec w) → BitVec w → Nat) (value : BitVec w) :
    btreeSearch btree search value =
      let ctx := btreeWalk btree search (value ^^^ btreeSignBit w)
      let result :=
        if ctx.2 < btree.nblocks then ctx.1 * (btreeBlockSize w + 1) + search (btree.blocks ctx.2) (value ^^^ btreeSignBit w)
        else ctx.1 + btree.maxHCnt
      if result < btree.n then result else btree.n := rfl

section Sorted

variable {data : List (BitVec w)} {q : BitVec w → Bool} {search : (Nat → BitVec w) → BitVec w → Nat}
  {pred : BitVec w → Bool} {value : BitVec w}
  (sorted : data.Pairwise (· ≤ ·)) (down : ∀ x y, x ≤ y → q y = true → q x = true) (nonempty : 0 < data.length)
  (scan : ∀ block, search block (value ^^^ btreeSignBit w) =
    ((List.range (btreeBlockSize w)).find? fun i => pred (block i)).getD (btreeBlockSize w))
  (flip : ∀ x, pred (x ^^^ btreeSignBit w) = !q x)

include sorted down nonempty flip in
-- The block search's test at the slot in position `k`: whether `k` is at or past the split.
theorem btreeInit_probe {v i d k : Nat}
    (inside : k < (btreeInitSlots w data).length)
    (at_slot : (btreeInitSlots w data)[k] = (v, i, d)) :
    pred ((btreeInit w data).blocks v i) =
      decide (btreeSplit data q (btreeInitSlots w data).length ≤ k) := by
  have stored := btreeInit_blocks data nonempty inside
  rw [at_slot] at stored
  rw [stored, flip, padded_pass sorted down nonempty inside]
  simp only [← decide_not, Nat.not_lt]

include sorted down nonempty scan flip in
theorem btreeWalk_descent (wide : 0 < btreeBlockSize w)
    (s : BtreeShape (btreeBlockSize w) (btreeBlocks w data)) :
    s.Descent (btreeInitSlots w data)
      (btreeSplit data q (btreeInitSlots w data).length)
      s.height (btreeWalk (btreeInit w data) search (value ^^^ btreeSignBit w)) := by
  rw [btreeWalk, btreeInit_h s wide]
  apply Scan.foldl_range_induction
  · exact s.descent_root (btreeSplit_le (btreeInit_room wide s))
  · intro j ctx inner descent
    dsimp only
    rw [scan]
    exact descent.step inner _ fun i slot k inside at_slot => btreeInit_probe sorted down nonempty flip inside at_slot

end Sorted

-- A search of a tree built from sorted values returns the number of values passing its test,
-- whenever the block search finds the first slot failing it.
theorem btreeSearch_btreeInit {data : List (BitVec w)} {q : BitVec w → Bool}
    {search : (Nat → BitVec w) → BitVec w → Nat} {pred : BitVec w → Bool} {value : BitVec w}
    (positive : 0 < w) (narrow : w ≤ 512) (sorted : data.Pairwise (· ≤ ·))
    (down : ∀ x y, x ≤ y → q y = true → q x = true)
    (scan : ∀ block, search block (value ^^^ btreeSignBit w) =
      ((List.range (btreeBlockSize w)).find? fun i => pred (block i)).getD (btreeBlockSize w))
    (flip : ∀ x, pred (x ^^^ btreeSignBit w) = !q x) :
    btreeSearch (btreeInit w data) search value = data.countP q := by
  have wide : 0 < btreeBlockSize w := Nat.div_pos narrow positive
  rcases Nat.eq_zero_or_pos data.length with empty | nonempty
  · -- no values: the clamp to `n = 0` answers
    rw [btreeSearch_eq, btreeInit_n, empty, List.length_eq_zero_iff.mp empty, List.countP_nil]
    exact if_neg (Nat.not_lt_zero _)
  · obtain ⟨s⟩ := BtreeShape.nonempty (B := btreeBlockSize w) (N := btreeBlocks w data)
      (Nat.div_pos (by omega) wide : 0 < btreeBlocks w data)
    have descent := btreeWalk_descent sorted down nonempty scan flip wide s
    have room := btreeInit_room wide s
    have heights := s.height_le_nblocks
    obtain ⟨-, levels, inner, deepest⟩ :=
      s.btreeSlots_root (show s.height + 1 ≤ btreeBlocks w data + 1 by omega)
    rw [← btreeInitSlots] at levels inner deepest
    have below : ∀ x ∈ btreeInitSlots w data, x.2.2 ≤ s.height :=
      fun x mem => s.height_le_of_mem (d := 0) (g := 0) (by simp) mem
    rw [btreeSearch_eq, btreeInit_nblocks, btreeInit_n, btreeInit_maxHCnt s wide]
    generalize btreeWalk (btreeInit w data) search (value ^^^ btreeSignBit w) = ctx at descent ⊢
    generalize slots : btreeInitSlots w data = fs at descent room levels inner deepest below ⊢
    have clamp := min_btreeSplit sorted down nonempty room
    dsimp only
    by_cases present : ctx.2 < btreeBlocks w data
    · -- an allocated block of the last level: its slot index completes the sum to the split
      have leaf := descent.leaf present (fun i => pred ((btreeInit w data).blocks ctx.2 i)) fun i slot k inside at_slot => by
        subst slots
        exact btreeInit_probe sorted down nonempty flip inside at_slot
      rw [if_pos present, scan, leaf]
      split <;> omega
    · -- past the allocated blocks: every slot of the last level comes before the split
      rw [if_neg present]
      obtain ⟨split, pre, post, whole, length, deep⟩ := descent.beyond (Nat.le_of_not_lt present)
      by_cases short : btreeSplit data q fs.length < data.length
      · have none : post.countP (fun x => x.2.2 = s.height) = 0 := by
          rw [whole, List.countP_append, deep] at deepest
          omega
        have taken : (fs.take data.length).countP (fun x => x.2.2 = s.height) = btreeBlockSize w * s.last := by
          have rest := (List.take_sublist (data.length - pre.length) post).countP_le (p := fun x => x.2.2 = s.height)
          rw [whole, List.take_append, List.take_of_length_le (by omega), List.countP_append, deep]
          omega
        rw [taken, ← split, if_pos short]
        exact btreeSplit_eq_of_lt sorted down nonempty room short
      · -- every value passes; the count of the last level makes the sum reach `n`
        have full := btreeSplit_eq_total sorted down nonempty (Nat.le_of_not_lt short)
        have parts := s.length_eq_inner_add_deepest (l := fs.take data.length) fun x mem => below x (List.mem_of_mem_take mem)
        have upper := (List.take_sublist data.length fs).countP_le (p := fun x => x.2.2 < s.height)
        rw [List.length_take, Nat.min_eq_left room] at parts
        rw [if_neg (by omega)]
        omega

-- `btree_*_upper_bounds` and `btree_*_lower_bounds` on a tree built from sorted values: for each
-- of the first `btreeMaxBatchSize` queries, the number of values at most, and below, the query.
theorem btreeBounds_btreeInit {w : Nat} (positive : 0 < w) (narrow : w ≤ 512) {data : List (BitVec w)}
    (sorted : data.Pairwise (· ≤ ·)) (values : List (BitVec w)) :
    btreeUpperBounds (btreeInit w data) values =
        (values.take btreeMaxBatchSize).map (fun v => data.countP fun x => decide (x ≤ v)) ∧
      btreeLowerBounds (btreeInit w data) values =
        (values.take btreeMaxBatchSize).map (fun v => data.countP fun x => decide (x < v)) := by
  constructor
  · refine List.map_congr_left fun v _ => btreeSearch_btreeInit positive narrow sorted ?_ (fun _ => rfl) ?_
    · intro x y le pass
      exact decide_eq_true (BitVec.le_trans le (of_decide_eq_true pass))
    · intro x
      rw [btreeSignBit, Bits.slt_xor_signBit positive]
      simp only [← decide_not, BitVec.not_le]
  · refine List.map_congr_left fun v _ =>
      @btreeSearch_btreeInit w data (fun x => decide (x < v)) (btreeBlockSearch (btreeBlockSize w))
        (fun x => !x.slt (v ^^^ btreeSignBit w)) v positive narrow sorted ?_ (fun _ => rfl) ?_
    · intro x y le pass
      rw [decide_eq_true_eq, BitVec.lt_def] at pass ⊢
      rw [BitVec.le_def] at le
      omega
    · intro x
      rw [btreeSignBit, Bits.slt_xor_signBit positive]

end Search

theorem btree_bounds_count :
    (∀ data values : List (BitVec 16), data.Pairwise (· ≤ ·) →
      btreeU16UpperBounds (btreeU16Init data) values =
          (values.take btreeMaxBatchSize).map (fun v => data.countP fun x => decide (x ≤ v)) ∧
        btreeU16LowerBounds (btreeU16Init data) values =
          (values.take btreeMaxBatchSize).map (fun v => data.countP fun x => decide (x < v)) ∧
        (btreeU16UpperBounds (btreeU16Init data) values).length = min values.length btreeMaxBatchSize ∧
        (btreeU16LowerBounds (btreeU16Init data) values).length = min values.length btreeMaxBatchSize) ∧
    (∀ data values : List (BitVec 32), data.Pairwise (· ≤ ·) →
      btreeU32UpperBounds (btreeU32Init data) values =
          (values.take btreeMaxBatchSize).map (fun v => data.countP fun x => decide (x ≤ v)) ∧
        btreeU32LowerBounds (btreeU32Init data) values =
          (values.take btreeMaxBatchSize).map (fun v => data.countP fun x => decide (x < v)) ∧
        (btreeU32UpperBounds (btreeU32Init data) values).length = min values.length btreeMaxBatchSize ∧
        (btreeU32LowerBounds (btreeU32Init data) values).length = min values.length btreeMaxBatchSize) ∧
    (∀ data values : List (BitVec 64), data.Pairwise (· ≤ ·) →
      btreeU64UpperBounds (btreeU64Init data) values =
          (values.take btreeMaxBatchSize).map (fun v => data.countP fun x => decide (x ≤ v)) ∧
        btreeU64LowerBounds (btreeU64Init data) values =
          (values.take btreeMaxBatchSize).map (fun v => data.countP fun x => decide (x < v)) ∧
        (btreeU64UpperBounds (btreeU64Init data) values).length = min values.length btreeMaxBatchSize ∧
        (btreeU64LowerBounds (btreeU64Init data) values).length = min values.length btreeMaxBatchSize) := by
  -- the three headers are one model over the width
  have general : ∀ w, 0 < w → w ≤ 512 → ∀ data values : List (BitVec w), data.Pairwise (· ≤ ·) →
      btreeUpperBounds (btreeInit w data) values =
          (values.take btreeMaxBatchSize).map (fun v => data.countP fun x => decide (x ≤ v)) ∧
        btreeLowerBounds (btreeInit w data) values =
          (values.take btreeMaxBatchSize).map (fun v => data.countP fun x => decide (x < v)) ∧
        (btreeUpperBounds (btreeInit w data) values).length = min values.length btreeMaxBatchSize ∧
        (btreeLowerBounds (btreeInit w data) values).length = min values.length btreeMaxBatchSize := by
    intro w positive narrow data values sorted
    obtain ⟨upper, lower⟩ := btreeBounds_btreeInit positive narrow sorted values
    refine ⟨upper, lower, ?_, ?_⟩
    · rw [upper, List.length_map, List.length_take, Nat.min_comm]
    · rw [lower, List.length_map, List.length_take, Nat.min_comm]
  exact ⟨general 16 (by decide) (by decide), general 32 (by decide) (by decide), general 64 (by decide) (by decide)⟩

theorem btree_bounds_count_small :
    ([3, 4, 5, 6] : List (BitVec 16)).Pairwise (· ≤ ·) ∧
      btreeU16UpperBounds (btreeU16Init [3, 4, 5, 6]) [2, 3, 5, 6, 7] = [0, 1, 3, 4, 4] ∧
      btreeU16LowerBounds (btreeU16Init [3, 4, 5, 6]) [2, 3, 5, 6, 7] = [0, 0, 2, 3, 4] := by
  have counts := btree_bounds_count.1 [3, 4, 5, 6] [2, 3, 5, 6, 7] (by decide)
  rw [counts.1, counts.2.1]
  decide

end Yanet
