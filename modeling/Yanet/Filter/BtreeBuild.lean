import Mathlib
import Yanet.Filter.Btree
import Yanet.Lib.Scan

set_option autoImplicit false

-- `btree_*_build` as a fold. The recursion enters blocks and fills their slots in an order that
-- depends only on the number of blocks; each of these events acts on the tree and the count of
-- placed values alone. What the build leaves (the slot contents, the height, the count of values
-- on the deepest level) is read off that sequence of events.

namespace Yanet

inductive BtreeEvent where
  | visit (h : Nat)
  | fill (v i h : Nat)
  deriving DecidableEq, Repr

namespace BtreeEvent

-- The slot a fill writes, with the height of its block.
def slot? : BtreeEvent → Option (Nat × Nat × Nat)
  | visit _ => none
  | fill v i h => some (v, i, h)

def height : BtreeEvent → Nat
  | visit h => h
  | fill _ _ h => h

-- The height of the tree after the event, as `btree_*_build` tracks it.
def reach (h : Nat) : BtreeEvent → Nat
  | visit d => max h d
  | fill _ _ _ => h

-- Every slot is filled at a height the tree has already reached.
def Ordered : Nat → List BtreeEvent → Prop
  | _, [] => True
  | h, visit d :: es => Ordered (max h d) es
  | h, fill _ _ d :: es => d ≤ h ∧ Ordered h es

@[simp] theorem filterMap_slot?_visit (d : Nat) (es : List BtreeEvent) :
    (visit d :: es).filterMap slot? = es.filterMap slot? := rfl

@[simp] theorem filterMap_slot?_fill (v i d : Nat) (es : List BtreeEvent) :
    (fill v i d :: es).filterMap slot? = (v, i, d) :: es.filterMap slot? := rfl

theorem le_foldl_reach (es : List BtreeEvent) (h : Nat) : h ≤ es.foldl reach h := by
  induction es generalizing h with
  | nil => exact le_rfl
  | cons e es ih =>
    rw [List.foldl_cons]
    cases e with
    | visit d => exact (le_max_left h d).trans (ih _)
    | fill v i d => exact ih h

theorem foldl_reach_le {es : List BtreeEvent} {h top : Nat} (start : h ≤ top)
    (below : ∀ e ∈ es, e.height ≤ top) : es.foldl reach h ≤ top := by
  induction es generalizing h with
  | nil => exact start
  | cons e es ih =>
    rw [List.foldl_cons]
    refine ih ?_ fun e' mem => below e' (List.mem_cons_of_mem e mem)
    cases e with
    | visit d => exact max_le start (below _ List.mem_cons_self)
    | fill v i d => exact start

theorem le_foldl_reach_of_mem {es : List BtreeEvent} {d : Nat} (mem : visit d ∈ es) (h : Nat) :
    d ≤ es.foldl reach h := by
  induction es generalizing h with
  | nil => exact absurd mem List.not_mem_nil
  | cons e es ih =>
    rw [List.foldl_cons]
    rcases List.mem_cons.mp mem with rfl | mem
    · exact (le_max_right h d).trans (le_foldl_reach es _)
    · exact ih mem _

theorem Ordered.mono {es : List BtreeEvent} {h h' : Nat} (ordered : Ordered h es) (le : h ≤ h') : Ordered h' es := by
  induction es generalizing h h' with
  | nil => trivial
  | cons e es ih =>
    cases e with
    | visit d => exact ih ordered (max_le_max le le_rfl)
    | fill v i d => exact ⟨ordered.1.trans le, ih ordered.2 le⟩

theorem ordered_append {xs ys : List BtreeEvent} {h : Nat} :
    Ordered h (xs ++ ys) ↔ Ordered h xs ∧ Ordered (xs.foldl reach h) ys := by
  induction xs generalizing h with
  | nil => simp [Ordered]
  | cons e xs ih =>
    cases e with
    | visit d => exact ih
    | fill v i d =>
      simp only [List.cons_append, Ordered, List.foldl_cons, reach]
      rw [ih, and_assoc]

end BtreeEvent

def btreeTrace (B nblocks : Nat) : Nat → Nat → Nat → List BtreeEvent
  | 0, _, _ => []
  | fuel + 1, v, h =>
    if nblocks ≤ v then []
    else
      .visit h :: ((List.range B).flatMap (fun i => btreeTrace B nblocks fuel (btreeNext B v i) (h + 1) ++ [.fill v i h]) ++
        btreeTrace B nblocks fuel (btreeNext B v B) (h + 1))

def btreeSlots (B nblocks fuel v h : Nat) : List (Nat × Nat × Nat) :=
  (btreeTrace B nblocks fuel v h).filterMap BtreeEvent.slot?

variable {w : Nat}

def btreeStep (data : List (BitVec w)) (acc : Btree w × Nat) : BtreeEvent → Btree w × Nat
  | .visit h => (if acc.1.h < h then { acc.1 with h := h, maxHCnt := 0 } else acc.1, acc.2)
  | .fill v i h =>
    if acc.2 < data.length then
      ({ acc.1 with
          blocks := Function.update acc.1.blocks v
            (Function.update (acc.1.blocks v) i (data.getD acc.2 0 ^^^ btreeSignBit w))
          maxHCnt := if acc.1.h = h then acc.1.maxHCnt + 1 else acc.1.maxHCnt },
        acc.2 + 1)
    else acc

section Step

variable (data : List (BitVec w))

@[simp] theorem btreeStep_nblocks (acc : Btree w × Nat) (e : BtreeEvent) : (btreeStep data acc e).1.nblocks = acc.1.nblocks := by
  cases e with
  | visit h => by_cases raise : acc.1.h < h <;> simp [btreeStep, raise]
  | fill v i h => by_cases room : acc.2 < data.length <;> simp [btreeStep, room]

@[simp] theorem btreeStep_n (acc : Btree w × Nat) (e : BtreeEvent) : (btreeStep data acc e).1.n = acc.1.n := by
  cases e with
  | visit h => by_cases raise : acc.1.h < h <;> simp [btreeStep, raise]
  | fill v i h => by_cases room : acc.2 < data.length <;> simp [btreeStep, room]

@[simp] theorem btreeStep_h (acc : Btree w × Nat) (e : BtreeEvent) : (btreeStep data acc e).1.h = e.reach acc.1.h := by
  cases e with
  | visit h => by_cases raise : acc.1.h < h <;> simp [btreeStep, BtreeEvent.reach, raise] <;> omega
  | fill v i h => by_cases room : acc.2 < data.length <;> simp [btreeStep, BtreeEvent.reach, room]

-- What one event does: a visit deeper than the height reached resets the deepest-level count,
-- any other visit changes nothing; a fill places the next value while one is left, else nothing.
theorem btreeStep_visit_of_le {acc : Btree w × Nat} {d : Nat} (low : ¬acc.1.h < d) :
    btreeStep data acc (.visit d) = acc := by
  simp [btreeStep, low]

theorem btreeStep_visit_blocks (acc : Btree w × Nat) (d : Nat) :
    (btreeStep data acc (.visit d)).1.blocks = acc.1.blocks := by
  by_cases raise : acc.1.h < d <;> simp [btreeStep, raise]

theorem btreeStep_visit_maxHCnt {acc : Btree w × Nat} {d : Nat} (raise : acc.1.h < d) :
    (btreeStep data acc (.visit d)).1.maxHCnt = 0 := by
  simp [btreeStep, raise]

theorem btreeStep_fill_of_full {acc : Btree w × Nat} (full : ¬acc.2 < data.length) (v i d : Nat) :
    btreeStep data acc (.fill v i d) = acc := by
  simp [btreeStep, full]

theorem btreeStep_fill_idx {acc : Btree w × Nat} (room : acc.2 < data.length) (v i d : Nat) :
    (btreeStep data acc (.fill v i d)).2 = acc.2 + 1 := by
  simp [btreeStep, room]

theorem btreeStep_fill_maxHCnt {acc : Btree w × Nat} (room : acc.2 < data.length) (v i d : Nat) :
    (btreeStep data acc (.fill v i d)).1.maxHCnt = if acc.1.h = d then acc.1.maxHCnt + 1 else acc.1.maxHCnt := by
  simp [btreeStep, room]

theorem btreeStep_fill_blocks {acc : Btree w × Nat} (room : acc.2 < data.length) (v i d v' i' : Nat) :
    (btreeStep data acc (.fill v i d)).1.blocks v' i' =
      if v' = v ∧ i' = i then data.getD acc.2 0 ^^^ btreeSignBit w else acc.1.blocks v' i' := by
  simp only [btreeStep, if_pos room, Function.update_apply]
  by_cases same : v' = v
  · subst same
    simp [Function.update_apply]
  · simp [same]

theorem foldl_btreeStep_nblocks (es : List BtreeEvent) (acc : Btree w × Nat) :
    (es.foldl (btreeStep data) acc).1.nblocks = acc.1.nblocks := by
  induction es generalizing acc with
  | nil => rfl
  | cons e es ih => rw [List.foldl_cons, ih, btreeStep_nblocks]

theorem foldl_btreeStep_n (es : List BtreeEvent) (acc : Btree w × Nat) :
    (es.foldl (btreeStep data) acc).1.n = acc.1.n := by
  induction es generalizing acc with
  | nil => rfl
  | cons e es ih => rw [List.foldl_cons, ih, btreeStep_n]

theorem foldl_btreeStep_h (es : List BtreeEvent) (acc : Btree w × Nat) :
    (es.foldl (btreeStep data) acc).1.h = es.foldl BtreeEvent.reach acc.1.h := by
  induction es generalizing acc with
  | nil => rfl
  | cons e es ih => rw [List.foldl_cons, ih, btreeStep_h, List.foldl_cons]

-- A slot the placing fills do not name keeps its value.
theorem foldl_btreeStep_blocks_of_not_mem (es : List BtreeEvent) (acc : Btree w × Nat) {v i : Nat}
    (fresh : (v, i) ∉ ((es.filterMap BtreeEvent.slot?).take (data.length - acc.2)).map fun s => (s.1, s.2.1)) :
    (es.foldl (btreeStep data) acc).1.blocks v i = acc.1.blocks v i := by
  induction es generalizing acc with
  | nil => rfl
  | cons e es ih =>
    rw [List.foldl_cons]
    cases e with
    | visit d =>
      rw [BtreeEvent.filterMap_slot?_visit] at fresh
      rw [ih (btreeStep data acc (.visit d)) fresh, btreeStep_visit_blocks]
    | fill v' i' d =>
      rw [BtreeEvent.filterMap_slot?_fill] at fresh
      by_cases room : acc.2 < data.length
      · have step := btreeStep_fill_idx data room v' i' d
        obtain ⟨k, left⟩ : ∃ k, data.length - acc.2 = k + 1 := ⟨data.length - acc.2 - 1, by omega⟩
        rw [left, List.take_succ_cons, List.map_cons, List.mem_cons, not_or] at fresh
        rw [ih (btreeStep data acc (.fill v' i' d)) (by rw [step, show data.length - (acc.2 + 1) = k by omega]; exact fresh.2),
          btreeStep_fill_blocks data room,
          if_neg fun same => fresh.1 (by rw [same.1, same.2])]
      · rw [btreeStep_fill_of_full data room, ih _ (by rwa [show data.length - acc.2 = 0 by omega] at fresh ⊢)]

-- With the slots named once each, the `k`-th fill holds the `k`-th value placed.
theorem foldl_btreeStep_blocks_of_fill (es : List BtreeEvent) (acc : Btree w × Nat)
    (distinct : ((es.filterMap BtreeEvent.slot?).map fun s => (s.1, s.2.1)).Nodup) {k : Nat}
    (slot : k < (es.filterMap BtreeEvent.slot?).length) (room : acc.2 + k < data.length) :
    (es.foldl (btreeStep data) acc).1.blocks (es.filterMap BtreeEvent.slot?)[k].1 (es.filterMap BtreeEvent.slot?)[k].2.1 =
      data.getD (acc.2 + k) 0 ^^^ btreeSignBit w := by
  induction es generalizing acc k with
  | nil => exact absurd slot (Nat.not_lt_zero k)
  | cons e es ih =>
    rw [List.foldl_cons]
    cases e with
    | visit d => exact ih _ distinct slot room
    | fill v i d =>
      simp only [BtreeEvent.filterMap_slot?_fill, List.map_cons, List.nodup_cons, List.length_cons] at distinct slot ⊢
      have step := btreeStep_fill_idx data (show acc.2 < data.length by omega) v i d
      cases k with
      | zero =>
        -- the later fills name other slots
        have later : (v, i) ∉ ((es.filterMap BtreeEvent.slot?).take
            (data.length - (btreeStep data acc (.fill v i d)).2)).map fun s => (s.1, s.2.1) :=
          fun mem => distinct.1 (List.map_subset _ (List.take_subset _ _) mem)
        rw [List.getElem_cons_zero, foldl_btreeStep_blocks_of_not_mem data es _ later,
          btreeStep_fill_blocks data (by omega), if_pos ⟨rfl, rfl⟩, Nat.add_zero]
      | succ k =>
        rw [List.getElem_cons_succ, ih _ distinct.2 (Nat.lt_of_succ_lt_succ slot) (by omega), step, Nat.add_assoc,
          Nat.add_comm 1 k]

-- The count of values on the deepest level: those placed by fills at the final height, plus the
-- old count when no visit went deeper.
theorem foldl_btreeStep_maxHCnt (es : List BtreeEvent) (acc : Btree w × Nat) (ordered : BtreeEvent.Ordered acc.1.h es) :
    (es.foldl (btreeStep data) acc).1.maxHCnt =
      (if es.foldl BtreeEvent.reach acc.1.h = acc.1.h then acc.1.maxHCnt else 0) +
        ((es.filterMap BtreeEvent.slot?).take (data.length - acc.2)).countP
          fun s => s.2.2 = es.foldl BtreeEvent.reach acc.1.h := by
  induction es generalizing acc with
  | nil => simp
  | cons e es ih =>
    rw [List.foldl_cons, List.foldl_cons]
    cases e with
    | visit d =>
      have height : (btreeStep data acc (.visit d)).1.h = BtreeEvent.reach acc.1.h (.visit d) := btreeStep_h data acc _
      have deeper := BtreeEvent.le_foldl_reach es (BtreeEvent.reach acc.1.h (.visit d))
      have placed : (btreeStep data acc (.visit d)).2 = acc.2 := rfl
      rw [ih _ (height ▸ ordered), height, BtreeEvent.filterMap_slot?_visit, placed]
      generalize es.foldl BtreeEvent.reach (BtreeEvent.reach acc.1.h (.visit d)) = top at deeper ⊢
      by_cases raise : acc.1.h < d
      · have fresh := btreeStep_visit_maxHCnt data raise
        have above : top ≠ acc.1.h := by
          simp only [BtreeEvent.reach] at deeper
          omega
        rw [fresh, ite_self, if_neg above]
      · have same := btreeStep_visit_of_le data raise
        have level : BtreeEvent.reach acc.1.h (.visit d) = acc.1.h := by
          simp only [BtreeEvent.reach]
          omega
        rw [same, level]
    | fill v i d =>
      obtain ⟨below, ordered⟩ := ordered
      have height : (btreeStep data acc (.fill v i d)).1.h = acc.1.h := btreeStep_h data acc _
      have level : BtreeEvent.reach acc.1.h (.fill v i d) = acc.1.h := rfl
      rw [ih _ (height ▸ ordered), height, BtreeEvent.filterMap_slot?_fill, level]
      have deeper := BtreeEvent.le_foldl_reach es acc.1.h
      generalize es.foldl BtreeEvent.reach acc.1.h = top at deeper ⊢
      by_cases room : acc.2 < data.length
      · obtain ⟨k, left⟩ : ∃ k, data.length - acc.2 = k + 1 := ⟨data.length - acc.2 - 1, by omega⟩
        rw [btreeStep_fill_idx data room, left, show data.length - (acc.2 + 1) = k by omega, List.take_succ_cons, List.countP_cons,
          btreeStep_fill_maxHCnt data room]
        by_cases same : top = acc.1.h
        · by_cases at_top : acc.1.h = d <;> simp [same, at_top] <;> omega
        · have lower : d ≠ top := by omega
          simp [same, lower]
      · rw [btreeStep_fill_of_full data room, show data.length - acc.2 = 0 by omega, List.take_zero, List.take_zero]

end Step

-- The build performs the events of its trace, one `btreeStep` each.
theorem btreeBuild_eq_foldl (B : Nat) (data : List (BitVec w)) (fuel : Nat) (btree : Btree w) (v idx h : Nat) :
    btreeBuild B data fuel btree v idx h = (btreeTrace B btree.nblocks fuel v h).foldl (btreeStep data) (btree, idx) := by
  induction fuel generalizing btree v idx h with
  | zero => rfl
  | succ fuel ih =>
    by_cases absent : btree.nblocks ≤ v
    · rw [btreeBuild, btreeTrace, if_pos absent, if_pos absent]
      rfl
    · rw [btreeBuild, btreeTrace, if_neg absent, if_neg absent, List.foldl_cons, List.foldl_append, List.foldl_flatMap]
      dsimp only
      have visited : (if btree.h < h then { btree with h := h, maxHCnt := 0 } else btree, idx) =
          btreeStep data (btree, idx) (.visit h) := rfl
      -- the slots of the block: on every state the loop reaches, the recursive call is the
      -- child's trace, since the number of blocks never changes
      rw [visited, ih, Prod.mk.eta, Scan.foldl_congr_of_inv (fun acc : Btree w × Nat => acc.1.nblocks = btree.nblocks)
        (List.range B) (btreeStep_nblocks data _ _) ?keep ?agree
        (g := fun acc i => (btreeTrace B btree.nblocks fuel (btreeNext B v i) (h + 1) ++ [BtreeEvent.fill v i h]).foldl (btreeStep data) acc),
        ← List.foldl_flatMap, foldl_btreeStep_nblocks, btreeStep_nblocks]
      case keep =>
        intro acc i same
        rw [ih]
        split
        · exact (foldl_btreeStep_nblocks data _ _).trans same
        · exact (foldl_btreeStep_nblocks data _ _).trans same
      case agree =>
        intro acc i same
        rw [ih, same, List.foldl_append, List.foldl_cons, List.foldl_nil]
        rfl

end Yanet
