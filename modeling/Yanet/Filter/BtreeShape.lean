import Mathlib
import Yanet.Filter.BtreeBuild

set_option autoImplicit false

-- The shape of the tree that `btree_*_build` fills. Block `v` has children `v * (B + 1) + i + 1`,
-- so level `d` holds the blocks `S d + g` for `g < (B + 1)^d`, where `S d` counts the blocks above,
-- and `g` spells in base `B + 1` the slot indices taken from the root. The allocated blocks fill
-- every level above `height` and the first `last` blocks of level `height`. The trace of a block
-- then has closed-form counts: its levels above `height` are complete, and on level `height` it
-- holds the allocated blocks below it.

namespace Yanet

def btreeLevelStart (B : Nat) : Nat → Nat
  | 0 => 0
  | d + 1 => btreeLevelStart B d * (B + 1) + 1

section Levels

variable (B : Nat)

theorem levelStart_mul_add_one (d : Nat) : btreeLevelStart B d * B + 1 = (B + 1) ^ d := by
  induction d with
  | zero => simp [btreeLevelStart]
  | succ d ih =>
    rw [btreeLevelStart, pow_succ, ← ih]
    ring

theorem levelStart_succ (d : Nat) : btreeLevelStart B (d + 1) = btreeLevelStart B d + (B + 1) ^ d := by
  rw [← levelStart_mul_add_one, btreeLevelStart]
  ring

theorem btreeNext_levelStart (d g i : Nat) :
    btreeNext B (btreeLevelStart B d + g) i = btreeLevelStart B (d + 1) + (g * (B + 1) + i) := by
  rw [btreeNext, btreeLevelStart]
  ring

theorem levelStart_mono {a b : Nat} (le : a ≤ b) : btreeLevelStart B a ≤ btreeLevelStart B b := by
  induction le with
  | refl => exact le_rfl
  | step _ ih =>
    rw [levelStart_succ]
    omega

theorem le_levelStart (d : Nat) : d ≤ btreeLevelStart B d := by
  induction d with
  | zero => exact le_rfl
  | succ d ih =>
    have := Nat.one_le_pow d (B + 1) (Nat.succ_pos B)
    rw [levelStart_succ]
    omega

theorem levelStart_add_lt_of_lt {a b x y : Nat} (digit : x < (B + 1) ^ a) (lt : a < b) :
    btreeLevelStart B a + x < btreeLevelStart B b + y := by
  have := levelStart_mono B (Nat.succ_le_of_lt lt)
  rw [levelStart_succ] at this
  omega

-- A block sits on one level, at one place.
theorem level_unique {a b x y : Nat} (hx : x < (B + 1) ^ a) (hy : y < (B + 1) ^ b)
    (same : btreeLevelStart B a + x = btreeLevelStart B b + y) : a = b ∧ x = y := by
  rcases Nat.lt_trichotomy a b with lt | rfl | gt
  · exact absurd same (levelStart_add_lt_of_lt B hx lt).ne
  · exact ⟨rfl, by omega⟩
  · exact absurd same (levelStart_add_lt_of_lt B hy gt).ne'

theorem child_digit_lt {d g i : Nat} (digit : g < (B + 1) ^ d) (slot : i ≤ B) : g * (B + 1) + i < (B + 1) ^ (d + 1) := by
  rw [pow_succ]
  nlinarith

end Levels

structure BtreeShape (B nblocks : Nat) where
  height : Nat
  last : Nat
  last_pos : 0 < last
  last_le : last ≤ (B + 1) ^ height
  nblocks_eq : nblocks = btreeLevelStart B height + last

-- Every positive number of blocks has its shape.
def BtreeShape.ofSucc (B : Nat) : (n : Nat) → BtreeShape B (n + 1)
  | 0 => ⟨0, 1, Nat.one_pos, by simp, by simp [btreeLevelStart]⟩
  | n + 1 =>
    let s := ofSucc B n
    if room : s.last < (B + 1) ^ s.height then
      ⟨s.height, s.last + 1, Nat.succ_pos _, room, by have := s.nblocks_eq; omega⟩
    else
      ⟨s.height + 1, 1, Nat.one_pos, Nat.one_le_pow _ _ (Nat.succ_pos B),
        by have := s.nblocks_eq; have := s.last_le; rw [levelStart_succ]; omega⟩

namespace BtreeShape

theorem nonempty {B N : Nat} (pos : 0 < N) : Nonempty (BtreeShape B N) := by
  obtain ⟨n, rfl⟩ : ∃ n, N = n + 1 := ⟨N - 1, by omega⟩
  exact ⟨ofSucc B n⟩

variable {B N : Nat} (s : BtreeShape B N)

theorem present_iff {d g : Nat} (digit : g < (B + 1) ^ d) :
    btreeLevelStart B d + g < N ↔ d < s.height ∨ d = s.height ∧ g < s.last := by
  have := s.nblocks_eq
  rcases Nat.lt_trichotomy d s.height with lt | rfl | gt
  · have := levelStart_add_lt_of_lt B digit lt (y := 0)
    omega
  · omega
  · have below := levelStart_mono B (Nat.succ_le_of_lt gt)
    have := s.last_le
    rw [levelStart_succ] at below
    omega

theorem present_of_lt {d g : Nat} (digit : g < (B + 1) ^ d) (upper : d < s.height) : btreeLevelStart B d + g < N :=
  (s.present_iff digit).mpr (.inl upper)

theorem absent_of_gt {d g : Nat} (digit : g < (B + 1) ^ d) (lower : s.height < d) : N ≤ btreeLevelStart B d + g := by
  have := mt (s.present_iff digit).mp
  omega

theorem height_le_nblocks : s.height < N := by
  have := le_levelStart B s.height
  have := s.last_pos
  have := s.nblocks_eq
  omega

-- The allocated blocks of level `height` below position `g` of level `d`.
def leavesBefore (d g : Nat) : Nat := min s.last (g * (B + 1) ^ (s.height - d))

end BtreeShape

-- The slots of block `v` up to its slot `m`: the subtrees of the children left of each slot,
-- each followed by the slot.
def btreePrefix (B N fuel v h m : Nat) : List (Nat × Nat × Nat) :=
  (List.range m).flatMap fun i => btreeSlots B N fuel (btreeNext B v i) (h + 1) ++ [(v, i, h)]

section Slots

variable {B N : Nat}

theorem btreePrefix_zero (fuel v h : Nat) : btreePrefix B N fuel v h 0 = [] := rfl

theorem btreePrefix_succ (fuel v h m : Nat) :
    btreePrefix B N fuel v h (m + 1) = btreePrefix B N fuel v h m ++ (btreeSlots B N fuel (btreeNext B v m) (h + 1) ++ [(v, m, h)]) := by
  rw [btreePrefix, btreePrefix, List.range_succ, List.flatMap_append, List.flatMap_singleton]

theorem btreeSlots_zero (v h : Nat) : btreeSlots B N 0 v h = [] := rfl

theorem btreeSlots_of_le {v : Nat} (absent : N ≤ v) (fuel h : Nat) : btreeSlots B N fuel v h = [] := by
  cases fuel with
  | zero => rfl
  | succ fuel => simp [btreeSlots, btreeTrace, absent]

theorem btreeSlots_succ {v : Nat} (present : v < N) (fuel h : Nat) :
    btreeSlots B N (fuel + 1) v h = btreePrefix B N fuel v h B ++ btreeSlots B N fuel (btreeNext B v B) (h + 1) := by
  simp [btreeSlots, btreePrefix, btreeTrace, Nat.not_le.mpr present, List.filterMap_flatMap, BtreeEvent.slot?]

-- The slots of a block, split at the child taken at slot `m`.
theorem btreeSlots_split {v : Nat} (present : v < N) (fuel h : Nat) {m : Nat} (slot : m < B) :
    btreeSlots B N (fuel + 1) v h =
      btreePrefix B N fuel v h m ++ btreeSlots B N fuel (btreeNext B v m) (h + 1) ++ (v, m, h) ::
        ((List.range' (m + 1) (B - (m + 1))).flatMap (fun i => btreeSlots B N fuel (btreeNext B v i) (h + 1) ++ [(v, i, h)]) ++
          btreeSlots B N fuel (btreeNext B v B) (h + 1)) := by
  have cut : List.range B = List.range m ++ m :: List.range' (m + 1) (B - (m + 1)) := by
    obtain ⟨t, rfl⟩ : ∃ t, B = m + (t + 1) := ⟨B - (m + 1), by omega⟩
    rw [show m + (t + 1) - (m + 1) = t by omega, List.range_eq_range', List.range_eq_range', ← List.range'_append_1,
      List.range'_succ, Nat.zero_add]
  rw [btreeSlots_succ present, btreePrefix, cut, List.flatMap_append, List.flatMap_cons, btreePrefix]
  simp only [List.append_assoc, List.cons_append, List.nil_append]

theorem div_pow_succ_of_child {g g' i e : Nat} (slot : i ≤ B) (below : g' / (B + 1) ^ e = g * (B + 1) + i) :
    g' / (B + 1) ^ (e + 1) = g := by
  rw [pow_succ, ← Nat.div_div_eq_div_mul, below, Nat.mul_comm, Nat.mul_add_div (Nat.succ_pos B),
    Nat.div_eq_of_lt (Nat.lt_succ_of_le slot), Nat.add_zero]

-- Every event of a block's trace comes from an allocated block of its subtree, `e` levels down.
theorem mem_btreeTrace {fuel d g : Nat} (digit : g < (B + 1) ^ d) {ev : BtreeEvent}
    (mem : ev ∈ btreeTrace B N fuel (btreeLevelStart B d + g) d) :
    ∃ e g', g' < (B + 1) ^ (d + e) ∧ g' / (B + 1) ^ e = g ∧ btreeLevelStart B (d + e) + g' < N ∧
      ev.height = d + e ∧ ∀ v i h, ev = .fill v i h → v = btreeLevelStart B (d + e) + g' ∧ i < B := by
  induction fuel generalizing d g with
  | zero => exact absurd mem List.not_mem_nil
  | succ fuel ih =>
    rw [btreeTrace] at mem
    split at mem
    · exact absurd mem List.not_mem_nil
    · rename_i present
      have own : ∀ {ev : BtreeEvent}, ev.height = d → (∀ v i h, ev = .fill v i h → v = btreeLevelStart B d + g ∧ i < B) →
          ∃ e g', g' < (B + 1) ^ (d + e) ∧ g' / (B + 1) ^ e = g ∧ btreeLevelStart B (d + e) + g' < N ∧
            ev.height = d + e ∧ ∀ v i h, ev = .fill v i h → v = btreeLevelStart B (d + e) + g' ∧ i < B :=
        fun height slot => ⟨0, g, digit, by simp, Nat.lt_of_not_le present, height, slot⟩
      -- an event of child `i` is one level further down
      have child : ∀ i ≤ B, ev ∈ btreeTrace B N fuel (btreeNext B (btreeLevelStart B d + g) i) (d + 1) →
          ∃ e g', g' < (B + 1) ^ (d + e) ∧ g' / (B + 1) ^ e = g ∧ btreeLevelStart B (d + e) + g' < N ∧
            ev.height = d + e ∧ ∀ v i h, ev = .fill v i h → v = btreeLevelStart B (d + e) + g' ∧ i < B := by
        intro i slot mem
        rw [btreeNext_levelStart] at mem
        obtain ⟨e, g', digit', below, present', height, fill⟩ := ih (child_digit_lt B digit slot) mem
        refine ⟨e + 1, g', ?_, div_pow_succ_of_child slot below, ?_, ?_, ?_⟩
        · rwa [show d + (e + 1) = d + 1 + e by omega]
        · rwa [show d + (e + 1) = d + 1 + e by omega]
        · rw [height]
          omega
        · rw [show d + (e + 1) = d + 1 + e by omega]
          exact fill
      simp only [List.mem_cons, List.mem_append, List.mem_flatMap, List.mem_range, List.not_mem_nil, or_false] at mem
      rcases mem with rfl | ⟨i, slot, mem | rfl⟩ | mem
      · exact own rfl fun _ _ _ no => BtreeEvent.noConfusion no
      · exact child i slot.le mem
      · exact own rfl fun _ _ _ same => by cases same; exact ⟨rfl, slot⟩
      · exact child B le_rfl mem

theorem mem_btreeSlots {fuel d g : Nat} (digit : g < (B + 1) ^ d) {x : Nat × Nat × Nat}
    (mem : x ∈ btreeSlots B N fuel (btreeLevelStart B d + g) d) :
    ∃ e g', g' < (B + 1) ^ (d + e) ∧ g' / (B + 1) ^ e = g ∧ btreeLevelStart B (d + e) + g' < N ∧
      x.1 = btreeLevelStart B (d + e) + g' ∧ x.2.1 < B ∧ x.2.2 = d + e := by
  unfold btreeSlots at mem
  obtain ⟨ev, inTrace, found⟩ := List.mem_filterMap.mp mem
  cases ev with
  | visit h => exact absurd found (by simp [BtreeEvent.slot?])
  | fill v i h =>
    obtain rfl : (v, i, h) = x := Option.some.inj found
    obtain ⟨e, g', digit', below, present, height, fill⟩ := mem_btreeTrace digit inTrace
    exact ⟨e, g', digit', below, present, (fill v i h rfl).1, (fill v i h rfl).2, height⟩

-- The block of a slot of child `j` lies below that child.
theorem key_of_mem_child {fuel d g j : Nat} (digit : g < (B + 1) ^ d) (slot : j ≤ B) {x : Nat × Nat × Nat}
    (mem : x ∈ btreeSlots B N fuel (btreeNext B (btreeLevelStart B d + g) j) (d + 1)) :
    ∃ e g', g' < (B + 1) ^ (d + 1 + e) ∧ g' / (B + 1) ^ e = g * (B + 1) + j ∧ x.1 = btreeLevelStart B (d + 1 + e) + g' := by
  rw [btreeNext_levelStart] at mem
  obtain ⟨e, g', digit', below, -, key, -⟩ := mem_btreeSlots (child_digit_lt B digit slot) mem
  exact ⟨e, g', digit', below, key⟩

theorem key_ne_of_mem_child {fuel d g j : Nat} (digit : g < (B + 1) ^ d) (slot : j ≤ B) {x : Nat × Nat × Nat}
    (mem : x ∈ btreeSlots B N fuel (btreeNext B (btreeLevelStart B d + g) j) (d + 1)) :
    x.1 ≠ btreeLevelStart B d + g := by
  obtain ⟨e, g', digit', -, key⟩ := key_of_mem_child digit slot mem
  rw [key]
  intro same
  have := (level_unique B digit' digit same).1
  omega

theorem child_eq_of_key_eq {fuel d g i j : Nat} (digit : g < (B + 1) ^ d) (slot : i ≤ B) (slot' : j ≤ B)
    {x y : Nat × Nat × Nat} (mem : x ∈ btreeSlots B N fuel (btreeNext B (btreeLevelStart B d + g) i) (d + 1))
    (mem' : y ∈ btreeSlots B N fuel (btreeNext B (btreeLevelStart B d + g) j) (d + 1)) (same : x.1 = y.1) : i = j := by
  obtain ⟨e, g', digit', below, key⟩ := key_of_mem_child digit slot mem
  obtain ⟨e', g'', digit'', below', key'⟩ := key_of_mem_child digit slot' mem'
  rw [key, key'] at same
  obtain ⟨level, rfl⟩ := level_unique B digit' digit'' same
  obtain rfl : e = e' := by omega
  rw [below] at below'
  omega

-- Every trace fills a slot only after entering its block.
theorem ordered_btreeTrace (fuel v d h : Nat) : BtreeEvent.Ordered h (btreeTrace B N fuel v d) := by
  induction fuel generalizing v d h with
  | zero => trivial
  | succ fuel ih =>
    rw [btreeTrace]
    split
    · trivial
    · -- the children's traces and the fills of the block all come at height `d` or more
      have slots : ∀ (l : List Nat) (h' : Nat), d ≤ h' → BtreeEvent.Ordered h'
          (l.flatMap fun i => btreeTrace B N fuel (btreeNext B v i) (d + 1) ++ [.fill v i d]) := by
        intro l
        induction l with
        | nil => exact fun _ _ => trivial
        | cons i l ihl =>
          intro h' above
          rw [List.flatMap_cons, BtreeEvent.ordered_append, BtreeEvent.ordered_append]
          have deeper := BtreeEvent.le_foldl_reach (btreeTrace B N fuel (btreeNext B v i) (d + 1)) h'
          refine ⟨⟨ih _ _ _, above.trans deeper, trivial⟩, ihl _ ?_⟩
          rw [List.foldl_append]
          exact above.trans (deeper.trans (BtreeEvent.le_foldl_reach _ _))
      exact BtreeEvent.ordered_append.mpr ⟨slots _ _ (le_max_right h d), ih _ _ _⟩

-- Each slot of a subtree is filled once.
theorem nodup_btreeSlots_keys {fuel d g : Nat} (digit : g < (B + 1) ^ d) :
    ((btreeSlots B N fuel (btreeLevelStart B d + g) d).map fun x => (x.1, x.2.1)).Nodup := by
  induction fuel generalizing d g with
  | zero => simp [btreeSlots_zero]
  | succ fuel ih =>
    by_cases present : btreeLevelStart B d + g < N
    · have below : ∀ j ≤ B, ((btreeSlots B N fuel (btreeNext B (btreeLevelStart B d + g) j) (d + 1)).map
          fun x => (x.1, x.2.1)).Nodup := fun j slot => by
        rw [btreeNext_levelStart]
        exact ih (child_digit_lt B digit slot)
      -- a slot of the block is not below a child, and two children share no block
      have own : ∀ {j i : Nat}, j ≤ B → ∀ x ∈ btreeSlots B N fuel (btreeNext B (btreeLevelStart B d + g) j) (d + 1),
          (x.1, x.2.1) ≠ (btreeLevelStart B d + g, i) :=
        fun slot x mem same => key_ne_of_mem_child digit slot mem (Prod.mk.inj same).1
      have apart : ∀ {i j : Nat}, i ≤ B → j ≤ B → i ≠ j →
          ∀ x ∈ btreeSlots B N fuel (btreeNext B (btreeLevelStart B d + g) i) (d + 1),
          ∀ y ∈ btreeSlots B N fuel (btreeNext B (btreeLevelStart B d + g) j) (d + 1), (x.1, x.2.1) ≠ (y.1, y.2.1) :=
        fun slot slot' ne x mem y mem' same => ne (child_eq_of_key_eq digit slot slot' mem mem' (Prod.mk.inj same).1)
      rw [btreeSlots_succ present, btreePrefix, List.map_append, List.map_flatMap]
      refine List.nodup_append.mpr ⟨List.nodup_flatMap.mpr ⟨?_, ?_⟩, below B le_rfl, ?_⟩
      · intro i mem
        rw [List.map_append, List.map_singleton]
        refine List.nodup_append.mpr ⟨below i (List.mem_range.mp mem).le, List.nodup_singleton _, ?_⟩
        simp only [List.mem_map, List.mem_singleton]
        rintro _ ⟨x, mem', rfl⟩ _ rfl
        exact own (List.mem_range.mp mem).le x mem'
      · refine List.pairwise_lt_range.imp_of_mem fun {i j} mem mem' lt => ?_
        have slot := (List.mem_range.mp mem).le
        have slot' := (List.mem_range.mp mem').le
        intro a inI inJ
        simp only [List.map_append, List.map_singleton, List.mem_append, List.mem_map, List.mem_singleton] at inI inJ
        rcases inI with ⟨x, mem, rfl⟩ | rfl <;> rcases inJ with ⟨y, mem', same⟩ | same
        · exact apart slot slot' lt.ne x mem y mem' same.symm
        · exact own slot x mem same
        · exact own slot' y mem' same
        · exact lt.ne (Prod.mk.inj same).2
      · intro a inPrefix b inLast same
        subst same
        simp only [List.mem_flatMap, List.mem_range, List.map_append, List.map_singleton, List.mem_append, List.mem_map,
          List.mem_singleton] at inPrefix inLast
        obtain ⟨y, mem', same⟩ := inLast
        rcases inPrefix with ⟨i, slot, ⟨x, mem, rfl⟩ | rfl⟩
        · exact apart slot.le le_rfl slot.ne x mem y mem' same.symm
        · exact own le_rfl y mem' same
    · rw [btreeSlots_of_le (Nat.le_of_not_lt present)]
      exact List.nodup_nil

-- Below level `height` there are no blocks, so a block of that level has only its own slots.
theorem btreePrefix_of_leaves {fuel v h : Nat} (leaves : ∀ i ≤ B, N ≤ btreeNext B v i) (m : Nat) (slot : m ≤ B) :
    btreePrefix B N fuel v h m = (List.range m).map fun i => (v, i, h) := by
  induction m with
  | zero => rfl
  | succ m ih =>
    rw [btreePrefix_succ, ih (by omega), btreeSlots_of_le (leaves m (by omega)), List.range_succ, List.map_append]
    rfl

end Slots

namespace BtreeShape

variable {B N : Nat} (s : BtreeShape B N)

theorem leavesBefore_mono {d g g' : Nat} (le : g ≤ g') : s.leavesBefore d g ≤ s.leavesBefore d g' :=
  min_le_min le_rfl (Nat.mul_le_mul_right _ le)

theorem leavesBefore_child {d : Nat} (inner : d < s.height) (g : Nat) :
    s.leavesBefore (d + 1) (g * (B + 1)) = s.leavesBefore d g := by
  rw [leavesBefore, leavesBefore, Nat.mul_assoc, ← pow_succ', show s.height - (d + 1) + 1 = s.height - d by omega]

theorem leaves_absent {g i : Nat} (digit : g < (B + 1) ^ s.height) (slot : i ≤ B) :
    N ≤ btreeNext B (btreeLevelStart B s.height + g) i := by
  rw [btreeNext_levelStart]
  exact s.absent_of_gt (child_digit_lt B digit slot) (Nat.lt_succ_self _)

theorem height_le_of_mem {fuel d g : Nat} (digit : g < (B + 1) ^ d) {x : Nat × Nat × Nat}
    (mem : x ∈ btreeSlots B N fuel (btreeLevelStart B d + g) d) : x.2.2 ≤ s.height := by
  obtain ⟨e, g', digit', -, present, -, -, height⟩ := mem_btreeSlots digit mem
  have := (s.present_iff digit').mp present
  omega

theorem countP_inner_prefix {fuel d g : Nat} (inner : d < s.height)
    (children : ∀ i ≤ B, (btreeSlots B N fuel (btreeNext B (btreeLevelStart B d + g) i) (d + 1)).countP
      (fun x => x.2.2 < s.height) = (B + 1) ^ (s.height - (d + 1)) - 1) {m : Nat} (slot : m ≤ B) :
    (btreePrefix B N fuel (btreeLevelStart B d + g) d m).countP (fun x => x.2.2 < s.height) =
      m * (B + 1) ^ (s.height - (d + 1)) := by
  induction m with
  | zero => simp [btreePrefix_zero]
  | succ m ih =>
    have := Nat.one_le_pow (s.height - (d + 1)) (B + 1) (Nat.succ_pos B)
    rw [btreePrefix_succ, List.countP_append, List.countP_append, ih (by omega), children m (by omega),
      List.countP_singleton, if_pos (by simpa using inner), Nat.succ_mul]
    omega

theorem countP_deepest_prefix {fuel d g : Nat} (inner : d < s.height)
    (children : ∀ i ≤ B, (btreeSlots B N fuel (btreeNext B (btreeLevelStart B d + g) i) (d + 1)).countP
      (fun x => x.2.2 = s.height) =
        B * (s.leavesBefore (d + 1) (g * (B + 1) + i + 1) - s.leavesBefore (d + 1) (g * (B + 1) + i)))
    {m : Nat} (slot : m ≤ B) :
    (btreePrefix B N fuel (btreeLevelStart B d + g) d m).countP (fun x => x.2.2 = s.height) =
      B * (s.leavesBefore (d + 1) (g * (B + 1) + m) - s.leavesBefore (d + 1) (g * (B + 1))) := by
  induction m with
  | zero => simp [btreePrefix_zero]
  | succ m ih =>
    have low := s.leavesBefore_mono (d := d + 1) (Nat.le_add_right (g * (B + 1)) m)
    have high := s.leavesBefore_mono (d := d + 1) (Nat.le_add_right (g * (B + 1) + m) 1)
    rw [btreePrefix_succ, List.countP_append, List.countP_append, ih (by omega), children m (by omega),
      List.countP_singleton, if_neg (by simpa using inner.ne), ← Nat.add_assoc (g * (B + 1)) m 1,
      ← Nat.sub_add_sub_cancel high low, Nat.mul_add B]
    omega

-- The slots of the subtree of block `g` of level `d`: complete levels down to `height`, and on
-- level `height` those of the allocated blocks below it.
theorem btreeSlots_counts {fuel d g : Nat} (depth : d ≤ s.height) (digit : g < (B + 1) ^ d)
    (enough : s.height + 1 ≤ fuel + d) :
    (btreeSlots B N fuel (btreeLevelStart B d + g) d).countP (fun x => x.2.2 < s.height) = (B + 1) ^ (s.height - d) - 1 ∧
      (btreeSlots B N fuel (btreeLevelStart B d + g) d).countP (fun x => x.2.2 = s.height) =
        B * (s.leavesBefore d (g + 1) - s.leavesBefore d g) := by
  induction fuel generalizing d g with
  | zero => omega
  | succ fuel ih =>
    rcases depth.lt_or_eq with inner | rfl
    · have children : ∀ i ≤ B,
          (btreeSlots B N fuel (btreeNext B (btreeLevelStart B d + g) i) (d + 1)).countP (fun x => x.2.2 < s.height) =
            (B + 1) ^ (s.height - (d + 1)) - 1 ∧
          (btreeSlots B N fuel (btreeNext B (btreeLevelStart B d + g) i) (d + 1)).countP (fun x => x.2.2 = s.height) =
            B * (s.leavesBefore (d + 1) (g * (B + 1) + i + 1) - s.leavesBefore (d + 1) (g * (B + 1) + i)) :=
        fun i slot => by
        rw [btreeNext_levelStart]
        exact ih (d := d + 1) (by omega) (child_digit_lt B digit slot) (by omega)
      have grow : (B + 1) ^ (s.height - d) = B * (B + 1) ^ (s.height - (d + 1)) + (B + 1) ^ (s.height - (d + 1)) := by
        rw [show s.height - d = s.height - (d + 1) + 1 by omega, pow_succ]
        ring
      have := Nat.one_le_pow (s.height - (d + 1)) (B + 1) (Nat.succ_pos B)
      have low := s.leavesBefore_mono (d := d + 1) (Nat.le_add_right (g * (B + 1)) B)
      have high := s.leavesBefore_mono (d := d + 1) (Nat.le_add_right (g * (B + 1) + B) 1)
      obtain ⟨childInner, childDeep⟩ := children B le_rfl
      rw [btreeSlots_succ (s.present_of_lt digit inner), List.countP_append, List.countP_append,
        s.countP_inner_prefix inner (fun i slot => (children i slot).1) le_rfl, childInner,
        s.countP_deepest_prefix inner (fun i slot => (children i slot).2) le_rfl, childDeep]
      constructor
      · omega
      · rw [← s.leavesBefore_child inner g, ← s.leavesBefore_child inner (g + 1),
          show (g + 1) * (B + 1) = g * (B + 1) + B + 1 by ring, ← Nat.sub_add_sub_cancel high low, Nat.mul_add B]
        omega
    · by_cases allocated : g < s.last
      · have present := (s.present_iff digit).mpr (.inr ⟨rfl, allocated⟩)
        rw [btreeSlots_succ present, btreeSlots_of_le (s.leaves_absent digit le_rfl), List.append_nil,
          btreePrefix_of_leaves (fun i slot => s.leaves_absent digit slot) B le_rfl, List.countP_map, List.countP_map]
        simp [leavesBefore, Function.comp_def, Nat.min_eq_right allocated.le,
          Nat.min_eq_right (Nat.succ_le_of_lt allocated)]
      · have absent : N ≤ btreeLevelStart B s.height + g := by
          have := mt (s.present_iff digit).mp
          omega
        rw [btreeSlots_of_le absent]
        simp [leavesBefore, Nat.min_eq_left (Nat.le_of_not_lt allocated),
          Nat.min_eq_left ((Nat.le_of_not_lt allocated).trans (Nat.le_succ g))]

-- Slots lie on level `height` or above it.
theorem length_eq_inner_add_deepest {l : List (Nat × Nat × Nat)} (below : ∀ x ∈ l, x.2.2 ≤ s.height) :
    l.length = l.countP (fun x => x.2.2 < s.height) + l.countP (fun x => x.2.2 = s.height) := by
  rw [List.length_eq_countP_add_countP (fun x => decide (x.2.2 < s.height))]
  congr 1
  apply List.countP_congr
  intro x mem
  have := below x mem
  simp only [decide_not, Bool.not_eq_true', decide_eq_false_iff_not, decide_eq_true_eq]
  omega

theorem length_btreeSlots {fuel d g : Nat} (depth : d ≤ s.height) (digit : g < (B + 1) ^ d)
    (enough : s.height + 1 ≤ fuel + d) :
    (btreeSlots B N fuel (btreeLevelStart B d + g) d).length =
      (B + 1) ^ (s.height - d) - 1 + B * (s.leavesBefore d (g + 1) - s.leavesBefore d g) := by
  obtain ⟨inner, deepest⟩ := s.btreeSlots_counts depth digit enough
  rw [← inner, ← deepest]
  exact s.length_eq_inner_add_deepest fun x mem => s.height_le_of_mem digit mem

-- The slots of a block of level `d < height` up to its slot `m`.
theorem btreePrefix_counts {fuel d g m : Nat} (inner : d < s.height) (digit : g < (B + 1) ^ d)
    (enough : s.height + 1 ≤ fuel + 1 + d) (slot : m ≤ B) :
    (btreePrefix B N fuel (btreeLevelStart B d + g) d m).countP (fun x => x.2.2 < s.height) =
        m * (B + 1) ^ (s.height - (d + 1)) ∧
      (btreePrefix B N fuel (btreeLevelStart B d + g) d m).countP (fun x => x.2.2 = s.height) =
        B * (s.leavesBefore (d + 1) (g * (B + 1) + m) - s.leavesBefore (d + 1) (g * (B + 1))) ∧
      (btreePrefix B N fuel (btreeLevelStart B d + g) d m).length =
        m * (B + 1) ^ (s.height - (d + 1)) +
          B * (s.leavesBefore (d + 1) (g * (B + 1) + m) - s.leavesBefore (d + 1) (g * (B + 1))) := by
  have innerCount := s.countP_inner_prefix inner (fun i slot => by
    rw [btreeNext_levelStart]
    exact (s.btreeSlots_counts (d := d + 1) (by omega) (child_digit_lt B digit slot)
      (show s.height + 1 ≤ fuel + (d + 1) by omega)).1) slot
  have deepCount := s.countP_deepest_prefix inner (fun i slot => by
    rw [btreeNext_levelStart]
    exact (s.btreeSlots_counts (d := d + 1) (by omega) (child_digit_lt B digit slot)
      (show s.height + 1 ≤ fuel + (d + 1) by omega)).2) slot
  refine ⟨innerCount, deepCount, ?_⟩
  rw [← innerCount, ← deepCount]
  refine s.length_eq_inner_add_deepest fun x mem =>
    s.height_le_of_mem digit (?_ : x ∈ btreeSlots B N (fuel + 1) (btreeLevelStart B d + g) d)
  -- a slot before `m` is a slot of the block
  rw [btreeSlots_succ (s.present_of_lt digit inner), btreePrefix]
  apply List.mem_append_left
  obtain ⟨i, range, mem⟩ := List.mem_flatMap.mp mem
  exact List.mem_flatMap.mpr ⟨i, List.mem_range.mpr ((List.mem_range.mp range).trans_le slot), mem⟩

-- The whole tree: `B` slots in each of its `N` blocks, `B * last` of them on level `height`.
theorem btreeSlots_root {fuel : Nat} (enough : s.height + 1 ≤ fuel) :
    (btreeSlots B N fuel 0 0).length = B * N ∧
      (btreeSlots B N fuel 0 0).length = (B + 1) ^ s.height - 1 + B * s.last ∧
      (btreeSlots B N fuel 0 0).countP (fun x => x.2.2 < s.height) = (B + 1) ^ s.height - 1 ∧
      (btreeSlots B N fuel 0 0).countP (fun x => x.2.2 = s.height) = B * s.last := by
  have root : btreeSlots B N fuel 0 0 = btreeSlots B N fuel (btreeLevelStart B 0 + 0) 0 := rfl
  have one : (0 : Nat) < (B + 1) ^ 0 := by simp
  have deepest : s.leavesBefore 0 (0 + 1) - s.leavesBefore 0 0 = s.last := by
    simp [leavesBefore, Nat.min_eq_left s.last_le]
  obtain ⟨inner, deep⟩ := s.btreeSlots_counts (Nat.zero_le _) one (by omega)
  have length := s.length_btreeSlots (Nat.zero_le _) one (by omega)
  rw [deepest] at deep length
  have total : B * N = btreeLevelStart B s.height * B + B * s.last := by
    rw [Nat.mul_comm _ B, ← Nat.mul_add, ← s.nblocks_eq]
  have levels := levelStart_mul_add_one B s.height
  rw [root, length, inner, deep, Nat.sub_zero]
  exact ⟨by omega, rfl, rfl, rfl⟩

theorem visit_mem_btreeTrace (wide : 0 < B) {fuel d : Nat} (depth : d ≤ s.height) (enough : s.height + 1 ≤ fuel + d) :
    BtreeEvent.visit s.height ∈ btreeTrace B N fuel (btreeLevelStart B d + 0) d := by
  induction fuel generalizing d with
  | zero => omega
  | succ fuel ih =>
    have present : btreeLevelStart B d + 0 < N :=
      (s.present_iff (Nat.pow_pos (Nat.succ_pos B))).mpr (by have := s.last_pos; omega)
    rw [btreeTrace, if_neg (Nat.not_le.mpr present)]
    rcases depth.lt_or_eq with inner | rfl
    · -- down the leftmost child
      have leftmost : btreeNext B (btreeLevelStart B d + 0) 0 = btreeLevelStart B (d + 1) + 0 := by
        rw [btreeNext_levelStart, Nat.zero_mul]
      have below := ih (d := d + 1) (by omega) (by omega)
      rw [← leftmost] at below
      refine List.mem_cons_of_mem _ (List.mem_append_left _ (List.mem_flatMap.mpr ⟨0, List.mem_range.mpr wide, ?_⟩))
      exact List.mem_append_left _ below
    · exact List.mem_cons_self

-- The build of the whole tree ends at height `height`.
theorem foldl_reach_btreeTrace (wide : 0 < B) {fuel : Nat} (enough : s.height + 1 ≤ fuel) :
    (btreeTrace B N fuel 0 0).foldl BtreeEvent.reach 0 = s.height := by
  have root : btreeTrace B N fuel 0 0 = btreeTrace B N fuel (btreeLevelStart B 0 + 0) 0 := rfl
  refine le_antisymm (BtreeEvent.foldl_reach_le (Nat.zero_le _) fun ev mem => ?_) ?_
  · rw [root] at mem
    obtain ⟨e, g', digit, -, present, height, -⟩ := mem_btreeTrace (Nat.one_pos.trans_eq (pow_zero _).symm) mem
    have := (s.present_iff digit).mp present
    omega
  · rw [root]
    exact BtreeEvent.le_foldl_reach_of_mem (s.visit_mem_btreeTrace wide (Nat.zero_le _) enough) 0

end BtreeShape

end Yanet
