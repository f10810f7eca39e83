import Yanet.Lpm.Basic

set_option autoImplicit false

-- `lpm_insert` maps the keys `from … to` to a value. Its walk visits the blocks of the range in key
-- order. After a write the advance moves to the block right after the written one, or stops when
-- that block ended at `to` (`lpmInsertAdvance_spec`). A descent keeps the first key still to be
-- written, and a split copies a leaf without changing any lookup. `InsertInv` ties the walk's
-- position to the lookups, and the fuel suffices because every round goes one level down or past a
-- block.

namespace Yanet

open BigEndian

section Advance

variable {N : Nat} {toKey key : Nat → UInt8}

theorem lpmInsertAdvance_stay {hop : Nat}
    (stay : ¬key hop + 1 = lpmInsertUpperBound N toKey (Function.update key hop (key hop + 1)) hop + 1) :
    lpmInsertAdvance N toKey hop key = some (hop, Function.update key hop (key hop + 1)) := by
  rw [lpmInsertAdvance.eq_def]
  simp only [Function.update_self]
  rw [if_neg stay]

theorem lpmInsertAdvance_root
    (up : key 0 + 1 = lpmInsertUpperBound N toKey (Function.update key 0 (key 0 + 1)) 0 + 1) :
    lpmInsertAdvance N toKey 0 key = none := by
  rw [lpmInsertAdvance.eq_def]
  simp only [Function.update_self]
  rw [if_pos up]

theorem lpmInsertAdvance_up {hop : Nat}
    (up : key (hop + 1) + 1 =
      lpmInsertUpperBound N toKey (Function.update key (hop + 1) (key (hop + 1) + 1)) (hop + 1) + 1) :
    lpmInsertAdvance N toKey (hop + 1) key =
      lpmInsertAdvance N toKey hop (Function.update key (hop + 1) (key (hop + 1) + 1)) := by
  rw [lpmInsertAdvance.eq_def]
  simp only [Function.update_self]
  rw [if_pos up]

theorem lpmInsertUpperBound_of_le {hop : Nat} (within : blockLast N key hop ≤ value toKey 0 N) :
    lpmInsertUpperBound N toKey key hop = 0xff := by
  unfold lpmInsertUpperBound
  rw [if_neg fun beyond => absurd ((lpmCheckRangeHi_ne_zero_iff toKey).mp beyond) (Nat.not_lt.mpr within)]

theorem lpmInsertUpperBound_of_lt {hop : Nat} (beyond : value toKey 0 N < blockLast N key hop) :
    lpmInsertUpperBound N toKey key hop = toKey hop := by
  unfold lpmInsertUpperBound
  rw [if_pos ((lpmCheckRangeHi_ne_zero_iff toKey).mpr beyond)]

-- A byte that wraps to 0 goes up: the block of byte 0 lies within `to` when the block of byte
-- `0xff` starts no later than `to`.
theorem lpmInsertAdvance_wraps {hop : Nat} (lt : hop < N) (notAbove : value key 0 (hop + 1) ≤ value toKey 0 (hop + 1))
    (top : key hop = 0xff) :
    key hop + 1 = lpmInsertUpperBound N toKey (Function.update key hop (key hop + 1)) hop + 1 := by
  have wraps : key hop + 1 = 0 := by rw [top]; decide
  have digits := @value_succ_right key 0 hop
  rw [Nat.zero_add, top, show (0xff : UInt8).toNat = 255 from rfl] at digits
  have below : blockLast N (Function.update key hop (key hop + 1)) hop < value toKey 0 N := by
    refine blockLast_lt lt ?_
    rw [value_update_last, wraps, show (0 : UInt8).toNat = 0 from rfl]
    omega
  rw [lpmInsertUpperBound_of_le below.le, wraps]
  decide

-- On `to`'s path a byte always goes up: it wraps, or it moves past `to`'s byte.
theorem lpmInsertAdvance_up_of_on_to {hop : Nat} (lt : hop < N) (onTo : ∀ j ≤ hop, key j = toKey j) :
    key hop + 1 = lpmInsertUpperBound N toKey (Function.update key hop (key hop + 1)) hop + 1 := by
  have same : value key 0 (hop + 1) = value toKey 0 (hop + 1) := value_congr fun j _ hi => onTo j (by omega)
  by_cases top : key hop = 0xff
  · exact lpmInsertAdvance_wraps lt same.le top
  · have step := toNat_add_one_of_ne_ff top
    have above : value toKey 0 N < blockLast N (Function.update key hop (key hop + 1)) hop := by
      refine Nat.lt_of_lt_of_le (lt_blockFirst lt ?_) (blockFirst_le_blockLast lt)
      rw [value_update_last, step, ← same, @value_succ_right key 0 hop, Nat.zero_add]
      omega
    rw [lpmInsertUpperBound_of_lt above, onTo hop le_rfl]

theorem lpmInsertAdvance_of_on_to (hop : Nat) (key : Nat → UInt8) (lt : hop < N) (onTo : ∀ j ≤ hop, key j = toKey j) :
    lpmInsertAdvance N toKey hop key = none := by
  induction hop generalizing key with
  | zero => exact lpmInsertAdvance_root (lpmInsertAdvance_up_of_on_to lt onTo)
  | succ h ih =>
    rw [lpmInsertAdvance_up (lpmInsertAdvance_up_of_on_to lt onTo)]
    exact ih _ (by omega) fun j le => by rw [Function.update_of_ne (by omega)]; exact onTo j (by omega)

-- One level of the advance when the byte does not wrap: the walk stays on the next block, which
-- starts right after the current one inside the range, or the current block was `to`'s own.
theorem lpmInsertAdvance_level {hop : Nat} (lt : hop < N) (within : blockLast N key hop ≤ value toKey 0 N)
    (ne : key hop ≠ 0xff) :
    (¬key hop + 1 = lpmInsertUpperBound N toKey (Function.update key hop (key hop + 1)) hop + 1 ∧
      blockFirst N (Function.update key hop (key hop + 1)) hop = blockLast N key hop + 1 ∧
      blockLast N key hop < value toKey 0 N) ∨
    (key hop + 1 = lpmInsertUpperBound N toKey (Function.update key hop (key hop + 1)) hop + 1 ∧
      ∀ j ≤ hop, key j = toKey j) := by
  have step := toNat_add_one_of_ne_ff ne
  have notAbove := value_le_of_blockLast_le lt within
  have next : blockFirst N (Function.update key hop (key hop + 1)) hop = blockLast N key hop + 1 :=
    blockFirst_next lt (fun j below => Function.update_of_ne (by omega) _ _) (by rw [Function.update_self, step])
  have digits : value (Function.update key hop (key hop + 1)) 0 (hop + 1) = value key 0 (hop + 1) + 1 := by
    rw [value_update_last, step, @value_succ_right key 0 hop, Nat.zero_add, Nat.add_assoc]
  by_cases beyond : value toKey 0 N < blockLast N (Function.update key hop (key hop + 1)) hop
  · -- the next block leaves the range, so `upper_bound` is `to`'s byte
    rw [lpmInsertUpperBound_of_lt beyond]
    have reach : value toKey 0 (hop + 1) ≤ value key 0 (hop + 1) + 1 := by
      by_contra far
      have := blockLast_lt lt (show value (Function.update key hop (key hop + 1)) 0 (hop + 1) < value toKey 0 (hop + 1) by
        omega)
      omega
    have keyDigits := @value_succ_right key 0 hop
    have toDigits := @value_succ_right toKey 0 hop
    rw [Nat.zero_add] at keyDigits toDigits
    have keyByte := (key hop).toNat_lt
    have toByte := (toKey hop).toNat_lt
    by_cases same : key hop = toKey hop
    · -- the current block is `to`'s: the prefixes agree up to `hop`
      refine .inr ⟨by rw [same], fun j le => ?_⟩
      have eq : value key 0 (hop + 1) = value toKey 0 (hop + 1) := by
        rw [same] at keyDigits
        omega
      exact value_eq_iff.mp eq j (Nat.zero_le j) (by omega)
    · have differ : (key hop).toNat ≠ (toKey hop).toNat := fun eq => same (UInt8.toNat_inj.mp eq)
      exact .inl ⟨fun up => same ((UInt8.add_left_inj 1).mp up), next, blockLast_lt lt (by omega)⟩
  · -- the next block ends within the range, so `upper_bound` is `0xff`, reached only by a wrap
    rw [lpmInsertUpperBound_of_le (Nat.le_of_not_lt beyond)]
    refine .inl ⟨fun up => ne ((UInt8.add_left_inj 1).mp up), next, ?_⟩
    calc blockLast N key hop < blockFirst N (Function.update key hop (key hop + 1)) hop := by omega
      _ ≤ blockLast N (Function.update key hop (key hop + 1)) hop := blockFirst_le_blockLast lt
      _ ≤ value toKey 0 N := Nat.le_of_not_lt beyond

theorem blockLast_eq_of_on_to {hop : Nat} (lt : hop < N) (within : blockLast N key hop ≤ value toKey 0 N)
    (onTo : ∀ j ≤ hop, key j = toKey j) : blockLast N key hop = value toKey 0 N :=
  Nat.le_antisymm within ((mem_block_iff toKey lt).mp fun j le => (onTo j le).symm).2

theorem lpmInsertAdvance_spec (hop : Nat) (key : Nat → UInt8) (lt : hop < N)
    (within : blockLast N key hop ≤ value toKey 0 N) :
    (lpmInsertAdvance N toKey hop key = none ∧ blockLast N key hop = value toKey 0 N) ∨
    ∃ hop' key', lpmInsertAdvance N toKey hop key = some (hop', key') ∧ hop' ≤ hop ∧ (∀ j < hop', key' j = key j) ∧
      blockFirst N key' hop' = blockLast N key hop + 1 ∧ blockLast N key hop < value toKey 0 N := by
  induction hop generalizing key with
  | zero =>
    by_cases top : key 0 = 0xff
    · -- the last byte of level 0: the block ends at the last key of all
      have whole : blockLast N key 0 = 256 ^ N - 1 := blockLast_root_of_top top
      have bound := @value_lt toKey 0 N
      exact .inl ⟨lpmInsertAdvance_root (lpmInsertAdvance_wraps lt (value_le_of_blockLast_le lt within) top),
        by omega⟩
    · rcases lpmInsertAdvance_level lt within top with ⟨stay, next, below⟩ | ⟨up, onTo⟩
      · exact .inr ⟨0, _, lpmInsertAdvance_stay stay, le_rfl, fun j below => absurd below (Nat.not_lt_zero j), next,
          below⟩
      · exact .inl ⟨lpmInsertAdvance_root up, blockLast_eq_of_on_to lt within onTo⟩
  | succ h ih =>
    by_cases top : key (h + 1) = 0xff
    · -- the byte wraps: the walk goes up to the parent block, which ends where this one does
      have parent : blockLast N (Function.update key (h + 1) (key (h + 1) + 1)) h = blockLast N key (h + 1) :=
        blockLast_parent (fun j le => Function.update_of_ne (by omega) _ _) top
      rw [lpmInsertAdvance_up (lpmInsertAdvance_wraps lt (value_le_of_blockLast_le lt within) top)]
      rcases ih _ (by omega) (by rw [parent]; exact within) with ⟨done, last⟩ | ⟨hop', key', next, le, same, first, below⟩
      · exact .inl ⟨done, by rw [← parent]; exact last⟩
      · refine .inr ⟨hop', key', next, by omega, fun j below => ?_, by rw [first, parent], by rw [← parent]; exact below⟩
        rw [same j below, Function.update_of_ne (by omega)]
    · rcases lpmInsertAdvance_level lt within top with ⟨stay, next, below⟩ | ⟨up, onTo⟩
      · exact .inr ⟨h + 1, _, lpmInsertAdvance_stay stay, le_rfl,
          fun j below => Function.update_of_ne (by omega) _ _, next, below⟩
      · refine .inl ⟨?_, blockLast_eq_of_on_to lt within onTo⟩
        rw [lpmInsertAdvance_up up]
        exact lpmInsertAdvance_of_on_to h _ (by omega) fun j le => by
          rw [Function.update_of_ne (by omega)]
          exact onTo j (by omega)

theorem lpmInsertAdvance_le (hop : Nat) (key : Nat → UInt8) {hop' : Nat} {key' : Nat → UInt8}
    (next : lpmInsertAdvance N toKey hop key = some (hop', key')) : hop' ≤ hop ∧ ∀ j < hop', key' j = key j := by
  induction hop generalizing key with
  | zero =>
    by_cases up : key 0 + 1 = lpmInsertUpperBound N toKey (Function.update key 0 (key 0 + 1)) 0 + 1
    · rw [lpmInsertAdvance_root up] at next
      cases next
    · rw [lpmInsertAdvance_stay up, Option.some.injEq, Prod.mk.injEq] at next
      obtain ⟨rfl, rfl⟩ := next
      exact ⟨le_rfl, fun j below => absurd below (Nat.not_lt_zero j)⟩
  | succ h ih =>
    by_cases up : key (h + 1) + 1 =
        lpmInsertUpperBound N toKey (Function.update key (h + 1) (key (h + 1) + 1)) (h + 1) + 1
    · rw [lpmInsertAdvance_up up] at next
      obtain ⟨le, same⟩ := ih _ next
      exact ⟨by omega, fun j below => by rw [same j below, Function.update_of_ne (by omega)]⟩
    · rw [lpmInsertAdvance_stay up, Option.some.injEq, Prod.mk.injEq] at next
      obtain ⟨rfl, rfl⟩ := next
      exact ⟨le_rfl, fun j below => Function.update_of_ne (by omega) _ _⟩

end Advance

theorem lpmInsertDescend_eq (fromKey : Nat → UInt8) (state : LpmInsertState) (child : Nat) :
    lpmInsertDescend fromKey state child =
      { state with
        hop := state.hop + 1
        maxHop := max state.maxHop (state.hop + 1)
        key := Function.update state.key (state.hop + 1)
          (if state.hop + 1 > state.maxHop then fromKey (state.hop + 1) else 0)
        pages := Function.update state.pages (state.hop + 1) child } := by
  unfold lpmInsertDescend
  by_cases deeper : state.hop + 1 > state.maxHop
  · rw [if_pos deeper, if_pos deeper, Nat.max_eq_right deeper.le]
  · rw [if_neg deeper, if_neg deeper, Nat.max_eq_left (by omega)]

-- Every key of `from … to` below `bound` reads `raw`, every other key what it read in `before`.
def InsertWritten (keySize : Nat) (fromKey toKey : Nat → UInt8) (raw : UInt64) (before : Lpm) (bound : Nat)
    (lpm : Lpm) : Prop :=
  ∀ x, lpmLookupFrom lpm x 0 0 keySize =
    if value fromKey 0 keySize ≤ value x 0 keySize ∧ value x 0 keySize ≤ value toKey 0 keySize ∧
      value x 0 keySize < bound then some raw
    else lpmLookupFrom before x 0 0 keySize

-- The walk's invariant: the trie and the stack stay valid; the range is written up to the
-- current block, which meets the range; on `from`'s path the walk is at the deepest level it has
-- reached, and off it `from` has only zero bytes below that level.
structure InsertInv (keySize : Nat) (fromKey toKey : Nat → UInt8) (raw : UInt64) (before : Lpm)
    (state : LpmInsertState) : Prop where
  valid : state.lpm.Valid keySize
  stack : LpmStack state.lpm state.key state.pages state.hop
  hop_le : state.hop ≤ state.maxHop
  maxHop_lt : state.maxHop < keySize
  written : InsertWritten keySize fromKey toKey raw before (blockFirst keySize state.key state.hop) state.lpm
  first_le : blockFirst keySize state.key state.hop ≤ value toKey 0 keySize
  le_last : value fromKey 0 keySize ≤ blockLast keySize state.key state.hop
  onPath : (∀ j ≤ state.hop, state.key j = fromKey j) → state.maxHop = state.hop
  offPath : ¬(∀ j ≤ state.hop, state.key j = fromKey j) → ∀ d, state.maxHop < d → d < keySize → fromKey d = 0

-- What `lpm_insert` leaves: a valid trie with the range written, or, after a failed allocation,
-- written up to some bound.
def InsertOutcome (keySize : Nat) (fromKey toKey : Nat → UInt8) (raw : UInt64) (before : Lpm)
    (result : Int × Lpm) : Prop :=
  result.2.Valid keySize ∧
    (result.1 = 0 ∧ InsertWritten keySize fromKey toKey raw before (value toKey 0 keySize + 1) result.2 ∨
      result.1 = -1 ∧ ∃ bound, InsertWritten keySize fromKey toKey raw before bound result.2)

-- Each round goes one level down or past a block.
def insertMeasure (keySize : Nat) (state : LpmInsertState) : Nat :=
  (256 ^ keySize - blockFirst keySize state.key state.hop) * (keySize + 1) + (keySize - state.hop)

section Walk

variable {keySize : Nat} {fromKey toKey : Nat → UInt8} {raw : UInt64} {before : Lpm} {state : LpmInsertState}

theorem insertMeasure_lt_of_deeper {next : LpmInsertState}
    (first : blockFirst keySize state.key state.hop ≤ blockFirst keySize next.key next.hop)
    (deeper : next.hop = state.hop + 1) (lt : state.hop < keySize) :
    insertMeasure keySize next < insertMeasure keySize state := by
  show blockMeasure keySize next.key next.hop < blockMeasure keySize state.key state.hop
  rw [deeper] at first ⊢
  exact blockMeasure_lt_of_deeper first lt

theorem insertMeasure_lt_of_later {next : LpmInsertState}
    (later : blockFirst keySize state.key state.hop < blockFirst keySize next.key next.hop) :
    insertMeasure keySize next < insertMeasure keySize state :=
  blockMeasure_lt_of_later later

theorem InsertInv.hop_lt (inv : InsertInv keySize fromKey toKey raw before state) : state.hop < keySize :=
  Nat.lt_of_le_of_lt inv.hop_le inv.maxHop_lt

theorem InsertInv.write (inv : InsertInv keySize fromKey toKey raw before state) {old : UInt64}
    (leaf : state.lpm.pages (state.pages state.hop) (state.key state.hop) = .value old)
    (lo : value fromKey 0 keySize ≤ blockFirst keySize state.key state.hop)
    (hi : blockLast keySize state.key state.hop ≤ value toKey 0 keySize) :
    InsertWritten keySize fromKey toKey raw before (blockLast keySize state.key state.hop + 1)
      (state.lpm.write (state.pages state.hop) (state.key state.hop) (.value raw)) := by
  obtain ⟨owner, owned⟩ := inv.valid.owned
  intro x
  rw [lpmLookupFrom_write_leaf owned inv.valid.root inv.stack leaf inv.hop_lt raw x]
  by_cases on : ∀ j ≤ state.hop, x j = state.key j
  · have inBlock := (mem_block_iff x inv.hop_lt).mp on
    rw [if_pos on, if_pos ⟨by omega, by omega, by omega⟩]
  · have outside : value x 0 keySize < blockFirst keySize state.key state.hop ∨
        blockLast keySize state.key state.hop < value x 0 keySize := by
      rcases Nat.lt_or_ge (value x 0 keySize) (blockFirst keySize state.key state.hop) with below | atLeast
      · exact .inl below
      · exact .inr (Nat.lt_of_not_le fun atMost => on ((mem_block_iff x inv.hop_lt).mpr ⟨atLeast, atMost⟩))
    have ordered := @blockFirst_le_blockLast state.key _ _ inv.hop_lt
    have same : value x 0 keySize < blockFirst keySize state.key state.hop ↔
        value x 0 keySize < blockLast keySize state.key state.hop + 1 := by omega
    rw [if_neg on, inv.written x]
    simp only [same]


theorem InsertInv.descend (range : value fromKey 0 keySize ≤ value toKey 0 keySize)
    (inv : InsertInv keySize fromKey toKey raw before state) {child : Nat}
    (slot : state.lpm.pages (state.pages state.hop) (state.key state.hop) = .page child) (deep : state.hop + 1 < keySize) :
    InsertInv keySize fromKey toKey raw before (lpmInsertDescend fromKey state child) ∧
      insertMeasure keySize (lpmInsertDescend fromKey state child) < insertMeasure keySize state := by
  rw [lpmInsertDescend_eq]
  have levels := inv.maxHop_lt
  have reached := inv.hop_le
  generalize enter : (if state.hop + 1 > state.maxHop then fromKey (state.hop + 1) else 0) = b
  have first := @blockFirst_update_succ state.key _ _ deep b
  have below : ∀ j ≤ state.hop, Function.update state.key (state.hop + 1) b j = state.key j :=
    fun j le => Function.update_of_ne (by omega) _ _
  have measure := @insertMeasure_lt_of_deeper keySize state
    { state with
      hop := state.hop + 1
      maxHop := max state.maxHop (state.hop + 1)
      key := Function.update state.key (state.hop + 1) b
      pages := Function.update state.pages (state.hop + 1) child }
    (by dsimp only; omega) rfl inv.hop_lt
  by_cases on : ∀ j ≤ state.hop, state.key j = fromKey j
  · -- `from`'s path: this is the deepest level so far
    have deepest := inv.onPath on
    have byte : b = fromKey (state.hop + 1) := by rw [← enter, if_pos (by omega)]
    have on' : ∀ j ≤ state.hop + 1, Function.update state.key (state.hop + 1) b j = fromKey j := by
      intro j le
      rcases Nat.lt_or_eq_of_le le with lt | rfl
      · rw [below j (by omega)]
        exact on j (by omega)
      · rw [Function.update_self, byte]
    have holds := (mem_block_iff fromKey deep).mp fun j le => (on' j le).symm
    refine ⟨⟨inv.valid, inv.stack.descend slot b, by dsimp only; omega, by dsimp only; omega, fun x => ?_,
      by dsimp only; omega, holds.2, fun _ => by dsimp only; omega, fun off => absurd on' off⟩, measure⟩
    rw [inv.written x]
    have same : value fromKey 0 keySize ≤ value x 0 keySize →
        (value x 0 keySize < blockFirst keySize state.key state.hop ↔
          value x 0 keySize < blockFirst keySize (Function.update state.key (state.hop + 1) b) (state.hop + 1)) := by
      intro lo
      omega
    by_cases lo : value fromKey 0 keySize ≤ value x 0 keySize
    · simp only [same lo]
    · simp only [lo, false_and, if_false]
  · -- off the path: the level is entered at byte 0, as `from` has only zero bytes this deep
    have byte : b = 0 := by
      rw [← enter]
      split
      · exact inv.offPath on _ (by omega) deep
      · rfl
    subst byte
    rw [show (0 : UInt8).toNat = 0 from rfl, Nat.zero_mul, Nat.add_zero] at first
    have beyond : value fromKey 0 keySize < blockFirst keySize state.key state.hop :=
      Nat.lt_of_not_le fun atMost => on fun j le =>
        ((mem_block_iff fromKey inv.hop_lt).mpr ⟨atMost, inv.le_last⟩ j le).symm
    refine ⟨⟨inv.valid, inv.stack.descend slot 0, by dsimp only; omega, by dsimp only; omega, ?_, ?_, ?_,
      fun on' => absurd (fun j le => by rw [← below j le]; exact on' j (Nat.le_succ_of_le le)) on,
      fun _ d deeper bound => inv.offPath on d (by dsimp only at deeper; omega) bound⟩, measure⟩
    · dsimp only
      rw [first]
      exact inv.written
    · dsimp only
      rw [first]
      exact inv.first_le
    · dsimp only
      have ordered := @blockFirst_le_blockLast (Function.update state.key (state.hop + 1) 0) _ _ deep
      omega

theorem InsertInv.split {alloc : Nat → Bool} (inv : InsertInv keySize fromKey toKey raw before state) {old : UInt64}
    (leaf : state.lpm.pages (state.pages state.hop) (state.key state.hop) = .value old) (deep : state.hop + 1 < keySize)
    {lpm' : Lpm} (ok : lpmNewPage alloc state.lpm (some (state.pages state.hop, state.key state.hop)) = some lpm') :
    InsertInv keySize fromKey toKey raw before { state with lpm := lpm' } ∧
      lpm'.pages (state.pages state.hop) (state.key state.hop) = .page state.lpm.pageCount := by
  obtain ⟨owner, owned⟩ := inv.valid.owned
  obtain ⟨valid, stack, pointer⟩ := inv.stack.split inv.valid leaf deep ok
  refine ⟨⟨valid, stack, inv.hop_le, inv.maxHop_lt, fun x => ?_, inv.first_le, inv.le_last, inv.onPath, inv.offPath⟩,
    pointer⟩
  rw [lpmLookupFrom_split owned inv.valid.root inv.stack leaf ok deep x]
  exact inv.written x

theorem InsertInv.advance (inv : InsertInv keySize fromKey toKey raw before state) {old : UInt64}
    (leaf : state.lpm.pages (state.pages state.hop) (state.key state.hop) = .value old)
    (lo : value fromKey 0 keySize ≤ blockFirst keySize state.key state.hop)
    (hi : blockLast keySize state.key state.hop ≤ value toKey 0 keySize)
    {hop' : Nat} {key' : Nat → UInt8} (le : hop' ≤ state.hop) (same : ∀ j < hop', key' j = state.key j)
    (first : blockFirst keySize key' hop' = blockLast keySize state.key state.hop + 1)
    (below : blockLast keySize state.key state.hop < value toKey 0 keySize) :
    InsertInv keySize fromKey toKey raw before
      { state with lpm := state.lpm.write (state.pages state.hop) (state.key state.hop) (.value raw), hop := hop', key := key' } ∧
    insertMeasure keySize
      { state with lpm := state.lpm.write (state.pages state.hop) (state.key state.hop) (.value raw), hop := hop', key := key' } <
      insertMeasure keySize state := by
  have lt : hop' < keySize := by have := inv.hop_lt; omega
  have ordered := @blockFirst_le_blockLast key' _ _ lt
  have ordered' := @blockFirst_le_blockLast state.key _ _ inv.hop_lt
  refine ⟨⟨inv.valid.write_value _ _ _, (inv.stack.write_leaf leaf _).restrict le same,
    by dsimp only; have := inv.hop_le; omega, inv.maxHop_lt, ?_, by dsimp only; omega, ?_, fun on' => ?_, fun _ d deeper bound => ?_⟩,
    insertMeasure_lt_of_later (by dsimp only; omega)⟩
  · dsimp only
    rw [first]
    exact inv.write leaf lo hi
  · dsimp only
    have := inv.le_last
    omega
  · -- the next block starts after `from`, so it is not on `from`'s path
    have holds := (mem_block_iff fromKey lt).mp fun j le => (on' j le).symm
    have := inv.le_last
    dsimp only at holds
    omega
  · -- a block written on `from`'s path starts at `from`, which then has only zero bytes below it
    by_cases on : ∀ j ≤ state.hop, state.key j = fromKey j
    · have deepest := inv.onPath on
      have holds := (mem_block_iff fromKey inv.hop_lt).mp fun j le => (on j le).symm
      exact eq_zero_of_blockFirst_eq (Nat.le_antisymm holds.1 lo) (by dsimp only at deeper; omega) bound
    · exact inv.offPath on d deeper bound



theorem InsertInv.fail (inv : InsertInv keySize fromKey toKey raw before state) :
    InsertOutcome keySize fromKey toKey raw before (-1, state.lpm) :=
  ⟨inv.valid, .inr ⟨rfl, _, inv.written⟩⟩

theorem InsertInv.leaf_inside (inv : InsertInv keySize fromKey toKey raw before state)
    (keep : ¬(state.hop < keySize - 1 ∧ (lpmCheckRangeLo keySize state.key fromKey state.hop ≠ 0 ∨
      lpmCheckRangeHi keySize state.key toKey state.hop ≠ 0))) :
    value fromKey 0 keySize ≤ blockFirst keySize state.key state.hop ∧
      blockLast keySize state.key state.hop ≤ value toKey 0 keySize := by
  by_cases inner : state.hop < keySize - 1
  · have checks : ¬(lpmCheckRangeLo keySize state.key fromKey state.hop ≠ 0 ∨
        lpmCheckRangeHi keySize state.key toKey state.hop ≠ 0) := fun fails => keep ⟨inner, fails⟩
    rw [not_or, lpmCheckRangeLo_ne_zero_iff, lpmCheckRangeHi_ne_zero_iff] at checks
    exact ⟨Nat.le_of_not_lt checks.1, Nat.le_of_not_lt checks.2⟩
  · have last : state.hop + 1 = keySize := by have := inv.hop_lt; omega
    have first := inv.first_le
    have reach := inv.le_last
    rw [blockFirst_of_last last] at first ⊢
    rw [blockLast_of_last last] at reach ⊢
    exact ⟨reach, first⟩

variable {v : UInt32}

theorem lpmInsertStep_cases (alloc : Nat → Bool) (state : LpmInsertState) :
    (∃ child, state.lpm.pages (state.pages state.hop) (state.key state.hop) = .page child ∧
      lpmInsertStep alloc keySize fromKey toKey v state = .inr (lpmInsertDescend fromKey state child)) ∨
    (∃ old, state.lpm.pages (state.pages state.hop) (state.key state.hop) = .value old ∧
      (state.hop < keySize - 1 ∧ (lpmCheckRangeLo keySize state.key fromKey state.hop ≠ 0 ∨
        lpmCheckRangeHi keySize state.key toKey state.hop ≠ 0)) ∧
      lpmNewPage alloc state.lpm (some (state.pages state.hop, state.key state.hop)) = none ∧
      lpmInsertStep alloc keySize fromKey toKey v state = .inl (-1, state.lpm)) ∨
    (∃ old lpm', state.lpm.pages (state.pages state.hop) (state.key state.hop) = .value old ∧
      (state.hop < keySize - 1 ∧ (lpmCheckRangeLo keySize state.key fromKey state.hop ≠ 0 ∨
        lpmCheckRangeHi keySize state.key toKey state.hop ≠ 0)) ∧
      lpmNewPage alloc state.lpm (some (state.pages state.hop, state.key state.hop)) = some lpm' ∧
      lpmInsertStep alloc keySize fromKey toKey v state =
        .inr (lpmInsertDescend fromKey { state with lpm := lpm' } state.lpm.pageCount)) ∨
    (∃ old, state.lpm.pages (state.pages state.hop) (state.key state.hop) = .value old ∧
      ¬(state.hop < keySize - 1 ∧ (lpmCheckRangeLo keySize state.key fromKey state.hop ≠ 0 ∨
        lpmCheckRangeHi keySize state.key toKey state.hop ≠ 0)) ∧
      lpmInsertAdvance keySize toKey state.hop state.key = none ∧
      lpmInsertStep alloc keySize fromKey toKey v state =
        .inl (0, state.lpm.write (state.pages state.hop) (state.key state.hop) (.value (lpmValueSet v)))) ∨
    (∃ old hop' key', state.lpm.pages (state.pages state.hop) (state.key state.hop) = .value old ∧
      ¬(state.hop < keySize - 1 ∧ (lpmCheckRangeLo keySize state.key fromKey state.hop ≠ 0 ∨
        lpmCheckRangeHi keySize state.key toKey state.hop ≠ 0)) ∧
      lpmInsertAdvance keySize toKey state.hop state.key = some (hop', key') ∧
      lpmInsertStep alloc keySize fromKey toKey v state =
        .inr { state with
          lpm := state.lpm.write (state.pages state.hop) (state.key state.hop) (.value (lpmValueSet v))
          hop := hop'
          key := key' }) := by
  unfold lpmInsertStep
  dsimp only
  cases slot : state.lpm.pages (state.pages state.hop) (state.key state.hop) with
  | page child => exact .inl ⟨child, rfl, rfl⟩
  | value old =>
    by_cases splits : state.hop < keySize - 1 ∧ (lpmCheckRangeLo keySize state.key fromKey state.hop ≠ 0 ∨
        lpmCheckRangeHi keySize state.key toKey state.hop ≠ 0)
    · rw [if_pos splits]
      cases ok : lpmNewPage alloc state.lpm (some (state.pages state.hop, state.key state.hop)) with
      | none => exact .inr (.inl ⟨old, rfl, splits, rfl, rfl⟩)
      | some lpm' => exact .inr (.inr (.inl ⟨old, lpm', rfl, splits, rfl, rfl⟩))
    · rw [if_neg splits]
      cases next : lpmInsertAdvance keySize toKey state.hop state.key with
      | none => exact .inr (.inr (.inr (.inl ⟨old, rfl, splits, rfl, rfl⟩)))
      | some pair => exact .inr (.inr (.inr (.inr ⟨old, pair.1, pair.2, rfl, splits, rfl, rfl⟩)))

theorem InsertInv.step (range : value fromKey 0 keySize ≤ value toKey 0 keySize)
    (inv : InsertInv keySize fromKey toKey (lpmValueSet v) before state) (alloc : Nat → Bool) :
    (∃ result, lpmInsertStep alloc keySize fromKey toKey v state = .inl result ∧
      InsertOutcome keySize fromKey toKey (lpmValueSet v) before result) ∨
    ∃ next, lpmInsertStep alloc keySize fromKey toKey v state = .inr next ∧
      InsertInv keySize fromKey toKey (lpmValueSet v) before next ∧
      insertMeasure keySize next < insertMeasure keySize state := by
  rcases lpmInsertStep_cases alloc state with ⟨child, slot, step⟩ | ⟨old, slot, splits, -, step⟩ |
    ⟨old, lpm', slot, splits, ok, step⟩ | ⟨old, slot, keep, done, step⟩ | ⟨old, hop', key', slot, keep, next, step⟩
  · -- a page is one level down, and never at the last level
    exact .inr ⟨_, step, inv.descend range slot (inv.stack.deep inv.valid slot)⟩
  · -- the allocation for a split failed
    exact .inl ⟨_, step, inv.fail⟩
  · -- the leaf sticks out of the range: split it and go down into the copy
    obtain ⟨split, pointer⟩ := inv.split slot (by omega) ok
    exact .inr ⟨_, step, split.descend range pointer (show state.hop + 1 < keySize by omega)⟩
  · -- the leaf lies in the range and was the last block of it
    obtain ⟨lo, hi⟩ := inv.leaf_inside keep
    rcases lpmInsertAdvance_spec state.hop state.key inv.hop_lt hi with ⟨-, last⟩ | ⟨_, _, next, -⟩
    · refine .inl ⟨_, step, inv.valid.write_value _ _ _, .inl ⟨rfl, ?_⟩⟩
      rw [← last]
      exact inv.write slot lo hi
    · rw [done] at next
      cases next
  · -- the leaf lies in the range: write it and go on with the next block
    obtain ⟨lo, hi⟩ := inv.leaf_inside keep
    rcases lpmInsertAdvance_spec state.hop state.key inv.hop_lt hi with ⟨none, -⟩ | ⟨_, _, again, le, same, first, below⟩
    · rw [none] at next
      cases next
    · rw [next, Option.some.injEq, Prod.mk.injEq] at again
      obtain ⟨rfl, rfl⟩ := again
      exact .inr ⟨_, step, inv.advance slot lo hi le same first below⟩

-- A run from a state of the invariant, with more fuel than its measure, ends in an outcome.
theorem insertInv_run (range : value fromKey 0 keySize ≤ value toKey 0 keySize) (alloc : Nat → Bool) (fuel : Nat) :
    ∀ state, InsertInv keySize fromKey toKey (lpmValueSet v) before state → insertMeasure keySize state < fuel →
      ∃ result, lpmInsertLoop alloc keySize fromKey toKey v fuel state = some result ∧
        InsertOutcome keySize fromKey toKey (lpmValueSet v) before result := by
  induction fuel with
  | zero => exact fun _ _ enough => absurd enough (Nat.not_lt_zero _)
  | succ fuel ih =>
    intro state inv enough
    rcases inv.step range alloc with ⟨result, step, outcome⟩ | ⟨next, step, inv', smaller⟩
    · exact ⟨result, by rw [lpmInsertLoop, step], outcome⟩
    · rw [lpmInsertLoop, step]
      exact ih next inv' (by omega)

theorem insertInv_init {lpm : Lpm} (valid : lpm.Valid keySize) (pos : 0 < keySize)
    (range : value fromKey 0 keySize ≤ value toKey 0 keySize) :
    InsertInv keySize fromKey toKey raw lpm
      { lpm, key := Function.update (fun _ => 0) 0 (fromKey 0), pages := fun _ => 0, hop := 0, maxHop := 0 } := by
  have on : ∀ j ≤ 0, Function.update (fun _ => (0 : UInt8)) 0 (fromKey 0) j = fromKey j := by
    intro j le
    rw [Nat.le_zero.mp le, Function.update_self]
  have holds := (mem_block_iff fromKey pos).mp fun j le => (on j le).symm
  refine ⟨valid, ⟨rfl, fun j lt => absurd lt (Nat.not_lt_zero j)⟩, le_rfl, pos, fun x => ?_, by dsimp only; omega,
    holds.2, fun _ => rfl, fun off => absurd on off⟩
  -- nothing is written yet: the first block starts at or before `from`
  rw [if_neg fun ⟨lo, _, below⟩ => by dsimp only at below; omega]

-- `lpm_insert` on a valid trie, for `from ≤ to`, returns within its fuel: the range maps to the
-- value, or after a failed allocation a part of it does, and the trie stays valid.
theorem lpmInsert_spec (alloc : Nat → Bool) {lpm : Lpm} (valid : lpm.Valid keySize) (pos : 0 < keySize)
    (range : value fromKey 0 keySize ≤ value toKey 0 keySize) (v : UInt32) :
    ∃ result, lpmInsert alloc lpm keySize fromKey toKey v = some result ∧
      InsertOutcome keySize fromKey toKey (lpmValueSet v) lpm result := by
  exact insertInv_run range alloc _ _ (insertInv_init valid pos range) (blockMeasure_lt keySize _ _)

end Walk

end Yanet
