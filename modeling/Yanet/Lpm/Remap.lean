import Yanet.Filter.Remap
import Yanet.Lpm.Reach

set_option autoImplicit false

-- `lpm_remap` and `lpm_compact` (`common/lpm.h`) walk the whole trie depth first with the hop
-- stack of `lpm_insert`, moving past a leaf with the same byte increments and wrap-arounds, so the
-- walk stands on a block of keys and every key below the block has been visited. The remap
-- rewrites each leaf through row 0 of a value table. The compact, each time the walk leaves a
-- page, replaces the page by its leaf in the parent's slot when all 256 slots hold that leaf; a
-- page is left after every page below it, so nested uniform pages fold bottom-up. It writes only
-- over a pointer on the stack, and a uniform page reads as its leaf, so no lookup changes.

namespace Yanet

open BigEndian

-- The locals of the walks: the key walked and the page at each level.
structure LpmWalkState where
  lpm : Lpm
  key : Nat → UInt8
  pages : Nat → Nat
  hop : Nat

def lpmWalkInit (lpm : Lpm) : LpmWalkState := { lpm, key := fun _ => 0, pages := fun _ => 0, hop := 0 }

def lpmWalkDescend (state : LpmWalkState) (child : Nat) : LpmWalkState :=
  { state with hop := state.hop + 1, key := Function.update state.key (state.hop + 1) 0,
               pages := Function.update state.pages (state.hop + 1) child }

-- The `do … while` of `lpm_remap`: the next slot, going up while the byte wraps to 0; `none`
-- once level 0 wraps.
def lpmWalkAdvance : Nat → (Nat → UInt8) → Option (Nat × (Nat → UInt8))
  | hop, key =>
    let key := Function.update key hop (key hop + 1)
    if key hop = 0 then
      match hop with
      | 0 => none
      | hop + 1 => lpmWalkAdvance hop key
    else some (hop, key)

-- `LPM_VALUE_SET(value_table_get(table, 0, LPM_VALUE_GET(raw)))`.
def lpmRemapValue (table : ValueTable) (raw : UInt64) : UInt64 :=
  lpmValueSet (UInt32.ofNat (valueTableGet table 0 (lpmValueGet raw).toNat))

-- One round of the `while (1)` of `lpm_remap`.
def lpmRemapStep (table : ValueTable) (state : LpmWalkState) : Lpm ⊕ LpmWalkState :=
  let page := state.pages state.hop
  match state.lpm.pages page (state.key state.hop) with
  | .value raw =>
    let lpm := state.lpm.write page (state.key state.hop) (.value (lpmRemapValue table raw))
    match lpmWalkAdvance state.hop state.key with
    | none => .inl lpm
    | some (hop, key) => .inr { state with lpm, hop, key }
  | .page child => .inr (lpmWalkDescend state child)

def lpmRemapLoop (table : ValueTable) : Nat → LpmWalkState → Option Lpm
  | 0, _ => none
  | fuel + 1, state =>
    match lpmRemapStep table state with
    | .inl lpm => some lpm
    | .inr state => lpmRemapLoop table fuel state

-- `lpm_remap`, with `lpm_insert`'s fuel: the walk has as many rounds as the insert of the whole
-- key space.
def lpmRemap (lpm : Lpm) (keySize : Nat) (table : ValueTable) : Option Lpm :=
  lpmRemapLoop table (lpmInsertFuel keySize) (lpmWalkInit lpm)

-- The `for` of `lpm_compact` over the slots `idx … 1` of a page: do they all hold `first`?
def lpmCompactMonolite (lpm : Lpm) (page : Nat) (first : LpmValue) : Nat → Bool
  | 0 => true
  | idx + 1 => lpm.pages page (UInt8.ofNat (idx + 1)) == first && lpmCompactMonolite lpm page first idx

-- Leaving page `page`, whose pointer is slot `key` of `parent`: a page of one leaf becomes that leaf.
def lpmCompactPage (lpm : Lpm) (page parent : Nat) (key : UInt8) : Lpm :=
  match lpm.pages page 0 with
  | .value raw => if lpmCompactMonolite lpm page (.value raw) 255 then lpm.write parent key (.value raw) else lpm
  | .page _ => lpm

-- The `do … while` of `lpm_compact`: `lpmWalkAdvance`, checking each page it goes up from.
def lpmCompactAdvance (pages : Nat → Nat) : Lpm → Nat → (Nat → UInt8) → Lpm × Option (Nat × (Nat → UInt8))
  | lpm, hop, key =>
    let key := Function.update key hop (key hop + 1)
    if key hop = 0 then
      match hop with
      | 0 => (lpm, none)
      | hop + 1 => lpmCompactAdvance pages (lpmCompactPage lpm (pages (hop + 1)) (pages hop) (key hop)) hop key
    else (lpm, some (hop, key))

-- One round of the `while (1)` of `lpm_compact`.
def lpmCompactStep (state : LpmWalkState) : Lpm ⊕ LpmWalkState :=
  match state.lpm.pages (state.pages state.hop) (state.key state.hop) with
  | .page child => .inr (lpmWalkDescend state child)
  | .value _ =>
    match lpmCompactAdvance state.pages state.lpm state.hop state.key with
    | (lpm, none) => .inl lpm
    | (lpm, some (hop, key)) => .inr { state with lpm, hop, key }

def lpmCompactLoop : Nat → LpmWalkState → Option Lpm
  | 0, _ => none
  | fuel + 1, state =>
    match lpmCompactStep state with
    | .inl lpm => some lpm
    | .inr state => lpmCompactLoop fuel state

def lpmCompact (lpm : Lpm) (keySize : Nat) : Option Lpm :=
  lpmCompactLoop (lpmInsertFuel keySize) (lpmWalkInit lpm)

section Walk

variable {keySize : Nat}

theorem lpmWalkAdvance_eq_insert (hop : Nat) :
    ∀ key : Nat → UInt8, lpmWalkAdvance hop key = lpmInsertAdvance keySize (fun _ => 0xff) hop key := by
  have top : ∀ key hop, lpmInsertUpperBound keySize (fun _ => 0xff) key hop + 1 = 0 := by
    intro key hop
    unfold lpmInsertUpperBound
    split
    · show (0xff : UInt8) + 1 = 0
      rfl
    · rfl
  induction hop with
  | zero =>
    intro key
    rw [lpmWalkAdvance, lpmInsertAdvance, top]
  | succ hop ih =>
    intro key
    rw [lpmWalkAdvance, lpmInsertAdvance, top, ih]

theorem lpmWalkAdvance_spec (hop : Nat) (key : Nat → UInt8) (lt : hop < keySize) :
    (lpmWalkAdvance hop key = none ∧ blockLast keySize key hop = 256 ^ keySize - 1) ∨
    ∃ hop' key', lpmWalkAdvance hop key = some (hop', key') ∧ hop' ≤ hop ∧ (∀ j < hop', key' j = key j) ∧
      blockFirst keySize key' hop' = blockLast keySize key hop + 1 := by
  have bound := @value_lt (fill key hop 0xff) 0 keySize
  have within : blockLast keySize key hop ≤ value (fun _ => 0xff) 0 keySize := by
    rw [value_const_ff]
    unfold blockLast
    omega
  rw [@lpmWalkAdvance_eq_insert keySize]
  rcases lpmInsertAdvance_spec hop key lt within with ⟨done, last⟩ | ⟨hop', key', next, le, same, first, -⟩
  · exact .inl ⟨done, by rw [last, value_const_ff]⟩
  · exact .inr ⟨hop', key', next, le, same, first⟩

-- The walk's measure is `lpm_insert`'s: each round goes one level down or past a block.
def walkMeasure (keySize : Nat) (state : LpmWalkState) : Nat :=
  insertMeasure keySize { lpm := state.lpm, key := state.key, pages := state.pages, hop := state.hop, maxHop := 0 }

theorem walkMeasure_descend {state : LpmWalkState} (child : Nat) (deep : state.hop + 1 < keySize) :
    walkMeasure keySize (lpmWalkDescend state child) < walkMeasure keySize state := by
  have first := @blockFirst_update_succ state.key _ _ deep 0
  refine @insertMeasure_lt_of_deeper keySize _ _ ?_ rfl (show state.hop < keySize by omega)
  simp [lpmWalkDescend, first]

theorem walkMeasure_later {state : LpmWalkState} {lpm : Lpm} {hop : Nat} {key : Nat → UInt8}
    (later : blockFirst keySize state.key state.hop < blockFirst keySize key hop) :
    walkMeasure keySize { state with lpm, hop, key } < walkMeasure keySize state :=
  insertMeasure_lt_of_later later

theorem walkMeasure_init (lpm : Lpm) : walkMeasure keySize (lpmWalkInit lpm) < lpmInsertFuel keySize :=
  blockMeasure_lt keySize _ _

end Walk

section Remap

variable {keySize : Nat} {table : ValueTable} {before : Lpm} {state : LpmWalkState}

-- Every key below `bound` reads its old leaf remapped, every other key its old leaf.
def RemappedBelow (keySize : Nat) (table : ValueTable) (before : Lpm) (bound : Nat) (lpm : Lpm) : Prop :=
  ∀ x, lpmLookupFrom lpm x 0 0 keySize =
    if value x 0 keySize < bound then (lpmLookupFrom before x 0 0 keySize).map (lpmRemapValue table)
    else lpmLookupFrom before x 0 0 keySize

-- The remap's invariant: the trie and the stack stay valid, and the keys below the block the
-- walk stands on are remapped.
structure LpmRemapInv (keySize : Nat) (table : ValueTable) (before : Lpm) (state : LpmWalkState) : Prop where
  valid : state.lpm.Valid keySize
  stack : LpmStack state.lpm state.key state.pages state.hop
  hop_lt : state.hop < keySize
  remapped : RemappedBelow keySize table before (blockFirst keySize state.key state.hop) state.lpm

theorem lpmRemapStep_cases (table : ValueTable) (state : LpmWalkState) :
    (∃ child, state.lpm.pages (state.pages state.hop) (state.key state.hop) = .page child ∧
      lpmRemapStep table state = .inr (lpmWalkDescend state child)) ∨
    (∃ raw, state.lpm.pages (state.pages state.hop) (state.key state.hop) = .value raw ∧
      lpmWalkAdvance state.hop state.key = none ∧
      lpmRemapStep table state =
        .inl (state.lpm.write (state.pages state.hop) (state.key state.hop) (.value (lpmRemapValue table raw)))) ∨
    (∃ raw hop' key', state.lpm.pages (state.pages state.hop) (state.key state.hop) = .value raw ∧
      lpmWalkAdvance state.hop state.key = some (hop', key') ∧
      lpmRemapStep table state = .inr { state with
        lpm := state.lpm.write (state.pages state.hop) (state.key state.hop) (.value (lpmRemapValue table raw))
        hop := hop'
        key := key' }) := by
  unfold lpmRemapStep
  dsimp only
  cases slot : state.lpm.pages (state.pages state.hop) (state.key state.hop) with
  | page child => exact .inl ⟨child, rfl, rfl⟩
  | value raw =>
    cases next : lpmWalkAdvance state.hop state.key with
    | none => exact .inr (.inl ⟨raw, rfl, rfl, rfl⟩)
    | some pair => exact .inr (.inr ⟨raw, pair.1, pair.2, rfl, rfl, rfl⟩)

theorem lpmLookupFrom_stack_leaf {lpm : Lpm} {key : Nat → UInt8} {pages : Nat → Nat} {hop : Nat}
    (stack : LpmStack lpm key pages hop) {raw : UInt64} (leaf : lpm.pages (pages hop) (key hop) = .value raw)
    (lt : hop < keySize) {x : Nat → UInt8} (on : ∀ j ≤ hop, x j = key j) :
    lpmLookupFrom lpm x 0 0 keySize = some raw := by
  obtain ⟨m, hm⟩ : ∃ m, keySize - hop = m + 1 := ⟨keySize - hop - 1, by omega⟩
  rw [lpmLookupFrom_stack stack x (fun j below => on j below.le) lt.le, hm,
    lpmLookupFrom_value (by rw [on hop le_rfl]; exact leaf)]

theorem LpmRemapInv.write (inv : LpmRemapInv keySize table before state) {raw : UInt64}
    (leaf : state.lpm.pages (state.pages state.hop) (state.key state.hop) = .value raw) :
    RemappedBelow keySize table before (blockLast keySize state.key state.hop + 1)
      (state.lpm.write (state.pages state.hop) (state.key state.hop) (.value (lpmRemapValue table raw))) := by
  obtain ⟨owner, owned⟩ := inv.valid.owned
  have ordered := @blockFirst_le_blockLast state.key _ _ inv.hop_lt
  intro x
  rw [lpmLookupFrom_write_leaf owned inv.valid.root inv.stack leaf inv.hop_lt _ x]
  by_cases on : ∀ j ≤ state.hop, x j = state.key j
  · -- the key read this leaf, not yet remapped
    have inBlock := (mem_block_iff x inv.hop_lt).mp on
    have old := inv.remapped x
    rw [lpmLookupFrom_stack_leaf inv.stack leaf inv.hop_lt on, if_neg (by omega)] at old
    rw [if_pos on, if_pos (by omega), ← old, Option.map_some]
  · have outside : value x 0 keySize < blockFirst keySize state.key state.hop ∨
        blockLast keySize state.key state.hop < value x 0 keySize := by
      rcases Nat.lt_or_ge (value x 0 keySize) (blockFirst keySize state.key state.hop) with below | atLeast
      · exact .inl below
      · exact .inr (Nat.lt_of_not_le fun atMost => on ((mem_block_iff x inv.hop_lt).mpr ⟨atLeast, atMost⟩))
    have same : value x 0 keySize < blockFirst keySize state.key state.hop ↔
        value x 0 keySize < blockLast keySize state.key state.hop + 1 := by omega
    rw [if_neg on, inv.remapped x]
    simp only [same]

theorem LpmRemapInv.descend (inv : LpmRemapInv keySize table before state) {child : Nat}
    (slot : state.lpm.pages (state.pages state.hop) (state.key state.hop) = .page child) :
    LpmRemapInv keySize table before (lpmWalkDescend state child) := by
  have deep := inv.stack.deep inv.valid slot
  have first := @blockFirst_update_succ state.key _ _ deep 0
  refine ⟨inv.valid, inv.stack.descend slot 0, deep, ?_⟩
  simp only [lpmWalkDescend, first, UInt8.toNat_zero, Nat.zero_mul, Nat.add_zero]
  exact inv.remapped

theorem LpmRemapInv.step (inv : LpmRemapInv keySize table before state) :
    (∃ lpm, lpmRemapStep table state = .inl lpm ∧ lpm.Valid keySize ∧
      RemappedBelow keySize table before (256 ^ keySize) lpm) ∨
    ∃ next, lpmRemapStep table state = .inr next ∧ LpmRemapInv keySize table before next ∧
      walkMeasure keySize next < walkMeasure keySize state := by
  rcases lpmRemapStep_cases table state with ⟨child, slot, step⟩ | ⟨raw, slot, done, step⟩ |
    ⟨raw, hop', key', slot, next, step⟩
  · exact .inr ⟨_, step, inv.descend slot, walkMeasure_descend child (inv.stack.deep inv.valid slot)⟩
  · -- the last leaf of the trie
    rcases lpmWalkAdvance_spec state.hop state.key inv.hop_lt with ⟨-, last⟩ | ⟨_, _, again, -⟩
    · refine .inl ⟨_, step, inv.valid.write_value _ _ _, ?_⟩
      have written := inv.write slot
      rwa [last, Nat.sub_add_cancel (Nat.one_le_two_pow.trans (Nat.pow_le_pow_left (by omega) _))] at written
    · rw [done] at again
      cases again
  · rcases lpmWalkAdvance_spec state.hop state.key inv.hop_lt with ⟨none, -⟩ | ⟨_, _, again, le, same, first⟩
    · rw [none] at next
      cases next
    · rw [next, Option.some.injEq, Prod.mk.injEq] at again
      obtain ⟨rfl, rfl⟩ := again
      have lt : hop' < keySize := by have := inv.hop_lt; omega
      have ordered := @blockFirst_le_blockLast state.key _ _ inv.hop_lt
      refine .inr ⟨_, step, ⟨inv.valid.write_value _ _ _, (inv.stack.write_leaf slot _).restrict le same, lt, ?_⟩,
        walkMeasure_later (by omega)⟩
      dsimp only
      rw [first]
      exact inv.write slot

-- A run from a state of the invariant, with more fuel than its measure, remaps every key.
theorem lpmRemapInv_run (table : ValueTable) (fuel : Nat) :
    ∀ state, LpmRemapInv keySize table before state → walkMeasure keySize state < fuel →
      ∃ lpm, lpmRemapLoop table fuel state = some lpm ∧ lpm.Valid keySize ∧
        RemappedBelow keySize table before (256 ^ keySize) lpm := by
  induction fuel with
  | zero => exact fun _ _ enough => absurd enough (Nat.not_lt_zero _)
  | succ fuel ih =>
    intro state inv enough
    rcases inv.step with ⟨lpm, step, valid, remapped⟩ | ⟨next, step, inv', smaller⟩
    · exact ⟨lpm, by rw [lpmRemapLoop, step], valid, remapped⟩
    · rw [lpmRemapLoop, step]
      exact ih next inv' (by omega)

theorem lpmRemapInv_init {lpm : Lpm} (valid : lpm.Valid keySize) (pos : 0 < keySize) :
    LpmRemapInv keySize table lpm (lpmWalkInit lpm) := by
  have zero : blockFirst keySize (fun _ => 0) 0 = 0 := by
    unfold blockFirst fill
    simp [value_const_zero]
  refine ⟨valid, ⟨rfl, fun j lt => absurd lt (Nat.not_lt_zero j)⟩, pos, fun x => ?_⟩
  -- nothing is below the first key
  simp only [lpmWalkInit, zero, Nat.not_lt_zero, if_false]

theorem LpmOwned.lookupFrom_some {lpm : Lpm} {owner : Nat → List UInt8} (owned : LpmOwned keySize lpm owner)
    (x : Nat → UInt8) : ∀ (n p d : Nat), p < lpm.pageCount → owner p = keyPrefix x d → d + n = keySize → 0 < n →
      ∃ raw, lpmLookupFrom lpm x p d n = some raw
  | 0, _, _, _, _, _, pos => absurd pos (Nat.lt_irrefl 0)
  | n + 1, p, d, lt, path, total, _ => by
    cases slot : lpm.pages p (x d) with
    | value raw => exact ⟨raw, lpmLookupFrom_value slot⟩
    | page q =>
      obtain ⟨bound, label, depth⟩ := owned.child p lt (x d) q slot
      have deeper : owner q = keyPrefix x (d + 1) := by rw [label, path, keyPrefix_succ]
      rw [deeper, length_keyPrefix] at depth
      rw [lpmLookupFrom_page slot]
      exact owned.lookupFrom_some x n q (d + 1) bound deeper (by omega) (by omega)

theorem Lpm.Valid.lookupFrom_some {lpm : Lpm} (valid : lpm.Valid keySize) (pos : 0 < keySize) (x : Nat → UInt8) :
    ∃ raw, lpmLookupFrom lpm x 0 0 keySize = some raw :=
  let ⟨_, owned⟩ := valid.owned
  owned.lookupFrom_some x keySize 0 0 valid.root (by rw [owned.root]; rfl) (Nat.zero_add _) pos

theorem lpmRemap_spec {lpm : Lpm} (valid : lpm.Valid keySize) (pos : 0 < keySize) (table : ValueTable) :
    ∃ lpm', lpmRemap lpm keySize table = some lpm' ∧ lpm'.Valid keySize ∧
      ∀ x, lpmLookupFrom lpm' x 0 0 keySize = (lpmLookupFrom lpm x 0 0 keySize).map (lpmRemapValue table) := by
  obtain ⟨lpm', run, valid', remapped⟩ :=
    lpmRemapInv_run table _ (lpmWalkInit lpm) (lpmRemapInv_init valid pos) (walkMeasure_init lpm)
  refine ⟨lpm', run, valid', fun x => ?_⟩
  rw [remapped x, if_pos (value_lt _ _)]

end Remap

section Compact

variable {keySize : Nat} {before : Lpm}

theorem lpmCompactMonolite_spec (lpm : Lpm) (page : Nat) (first : LpmValue) :
    ∀ n, lpmCompactMonolite lpm page first n = true → ∀ i, 0 < i → i ≤ n → lpm.pages page (UInt8.ofNat i) = first
  | 0, _, i, pos, le => absurd le (by omega)
  | n + 1, all, i, pos, le => by
    rw [lpmCompactMonolite, Bool.and_eq_true, beq_iff_eq] at all
    rcases Nat.lt_or_eq_of_le le with below | rfl
    · exact lpmCompactMonolite_spec lpm page first n all.2 i pos (by omega)
    · exact all.1

theorem lpmCompactPage_cases (lpm : Lpm) (page parent : Nat) (key : UInt8) :
    lpmCompactPage lpm page parent key = lpm ∨
      ∃ raw, (∀ k, lpm.pages page k = .value raw) ∧ lpmCompactPage lpm page parent key = lpm.write parent key (.value raw) := by
  unfold lpmCompactPage
  cases first : lpm.pages page 0 with
  | page _ => exact .inl rfl
  | value raw =>
    dsimp only
    by_cases uniform : lpmCompactMonolite lpm page (.value raw) 255 = true
    · refine .inr ⟨raw, fun k => ?_, if_pos uniform⟩
      by_cases zero : k = 0
      · rw [zero, first]
      · have pos : 0 < k.toNat := Nat.pos_of_ne_zero fun h => zero (UInt8.toNat_inj.mp h)
        have le : k.toNat ≤ 255 := Nat.le_of_lt_succ k.toNat_lt
        rw [← @UInt8.ofNat_toNat k]
        exact lpmCompactMonolite_spec lpm page _ 255 uniform k.toNat pos le
    · exact .inl (if_neg uniform)

theorem LpmStack.ne_top {lpm : Lpm} {key : Nat → UInt8} {pages : Nat → Nat} {hop : Nat} {owner : Nat → List UInt8}
    (stack : LpmStack lpm key pages hop) (owned : LpmOwned keySize lpm owner) (root : 0 < lpm.pageCount) :
    ∀ j < hop, pages j ≠ pages hop := by
  intro j lt same
  have low := (stack.labels owned root j lt.le).2
  have top := (stack.labels owned root hop le_rfl).2
  rw [same, top] at low
  have lengths := congrArg List.length low
  rw [length_keyPrefix, length_keyPrefix] at lengths
  omega

theorem lpmLookupFrom_collapse {lpm : Lpm} {key : Nat → UInt8} {pages : Nat → Nat} {hop : Nat}
    {owner : Nat → List UInt8} (owned : LpmOwned keySize lpm owner) (root : 0 < lpm.pageCount)
    (stack : LpmStack lpm key pages hop) {q : Nat} (slot : lpm.pages (pages hop) (key hop) = .page q)
    {raw : UInt64} (uniform : ∀ k, lpm.pages q k = .value raw) {n : Nat} (lt : hop + 1 < n) (x : Nat → UInt8) :
    lpmLookupFrom (lpm.write (pages hop) (key hop) (.value raw)) x 0 0 n = lpmLookupFrom lpm x 0 0 n := by
  by_cases on : ∀ j ≤ hop, x j = key j
  · have kept : LpmStack (lpm.write (pages hop) (key hop) (.value raw)) key pages hop :=
      stack.congr fun j below => by
        rw [Lpm.write_pages, if_neg fun hit => stack.ne_top owned root j below hit.1]
    have top : (lpm.write (pages hop) (key hop) (.value raw)).pages (pages hop) (x hop) = .value raw := by
      rw [on hop le_rfl, Lpm.write_pages, if_pos ⟨rfl, rfl⟩]
    have pointer : lpm.pages (pages hop) (x hop) = .page q := by rw [on hop le_rfl, slot]
    obtain ⟨m, hm⟩ : ∃ m, n - hop = m + 2 := ⟨n - hop - 2, by omega⟩
    rw [lpmLookupFrom_stack kept x (fun j below => on j below.le) (by omega),
      lpmLookupFrom_stack stack x (fun j below => on j below.le) (by omega), hm, lpmLookupFrom_page pointer,
      lpmLookupFrom_value (uniform _), lpmLookupFrom_value top]
  · exact lpmLookupFrom_off_path owned root stack x on (fun p _ k miss => by rw [Lpm.write_pages, if_neg miss]) n

-- What the compact leaves of a slot: the slot as it was, or in place of a pointer a leaf that every
-- key below the pointer read before.
def CompactFrame (keySize : Nat) (before lpm : Lpm) : Prop :=
  ∀ p k, lpm.pages p k = before.pages p k ∨
    ∃ q raw, before.pages p k = .page q ∧ lpm.pages p k = .value raw ∧
      ∀ owner, LpmOwned keySize before owner → ∀ x, keyPrefix x (owner q).length = owner q →
        lpmLookupFrom before x q (owner q).length (keySize - (owner q).length) = some raw

-- What the compact keeps of the trie all along.
structure CompactKept (keySize : Nat) (before lpm : Lpm) : Prop where
  valid : lpm.Valid keySize
  count : lpm.pageCount = before.pageCount
  lookups : ∀ x, lpmLookupFrom lpm x 0 0 keySize = lpmLookupFrom before x 0 0 keySize
  frame : CompactFrame keySize before lpm

theorem compactKept_refl {lpm : Lpm} (valid : lpm.Valid keySize) : CompactKept keySize lpm lpm :=
  ⟨valid, rfl, fun _ => rfl, fun _ _ => .inl rfl⟩

theorem CompactKept.owned {lpm : Lpm} (kept : CompactKept keySize before lpm) {owner : Nat → List UInt8}
    (owned : LpmOwned keySize before owner) : LpmOwned keySize lpm owner := by
  refine ⟨owned.root, fun p lt k q slot => ?_⟩
  rcases kept.frame p k with same | ⟨_, _, _, leaf, -⟩
  · rw [kept.count]
    exact owned.child p (kept.count ▸ lt) k q (same ▸ slot)
  · rw [leaf] at slot
    cases slot

theorem LpmStack.of_kept {lpm : Lpm} {key : Nat → UInt8} {pages : Nat → Nat} {hop : Nat}
    (kept : CompactKept keySize before lpm) (stack : LpmStack lpm key pages hop) : LpmStack before key pages hop := by
  refine ⟨stack.1, fun j lt => ?_⟩
  have pointer := stack.2 j lt
  rcases kept.frame (pages j) (key j) with same | ⟨_, _, _, leaf, -⟩
  · rw [← same]
    exact pointer
  · rw [leaf] at pointer
    cases pointer

theorem CompactKept.collapse {lpm : Lpm} {key : Nat → UInt8} {pages : Nat → Nat} {hop : Nat}
    (kept : CompactKept keySize before lpm) (stack : LpmStack lpm key pages (hop + 1)) (deep : hop + 1 < keySize) :
    CompactKept keySize before (lpmCompactPage lpm (pages (hop + 1)) (pages hop) (key hop)) ∧
      LpmStack (lpmCompactPage lpm (pages (hop + 1)) (pages hop) (key hop)) key pages hop := by
  have below : LpmStack lpm key pages hop := stack.restrict (Nat.le_succ hop) fun _ _ => rfl
  rcases lpmCompactPage_cases lpm (pages (hop + 1)) (pages hop) (key hop) with same | ⟨raw, uniform, collapsed⟩
  · rw [same]
    exact ⟨kept, below⟩
  rw [collapsed]
  obtain ⟨owner, owned⟩ := kept.valid.owned
  have slot := stack.2 hop (Nat.lt_succ_self hop)
  have root := kept.valid.root
  refine ⟨⟨kept.valid.write_value _ _ _, kept.count, fun x => ?_, fun p k => ?_⟩,
    below.congr fun j lt => by rw [Lpm.write_pages, if_neg fun hit => below.ne_top owned root j lt hit.1]⟩
  · rw [lpmLookupFrom_collapse owned root below slot uniform deep x]
    exact kept.lookups x
  · rw [Lpm.write_pages]
    split
    · -- the written slot: a pointer before too, to a page all of whose keys read the leaf
      rename_i hit
      obtain ⟨rfl, rfl⟩ := hit
      have was : before.pages (pages hop) (key hop) = .page (pages (hop + 1)) :=
        (stack.of_kept kept).2 hop (Nat.lt_succ_self hop)
      refine .inr ⟨_, raw, was, rfl, fun owner' owned' x path => ?_⟩
      have label := ((stack.labels (kept.owned owned') root) (hop + 1) le_rfl).2
      rw [label, length_keyPrefix, keyPrefix_eq_iff] at path
      have on : ∀ j ≤ hop, x j = key j := fun j le => path j (by omega)
      obtain ⟨m, hm⟩ : ∃ m, keySize - (hop + 1) = m + 1 := ⟨keySize - (hop + 1) - 1, by omega⟩
      have now := kept.lookups x
      rw [lpmLookupFrom_stack stack x (fun j lt => path j lt) deep.le, hm, lpmLookupFrom_value (uniform _),
        lpmLookupFrom_stack (stack.of_kept kept) x (fun j lt => path j lt) deep.le, hm] at now
      rw [label, length_keyPrefix, hm, ← now]
    · exact kept.frame p k

theorem lpmCompactAdvance_spec (pages : Nat → Nat) (hop : Nat) : ∀ (lpm : Lpm) (key : Nat → UInt8),
    CompactKept keySize before lpm → LpmStack lpm key pages hop → hop < keySize →
      (lpmCompactAdvance pages lpm hop key).2 = lpmWalkAdvance hop key ∧
      CompactKept keySize before (lpmCompactAdvance pages lpm hop key).1 ∧
      ∀ hop' key', lpmWalkAdvance hop key = some (hop', key') →
        LpmStack (lpmCompactAdvance pages lpm hop key).1 key' pages hop' := by
  induction hop with
  | zero =>
    intro lpm key kept stack _
    rw [lpmCompactAdvance, lpmWalkAdvance]
    split
    · exact ⟨rfl, kept, fun _ _ none => by cases none⟩
    · refine ⟨rfl, kept, fun hop' key' next => ?_⟩
      rw [Option.some.injEq, Prod.mk.injEq] at next
      obtain ⟨rfl, rfl⟩ := next
      exact ⟨stack.1, fun j lt => absurd lt (Nat.not_lt_zero j)⟩
  | succ hop ih =>
    intro lpm key kept stack lt
    rw [lpmCompactAdvance, lpmWalkAdvance]
    split
    · -- the byte wrapped: the page is left, and the walk goes on one level up
      obtain ⟨kept', below⟩ := kept.collapse stack lt
      have same : Function.update key (hop + 1) (key (hop + 1) + 1) hop = key hop :=
        Function.update_of_ne (by omega) _ _
      rw [same]
      exact ih _ _ kept' (below.restrict le_rfl fun j _ => Function.update_of_ne (by omega) _ _) (by omega)
    · refine ⟨rfl, kept, fun hop' key' next => ?_⟩
      rw [Option.some.injEq, Prod.mk.injEq] at next
      obtain ⟨rfl, rfl⟩ := next
      exact stack.restrict le_rfl fun j lt => Function.update_of_ne (by omega) _ _

-- The compact's invariant: what it keeps of the trie, and its stack.
structure LpmCompactInv (keySize : Nat) (before : Lpm) (state : LpmWalkState) : Prop where
  kept : CompactKept keySize before state.lpm
  stack : LpmStack state.lpm state.key state.pages state.hop
  hop_lt : state.hop < keySize

theorem lpmCompactStep_cases (state : LpmWalkState) :
    (∃ child, state.lpm.pages (state.pages state.hop) (state.key state.hop) = .page child ∧
      lpmCompactStep state = .inr (lpmWalkDescend state child)) ∨
    (∃ raw, state.lpm.pages (state.pages state.hop) (state.key state.hop) = .value raw ∧
      (lpmCompactAdvance state.pages state.lpm state.hop state.key).2 = none ∧
      lpmCompactStep state = .inl (lpmCompactAdvance state.pages state.lpm state.hop state.key).1) ∨
    (∃ raw hop' key', state.lpm.pages (state.pages state.hop) (state.key state.hop) = .value raw ∧
      (lpmCompactAdvance state.pages state.lpm state.hop state.key).2 = some (hop', key') ∧
      lpmCompactStep state = .inr { state with
        lpm := (lpmCompactAdvance state.pages state.lpm state.hop state.key).1, hop := hop', key := key' }) := by
  unfold lpmCompactStep
  cases slot : state.lpm.pages (state.pages state.hop) (state.key state.hop) with
  | page child => exact .inl ⟨child, rfl, rfl⟩
  | value raw =>
    dsimp only
    cases advance : lpmCompactAdvance state.pages state.lpm state.hop state.key with
    | mk lpm next =>
      cases next with
      | none => exact .inr (.inl ⟨raw, rfl, rfl, rfl⟩)
      | some pair => exact .inr (.inr ⟨raw, pair.1, pair.2, rfl, rfl, rfl⟩)

theorem LpmCompactInv.step {state : LpmWalkState} (inv : LpmCompactInv keySize before state) :
    (∃ lpm, lpmCompactStep state = .inl lpm ∧ CompactKept keySize before lpm) ∨
    ∃ next, lpmCompactStep state = .inr next ∧ LpmCompactInv keySize before next ∧
      walkMeasure keySize next < walkMeasure keySize state := by
  obtain ⟨moves, kept', stack'⟩ :=
    lpmCompactAdvance_spec state.pages state.hop state.lpm state.key inv.kept inv.stack inv.hop_lt
  rcases lpmCompactStep_cases state with ⟨child, slot, step⟩ | ⟨raw, slot, done, step⟩ |
    ⟨raw, hop', key', slot, next, step⟩
  · -- a page: one level down, never below the last level
    have deep := inv.stack.deep inv.kept.valid slot
    exact .inr ⟨_, step, ⟨inv.kept, inv.stack.descend slot 0, deep⟩, walkMeasure_descend child deep⟩
  · exact .inl ⟨_, step, kept'⟩
  · rw [moves] at next
    rcases lpmWalkAdvance_spec state.hop state.key inv.hop_lt with ⟨none, -⟩ | ⟨_, _, again, le, -, first⟩
    · rw [none] at next
      cases next
    · rw [next, Option.some.injEq, Prod.mk.injEq] at again
      obtain ⟨rfl, rfl⟩ := again
      have ordered := @blockFirst_le_blockLast state.key _ _ inv.hop_lt
      exact .inr ⟨_, step, ⟨kept', stack' hop' key' next, by have := inv.hop_lt; dsimp only; omega⟩,
        walkMeasure_later (by omega)⟩

theorem lpmCompactInv_run (fuel : Nat) :
    ∀ state, LpmCompactInv keySize before state → walkMeasure keySize state < fuel →
      ∃ lpm, lpmCompactLoop fuel state = some lpm ∧ CompactKept keySize before lpm := by
  induction fuel with
  | zero => exact fun _ _ enough => absurd enough (Nat.not_lt_zero _)
  | succ fuel ih =>
    intro state inv enough
    rcases inv.step with ⟨lpm, step, kept⟩ | ⟨next, step, inv', smaller⟩
    · exact ⟨lpm, by rw [lpmCompactLoop, step], kept⟩
    · rw [lpmCompactLoop, step]
      exact ih next inv' (by omega)

theorem lpmCompact_spec {lpm : Lpm} (valid : lpm.Valid keySize) (pos : 0 < keySize) :
    ∃ lpm', lpmCompact lpm keySize = some lpm' ∧ CompactKept keySize lpm lpm' :=
  lpmCompactInv_run _ (lpmWalkInit lpm)
    ⟨compactKept_refl valid, ⟨rfl, fun j lt => absurd lt (Nat.not_lt_zero j)⟩, pos⟩ (walkMeasure_init lpm)

end Compact

theorem lpm_remap_compact_lookups {keySize : Nat} {lpm : Lpm} (valid : lpm.Valid keySize) (pos : 0 < keySize)
    (table : ValueTable) (wide : ∀ x, (lpmLookup lpm keySize x).toNat < table.hDim)
    (small : ∀ h < table.hDim, valueTableGet table 0 h < 2 ^ 31) :
    (∃ lpm', lpmRemap lpm keySize table = some lpm' ∧
      ∀ x, lpmLookup lpm' keySize x = UInt32.ofNat (valueTableGet table 0 (lpmLookup lpm keySize x).toNat)) ∧
    ∃ lpm', lpmCompact lpm keySize = some lpm' ∧ (∀ x, lpmLookup lpm' keySize x = lpmLookup lpm keySize x) ∧
      CompactFrame keySize lpm lpm' := by
  obtain ⟨remapped, run, -, reads⟩ := lpmRemap_spec valid pos table
  obtain ⟨compacted, run', kept⟩ := lpmCompact_spec valid pos
  refine ⟨⟨remapped, run, fun x => ?_⟩, compacted, run', fun x => by rw [lpmLookup, lpmLookup, kept.lookups x],
    kept.frame⟩
  obtain ⟨raw, found⟩ := valid.lookupFrom_some pos x
  have stored : lpmLookup lpm keySize x = lpmValueGet raw := by
    rw [lpmLookup, found]
    rfl
  -- the entry fits in 31 bits, so `LPM_VALUE_SET` keeps all of it
  have fits : (UInt32.ofNat (valueTableGet table 0 (lpmValueGet raw).toNat)).toNat < 2 ^ 31 := by
    have entry := small _ (stored ▸ wide x)
    rw [UInt32.toNat_ofNat_of_lt' (Nat.lt_trans entry (by decide))]
    exact entry
  rw [lpmLookup, reads x, found, stored, Option.map_some, Option.map_some, Option.getD_some, lpmRemapValue,
    lpmValueGet_set fits]

def lpmUniform (raw : UInt64) : Lpm := ⟨fun _ _ => .value raw, 1⟩

theorem lpmUniform_valid (keySize : Nat) (raw : UInt64) : (lpmUniform raw).Valid keySize :=
  ⟨Nat.one_pos, fun _ => [], rfl, fun _ _ _ _ slot => by simp [lpmUniform] at slot⟩

theorem lpmLookup_uniform (n : Nat) (raw : UInt64) (x : Nat → UInt8) :
    lpmLookup (lpmUniform raw) (n + 1) x = lpmValueGet raw := by
  rw [lpmLookup, lpmLookupFrom_value rfl]
  rfl

def remapHalves : ValueTable := ⟨1, 2 ^ 32, fun h => h / 2⟩

theorem lpm_remap_compact_lookups_split16 :
    lpmSplit16.Valid 2 ∧ 0 < 2 ∧ (∀ x, (lpmLookup lpmSplit16 2 x).toNat < remapHalves.hDim) ∧
    (∀ h < remapHalves.hDim, valueTableGet remapHalves 0 h < 2 ^ 31) ∧
    ((∃ lpm', lpmRemap lpmSplit16 2 remapHalves = some lpm' ∧
      ∀ x, lpmLookup lpm' 2 x = UInt32.ofNat (valueTableGet remapHalves 0 (lpmLookup lpmSplit16 2 x).toNat)) ∧
    ∃ lpm', lpmCompact lpmSplit16 2 = some lpm' ∧ (∀ x, lpmLookup lpm' 2 x = lpmLookup lpmSplit16 2 x) ∧
      CompactFrame 2 lpmSplit16 lpm') := by
  have valid := lpmSplit16_reachable.valid (by decide)
  have wide : ∀ x, (lpmLookup lpmSplit16 2 x).toNat < remapHalves.hDim := fun x => UInt32.toNat_lt _
  have small : ∀ h < remapHalves.hDim, valueTableGet remapHalves 0 h < 2 ^ 31 := fun h below => by
    simp only [valueTableGet, valueTableGetPtr, remapHalves] at below ⊢
    omega
  exact ⟨valid, by decide, wide, small, lpm_remap_compact_lookups valid (by decide) remapHalves wide small⟩

-- A table entry of `2 ^ 31` reads back as 0: `LPM_VALUE_SET` shifts its top bit out of 32 bits.
def remapTopBit : ValueTable := ⟨1, 1, fun _ => 2 ^ 31⟩

theorem lpm_remap_drops_top_bit :
    (∀ x, (lpmLookup (lpmUniform (lpmValueSet 0)) 1 x).toNat < remapTopBit.hDim) ∧
    ∃ lpm', lpmRemap (lpmUniform (lpmValueSet 0)) 1 remapTopBit = some lpm' ∧
      ∀ x, lpmLookup lpm' 1 x = 0 ∧
        valueTableGet remapTopBit 0 (lpmLookup (lpmUniform (lpmValueSet 0)) 1 x).toNat = 2 ^ 31 := by
  obtain ⟨lpm', run, -, reads⟩ := lpmRemap_spec (lpmUniform_valid 1 (lpmValueSet 0)) Nat.one_pos remapTopBit
  refine ⟨fun x => ?_, lpm', run, fun x => ⟨?_, ?_⟩⟩
  · rw [lpmLookup_uniform 0]
    decide
  · rw [lpmLookup, reads x, lpmLookupFrom_value rfl]
    decide
  · rw [lpmLookup_uniform 0]
    rfl

end Yanet
