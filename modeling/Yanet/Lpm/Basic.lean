import Yanet.Lib.BigEndian

set_option autoImplicit false

-- The LPM trie of `common/lpm.h`. A page has 256 slots; a slot holds a value, with the flag bit
-- set, or a child page one byte deeper. `lpm_lookup` reads one byte of the key per level until it
-- meets a value. `lpm_insert` maps a range of big-endian keys to a value. It walks the slots of the
-- range in key order with an explicit stack of pages. A leaf that the range covers only in part
-- is split into a page of copies of its value. Pages are allocated in chunks of 16, and allocating
-- a chunk may fail.

namespace Yanet

open BigEndian

def LPM_VALUE_INVALID : UInt32 := 0xffffffff

def LPM_CHUNK_SIZE : Nat := 16

-- `LPM_VALUE_SET`, shifted and flagged in 32 bits as the macro computes it on a `uint32_t`.
def lpmValueSet (value : UInt32) : UInt64 := ((value <<< 1) ||| 1).toUInt64

-- `LPM_VALUE_GET`, truncated to the `uint32_t` that `lpm_lookup` returns.
def lpmValueGet (raw : UInt64) : UInt32 := (raw >>> 1).toUInt32

-- `union lpm_value`, told apart by `LPM_VALUE_FLAG`: page pointers are aligned, so their low
-- bit is clear.
inductive LpmValue where
  | value (raw : UInt64)
  | page (idx : Nat)
deriving DecidableEq, Repr

structure Lpm where
  pages : Nat → UInt8 → LpmValue
  pageCount : Nat

def Lpm.write (lpm : Lpm) (page : Nat) (key : UInt8) (v : LpmValue) : Lpm :=
  { lpm with pages := Function.update lpm.pages page (Function.update (lpm.pages page) key v) }

def Lpm.push (lpm : Lpm) (page : UInt8 → LpmValue) : Lpm :=
  { pages := Function.update lpm.pages lpm.pageCount page, pageCount := lpm.pageCount + 1 }

-- `lpm_new_page`. When the page count is a multiple of the chunk size a chunk is allocated, and
-- `alloc` says whether that succeeds. The new page is filled with `0xff` bytes or, when it splits
-- the leaf `slot`, with copies of the leaf's value; the leaf then points to it.
def lpmNewPage (alloc : Nat → Bool) (lpm : Lpm) (slot : Option (Nat × UInt8)) : Option Lpm :=
  if lpm.pageCount % LPM_CHUNK_SIZE = 0 ∧ alloc lpm.pageCount = false then none
  else
    match slot with
    | none => some (lpm.push fun _ => .value 0xffffffffffffffff)
    | some (page, key) => some ((lpm.push fun _ => lpm.pages page key).write page key (.page lpm.pageCount))

-- `lpm_init`: the root page, every slot invalid.
def lpmInit (alloc : Nat → Bool) : Option Lpm := lpmNewPage alloc ⟨fun _ _ => .value 0, 0⟩ none

-- The loop of `lpm_lookup` from page `page` at byte `hop`, with `n` levels left: the raw value
-- it stops at, or `none` if every level held a page.
def lpmLookupFrom (lpm : Lpm) (key : Nat → UInt8) : Nat → Nat → Nat → Option UInt64
  | _, _, 0 => none
  | page, hop, n + 1 =>
    match lpm.pages page (key hop) with
    | .value raw => some raw
    | .page child => lpmLookupFrom lpm key child (hop + 1) n

-- `lpm_lookup`. Running out of levels on a page pointer would read the pointer's bits; a trie
-- built by `lpm_insert` has no page at its last level.
def lpmLookup (lpm : Lpm) (keySize : Nat) (key : Nat → UInt8) : UInt32 :=
  ((lpmLookupFrom lpm key 0 0 keySize).map lpmValueGet).getD LPM_VALUE_INVALID

-- The loop of `filter_key_cmp` (`common/key.h`) from byte `i`, with `n` bytes left.
def filterKeyCmpFrom (l r : Nat → UInt8) (i : Nat) : Nat → Int
  | 0 => 0
  | n + 1 => if l i < r i then -1 else if l i > r i then 1 else filterKeyCmpFrom l r (i + 1) n

def filterKeyCmp (keySize : Nat) (l r : Nat → UInt8) : Int := filterKeyCmpFrom l r 0 keySize

-- `lpm_check_range_lo`: `-1` when the slot's first key lies below `from`.
def lpmCheckRangeLo (keySize : Nat) (key fromKey : Nat → UInt8) (hop : Nat) : Int :=
  if filterKeyCmp keySize (fill key hop 0) fromKey < 0 then -1 else 0

-- `lpm_check_range_hi`: `-1` when the slot's last key lies above `to`.
def lpmCheckRangeHi (keySize : Nat) (key toKey : Nat → UInt8) (hop : Nat) : Int :=
  if filterKeyCmp keySize (fill key hop 0xff) toKey > 0 then -1 else 0

-- The locals of `lpm_insert`: the key being walked, the page at each level and the deepest
-- level reached so far.
structure LpmInsertState where
  lpm : Lpm
  key : Nat → UInt8
  pages : Nat → Nat
  hop : Nat
  maxHop : Nat

-- Going one level down into `child`: a level is entered at `from`'s byte the first time it is
-- reached, and at 0 afterwards.
def lpmInsertDescend (fromKey : Nat → UInt8) (state : LpmInsertState) (child : Nat) : LpmInsertState :=
  if state.hop + 1 > state.maxHop then
    { state with hop := state.hop + 1, maxHop := state.hop + 1,
                 key := Function.update state.key (state.hop + 1) (fromKey (state.hop + 1)),
                 pages := Function.update state.pages (state.hop + 1) child }
  else
    { state with hop := state.hop + 1, key := Function.update state.key (state.hop + 1) 0,
                 pages := Function.update state.pages (state.hop + 1) child }

-- `upper_bound` of the advance: the last byte of level `hop` that the range may reach.
def lpmInsertUpperBound (keySize : Nat) (toKey key : Nat → UInt8) (hop : Nat) : UInt8 :=
  if lpmCheckRangeHi keySize key toKey hop ≠ 0 then toKey hop else 0xff

-- The `do … while` of `lpm_insert`: the next slot to visit, or `none` when level 0 is done.
def lpmInsertAdvance (keySize : Nat) (toKey : Nat → UInt8) : Nat → (Nat → UInt8) → Option (Nat × (Nat → UInt8))
  | hop, key =>
    let key := Function.update key hop (key hop + 1)
    if key hop = lpmInsertUpperBound keySize toKey key hop + 1 then
      match hop with
      | 0 => none
      | hop + 1 => lpmInsertAdvance keySize toKey hop key
    else some (hop, key)

-- One round of the `while (1)` of `lpm_insert`: what it returns, or the state of the next round.
def lpmInsertStep (alloc : Nat → Bool) (keySize : Nat) (fromKey toKey : Nat → UInt8) (value : UInt32)
    (state : LpmInsertState) : (Int × Lpm) ⊕ LpmInsertState :=
  let page := state.pages state.hop
  match state.lpm.pages page (state.key state.hop) with
  | .value _ =>
    if state.hop < keySize - 1 ∧ (lpmCheckRangeLo keySize state.key fromKey state.hop ≠ 0 ∨
        lpmCheckRangeHi keySize state.key toKey state.hop ≠ 0) then
      match lpmNewPage alloc state.lpm (some (page, state.key state.hop)) with
      | none => .inl (-1, state.lpm)
      | some lpm => .inr (lpmInsertDescend fromKey { state with lpm } state.lpm.pageCount)
    else
      let lpm := state.lpm.write page (state.key state.hop) (.value (lpmValueSet value))
      match lpmInsertAdvance keySize toKey state.hop state.key with
      | none => .inl (0, lpm)
      | some (hop, key) => .inr { state with lpm, hop, key }
  | .page child => .inr (lpmInsertDescend fromKey state child)

-- The `while (1)` of `lpm_insert`; `none` if `fuel` runs out first.
def lpmInsertLoop (alloc : Nat → Bool) (keySize : Nat) (fromKey toKey : Nat → UInt8) (value : UInt32) :
    Nat → LpmInsertState → Option (Int × Lpm)
  | 0, _ => none
  | fuel + 1, state =>
    match lpmInsertStep alloc keySize fromKey toKey value state with
    | .inl result => some result
    | .inr state => lpmInsertLoop alloc keySize fromKey toKey value fuel state

-- Every round either goes one level down or moves past a slot of the range, so this many
-- rounds suffice.
def lpmInsertFuel (keySize : Nat) : Nat := 256 ^ keySize * (keySize + 1) + keySize + 1

-- `lpm_insert`: `0` on success, `-1` when a page allocation fails.
def lpmInsert (alloc : Nat → Bool) (lpm : Lpm) (keySize : Nat) (fromKey toKey : Nat → UInt8) (value : UInt32) :
    Option (Int × Lpm) :=
  lpmInsertLoop alloc keySize fromKey toKey value (lpmInsertFuel keySize)
    { lpm, key := Function.update (fun _ => 0) 0 (fromKey 0), pages := fun _ => 0, hop := 0, maxHop := 0 }

section Slots

variable (lpm : Lpm)

@[simp] theorem Lpm.write_pageCount (page : Nat) (key : UInt8) (v : LpmValue) :
    (lpm.write page key v).pageCount = lpm.pageCount := rfl

theorem Lpm.write_pages (page : Nat) (key : UInt8) (v : LpmValue) (p : Nat) (k : UInt8) :
    (lpm.write page key v).pages p k = if p = page ∧ k = key then v else lpm.pages p k := by
  unfold Lpm.write
  by_cases samePage : p = page
  · subst samePage
    by_cases sameKey : k = key
    · simp [sameKey]
    · simp [sameKey]
  · simp [samePage]

@[simp] theorem Lpm.push_pageCount (page : UInt8 → LpmValue) : (lpm.push page).pageCount = lpm.pageCount + 1 := rfl

theorem Lpm.push_pages (page : UInt8 → LpmValue) (p : Nat) (k : UInt8) :
    (lpm.push page).pages p k = if p = lpm.pageCount then page k else lpm.pages p k := by
  unfold Lpm.push
  by_cases fresh : p = lpm.pageCount
  · simp [fresh]
  · simp [fresh]

end Slots

section NewPage

variable {alloc : Nat → Bool} {lpm lpm' : Lpm}

theorem lpmNewPage_eq_none_iff (slot : Option (Nat × UInt8)) :
    lpmNewPage alloc lpm slot = none ↔ lpm.pageCount % LPM_CHUNK_SIZE = 0 ∧ alloc lpm.pageCount = false := by
  unfold lpmNewPage
  split
  · simpa
  · rename_i allocated
    cases slot <;> simpa using allocated

theorem lpmNewPage_split {page : Nat} {key : UInt8} (ok : lpmNewPage alloc lpm (some (page, key)) = some lpm') :
    lpm' = (lpm.push fun _ => lpm.pages page key).write page key (.page lpm.pageCount) := by
  unfold lpmNewPage at ok
  split at ok
  · cases ok
  · exact (Option.some.inj ok).symm

theorem lpmNewPage_split_pages {page : Nat} {key : UInt8} (ok : lpmNewPage alloc lpm (some (page, key)) = some lpm')
    (p : Nat) (k : UInt8) :
    lpm'.pages p k = if p = page ∧ k = key then .page lpm.pageCount
      else if p = lpm.pageCount then lpm.pages page key else lpm.pages p k := by
  rw [lpmNewPage_split ok, Lpm.write_pages, Lpm.push_pages]

theorem lpmNewPage_split_pageCount {page : Nat} {key : UInt8} (ok : lpmNewPage alloc lpm (some (page, key)) = some lpm') :
    lpm'.pageCount = lpm.pageCount + 1 := by
  rw [lpmNewPage_split ok, Lpm.write_pageCount, Lpm.push_pageCount]

end NewPage

section Compare

variable (l r : Nat → UInt8)

theorem filterKeyCmpFrom_swap (i n : Nat) : filterKeyCmpFrom r l i n = -filterKeyCmpFrom l r i n := by
  induction n generalizing i with
  | zero => rfl
  | succ n ih =>
    unfold filterKeyCmpFrom
    by_cases less : l i < r i
    · have notMore : ¬r i < l i := UInt8.lt_asymm less
      simp [less, notMore]
    · by_cases more : r i < l i
      · simp [less, more]
      · simp [less, more, ih]

theorem filterKeyCmpFrom_neg_iff (i n : Nat) : filterKeyCmpFrom l r i n < 0 ↔ value l i n < value r i n := by
  induction n generalizing i with
  | zero => simp [filterKeyCmpFrom]
  | succ n ih =>
    unfold filterKeyCmpFrom
    by_cases less : l i < r i
    · rw [if_pos less]
      exact iff_of_true (by decide) (value_lt_of_byte_lt less)
    · by_cases more : l i > r i
      · rw [if_neg less, if_pos more]
        exact iff_of_false (by decide) (Nat.not_lt.mpr (Nat.le_of_lt (value_lt_of_byte_lt more)))
      · have same : l i = r i := by
          simp only [gt_iff_lt, UInt8.lt_iff_toNat_lt] at less more
          exact UInt8.toNat_inj.mp (by omega)
        rw [if_neg less, if_neg more, ih, value_succ_lt_iff_of_eq same]

theorem filterKeyCmpFrom_pos_iff (i n : Nat) : filterKeyCmpFrom l r i n > 0 ↔ value r i n < value l i n := by
  rw [← filterKeyCmpFrom_neg_iff, filterKeyCmpFrom_swap]
  omega

end Compare

section Check

variable {keySize hop : Nat} {key : Nat → UInt8}

theorem lpmCheckRangeLo_ne_zero_iff (fromKey : Nat → UInt8) :
    lpmCheckRangeLo keySize key fromKey hop ≠ 0 ↔ blockFirst keySize key hop < value fromKey 0 keySize := by
  unfold lpmCheckRangeLo filterKeyCmp blockFirst
  rw [← filterKeyCmpFrom_neg_iff]
  by_cases below : filterKeyCmpFrom (fill key hop 0) fromKey 0 keySize < 0
  · simp [below]
  · simp [below]

theorem lpmCheckRangeHi_ne_zero_iff (toKey : Nat → UInt8) :
    lpmCheckRangeHi keySize key toKey hop ≠ 0 ↔ value toKey 0 keySize < blockLast keySize key hop := by
  unfold lpmCheckRangeHi filterKeyCmp blockLast
  rw [← filterKeyCmpFrom_pos_iff]
  by_cases above : filterKeyCmpFrom (fill key hop 0xff) toKey 0 keySize > 0
  · simp [above]
  · simp [above]

end Check

def keyPrefix (key : Nat → UInt8) (d : Nat) : List UInt8 := (List.range d).map key

section KeyPrefix

variable {x y : Nat → UInt8} {d : Nat}

@[simp] theorem length_keyPrefix : (keyPrefix x d).length = d := by simp [keyPrefix]

theorem keyPrefix_succ : keyPrefix x (d + 1) = keyPrefix x d ++ [x d] := by
  simp [keyPrefix, List.range_succ]

theorem keyPrefix_eq_iff : keyPrefix x d = keyPrefix y d ↔ ∀ j < d, x j = y j := by
  simp [keyPrefix, List.map_inj_left]

end KeyPrefix

-- Every page pointer leads to an allocated page one byte deeper, labelled by `owner` with the
-- bytes that lead to it, and no page sits at the last level.
structure LpmOwned (keySize : Nat) (lpm : Lpm) (owner : Nat → List UInt8) : Prop where
  root : owner 0 = []
  child : ∀ p < lpm.pageCount, ∀ k q, lpm.pages p k = .page q →
    q < lpm.pageCount ∧ owner q = owner p ++ [k] ∧ (owner q).length < keySize

structure Lpm.Valid (keySize : Nat) (lpm : Lpm) : Prop where
  root : 0 < lpm.pageCount
  owned : ∃ owner, LpmOwned keySize lpm owner

-- The stack of `lpm_insert`: `pages 0` is the root, and the slot of `key` at each level above
-- `hop` points to the next level's page.
def LpmStack (lpm : Lpm) (key : Nat → UInt8) (pages : Nat → Nat) (hop : Nat) : Prop :=
  pages 0 = 0 ∧ ∀ j < hop, lpm.pages (pages j) (key j) = .page (pages (j + 1))

section Lookup

variable {keySize : Nat} {lpm lpm' : Lpm} {owner : Nat → List UInt8}

theorem lpmLookupFrom_value {x : Nat → UInt8} {p d n : Nat} {raw : UInt64} (slot : lpm.pages p (x d) = .value raw) :
    lpmLookupFrom lpm x p d (n + 1) = some raw := by
  rw [lpmLookupFrom, slot]

theorem lpmLookupFrom_page {x : Nat → UInt8} {p d n q : Nat} (slot : lpm.pages p (x d) = .page q) :
    lpmLookupFrom lpm x p d (n + 1) = lpmLookupFrom lpm x q (d + 1) n := by
  rw [lpmLookupFrom, slot]

theorem lpmLookupFrom_eq_of_agree (owned : LpmOwned keySize lpm owner) (x : Nat → UInt8)
    (agree : ∀ p < lpm.pageCount, owner p = keyPrefix x (owner p).length →
      lpm'.pages p (x (owner p).length) = lpm.pages p (x (owner p).length))
    {p d : Nat} (lt : p < lpm.pageCount) (path : owner p = keyPrefix x d) (n : Nat) :
    lpmLookupFrom lpm' x p d n = lpmLookupFrom lpm x p d n := by
  induction n generalizing p d with
  | zero => rfl
  | succ n ih =>
    have depth : (owner p).length = d := by rw [path, length_keyPrefix]
    have same := agree p lt (by rw [depth]; exact path)
    rw [depth] at same
    rw [lpmLookupFrom, lpmLookupFrom, same]
    cases slot : lpm.pages p (x d) with
    | value raw => rfl
    | page q =>
      obtain ⟨bound, label, -⟩ := owned.child p lt (x d) q slot
      exact ih bound (by rw [label, path, keyPrefix_succ])

theorem LpmStack.labels {key : Nat → UInt8} {pages : Nat → Nat} {hop : Nat}
    (owned : LpmOwned keySize lpm owner) (root : 0 < lpm.pageCount) (stack : LpmStack lpm key pages hop) :
    ∀ j ≤ hop, pages j < lpm.pageCount ∧ owner (pages j) = keyPrefix key j := by
  intro j le
  induction j with
  | zero =>
    rw [stack.1, owned.root]
    exact ⟨root, rfl⟩
  | succ j ih =>
    obtain ⟨bound, label⟩ := ih (by omega)
    obtain ⟨bound', label', -⟩ := owned.child _ bound _ _ (stack.2 j (by omega))
    exact ⟨bound', by rw [label', label, keyPrefix_succ]⟩

theorem lpmLookupFrom_stack {key : Nat → UInt8} {pages : Nat → Nat} {hop : Nat}
    (stack : LpmStack lpm key pages hop) (x : Nat → UInt8) (agree : ∀ j < hop, x j = key j) {n : Nat}
    (le : hop ≤ n) : lpmLookupFrom lpm x 0 0 n = lpmLookupFrom lpm x (pages hop) hop (n - hop) := by
  induction hop with
  | zero => rw [stack.1, Nat.sub_zero]
  | succ hop ih =>
    have below : LpmStack lpm key pages hop := ⟨stack.1, fun j lt => stack.2 j (by omega)⟩
    rw [ih below (fun j lt => agree j (by omega)) (by omega)]
    obtain ⟨m, hm⟩ : ∃ m, n - hop = m + 1 := ⟨n - hop - 1, by omega⟩
    rw [hm, lpmLookupFrom, agree hop (by omega), stack.2 hop (by omega), show n - (hop + 1) = m by omega]

end Lookup

section Write

variable {keySize : Nat} {lpm lpm' : Lpm} {owner : Nat → List UInt8} {key : Nat → UInt8} {pages : Nat → Nat}
  {hop : Nat}

theorem LpmOwned.write_value (owned : LpmOwned keySize lpm owner) (page : Nat) (k : UInt8) (raw : UInt64) :
    LpmOwned keySize (lpm.write page k (.value raw)) owner := by
  refine ⟨owned.root, fun p lt k' q slot => ?_⟩
  rw [Lpm.write_pages] at slot
  split at slot
  · cases slot
  · exact owned.child p lt k' q slot

theorem LpmOwned.split {alloc : Nat → Bool} (owned : LpmOwned keySize lpm owner) {page : Nat} {k : UInt8}
    (bound : page < lpm.pageCount) {old : UInt64} (leaf : lpm.pages page k = .value old)
    (depth : (owner page).length + 1 < keySize) (ok : lpmNewPage alloc lpm (some (page, k)) = some lpm') :
    LpmOwned keySize lpm' (Function.update owner lpm.pageCount (owner page ++ [k])) := by
  have fresh : ∀ p < lpm.pageCount, Function.update owner lpm.pageCount (owner page ++ [k]) p = owner p :=
    fun p lt => Function.update_of_ne (Nat.ne_of_lt lt) _ _
  refine ⟨by rw [fresh 0 (by omega), owned.root], fun p lt k' q slot => ?_⟩
  rw [lpmNewPage_split_pageCount ok] at lt ⊢
  rw [lpmNewPage_split_pages ok] at slot
  by_cases hit : p = page ∧ k' = k
  · rw [if_pos hit] at slot
    cases slot
    obtain ⟨rfl, rfl⟩ := hit
    refine ⟨Nat.lt_succ_self _, ?_, ?_⟩
    · rw [Function.update_self, fresh p bound]
    · rw [Function.update_self, List.length_append, List.length_singleton]
      exact depth
  · rw [if_neg hit] at slot
    by_cases new : p = lpm.pageCount
    · rw [if_pos new, leaf] at slot
      cases slot
    · rw [if_neg new] at slot
      obtain ⟨target, label, deep⟩ := owned.child p (by omega) k' q slot
      refine ⟨by omega, ?_, ?_⟩
      · rw [fresh q target, fresh p (by omega), label]
      · rw [fresh q target]
        exact deep

theorem Lpm.Valid.write_value (valid : lpm.Valid keySize) (page : Nat) (k : UInt8) (raw : UInt64) :
    (lpm.write page k (.value raw)).Valid keySize :=
  let ⟨owner, owned⟩ := valid.owned
  ⟨valid.root, owner, owned.write_value page k raw⟩

theorem LpmStack.congr (stack : LpmStack lpm key pages hop)
    (same : ∀ j < hop, lpm'.pages (pages j) (key j) = lpm.pages (pages j) (key j)) : LpmStack lpm' key pages hop :=
  ⟨stack.1, fun j lt => (same j lt).trans (stack.2 j lt)⟩

theorem LpmStack.ne_leaf (stack : LpmStack lpm key pages hop) {old : UInt64}
    (leaf : lpm.pages (pages hop) (key hop) = .value old) : ∀ j < hop, ¬(pages j = pages hop ∧ key j = key hop) := by
  rintro j lt ⟨samePage, sameKey⟩
  have pointer := stack.2 j lt
  rw [samePage, sameKey, leaf] at pointer
  cases pointer

theorem LpmStack.write_leaf (stack : LpmStack lpm key pages hop) {old : UInt64}
    (leaf : lpm.pages (pages hop) (key hop) = .value old) (v : LpmValue) :
    LpmStack (lpm.write (pages hop) (key hop) v) key pages hop :=
  stack.congr fun j below => by rw [Lpm.write_pages, if_neg (stack.ne_leaf leaf j below)]

theorem LpmStack.restrict (stack : LpmStack lpm key pages hop) {hop' : Nat} {key' : Nat → UInt8} (le : hop' ≤ hop)
    (same : ∀ j < hop', key' j = key j) : LpmStack lpm key' pages hop' :=
  ⟨stack.1, fun j below => by rw [same j below]; exact stack.2 j (by omega)⟩

theorem LpmStack.descend (stack : LpmStack lpm key pages hop) {child : Nat}
    (slot : lpm.pages (pages hop) (key hop) = .page child) (b : UInt8) :
    LpmStack lpm (Function.update key (hop + 1) b) (Function.update pages (hop + 1) child) (hop + 1) := by
  refine ⟨by rw [Function.update_of_ne (by omega)]; exact stack.1, fun j lt => ?_⟩
  rw [Function.update_of_ne (show j ≠ hop + 1 by omega), Function.update_of_ne (show j ≠ hop + 1 by omega)]
  rcases Nat.lt_succ_iff_lt_or_eq.mp lt with below | rfl
  · rw [Function.update_of_ne (show j + 1 ≠ hop + 1 by omega)]
    exact stack.2 j below
  · rw [Function.update_self]
    exact slot

theorem lpmLookupFrom_off_path (owned : LpmOwned keySize lpm owner) (root : 0 < lpm.pageCount)
    (stack : LpmStack lpm key pages hop) (x : Nat → UInt8) (off : ¬∀ j ≤ hop, x j = key j)
    (agree : ∀ p < lpm.pageCount, ∀ k, ¬(p = pages hop ∧ k = key hop) → lpm'.pages p k = lpm.pages p k) (n : Nat) :
    lpmLookupFrom lpm' x 0 0 n = lpmLookupFrom lpm x 0 0 n := by
  refine lpmLookupFrom_eq_of_agree owned x (fun p lt path => agree p lt _ ?_) root (by rw [owned.root]; rfl) n
  rintro ⟨rfl, hit⟩
  obtain ⟨-, label⟩ := stack.labels owned root hop le_rfl
  rw [label, length_keyPrefix] at hit
  rw [label, length_keyPrefix, keyPrefix_eq_iff] at path
  apply off
  intro j le
  rcases Nat.lt_or_eq_of_le le with below | rfl
  · exact (path j below).symm
  · exact hit

theorem lpmLookupFrom_write_leaf (owned : LpmOwned keySize lpm owner) (root : 0 < lpm.pageCount)
    (stack : LpmStack lpm key pages hop) {old : UInt64} (leaf : lpm.pages (pages hop) (key hop) = .value old)
    {n : Nat} (lt : hop < n) (raw : UInt64) (x : Nat → UInt8) :
    lpmLookupFrom (lpm.write (pages hop) (key hop) (.value raw)) x 0 0 n =
      if ∀ j ≤ hop, x j = key j then some raw else lpmLookupFrom lpm x 0 0 n := by
  split
  · rename_i on
    have written := stack.write_leaf leaf (.value raw)
    have top : (lpm.write (pages hop) (key hop) (.value raw)).pages (pages hop) (x hop) = .value raw := by
      rw [on hop le_rfl, Lpm.write_pages, if_pos ⟨rfl, rfl⟩]
    obtain ⟨m, hm⟩ : ∃ m, n - hop = m + 1 := ⟨n - hop - 1, by omega⟩
    rw [lpmLookupFrom_stack written x (fun j below => on j below.le) lt.le, hm, lpmLookupFrom_value top]
  · rename_i off
    exact lpmLookupFrom_off_path owned root stack x off (fun p _ k miss => by rw [Lpm.write_pages, if_neg miss]) n

theorem lpmLookupFrom_split {alloc : Nat → Bool} (owned : LpmOwned keySize lpm owner) (root : 0 < lpm.pageCount)
    (stack : LpmStack lpm key pages hop) {old : UInt64} (leaf : lpm.pages (pages hop) (key hop) = .value old)
    (ok : lpmNewPage alloc lpm (some (pages hop, key hop)) = some lpm') {n : Nat} (lt : hop + 1 < n)
    (x : Nat → UInt8) : lpmLookupFrom lpm' x 0 0 n = lpmLookupFrom lpm x 0 0 n := by
  have bound := (stack.labels owned root hop le_rfl).1
  by_cases on : ∀ j ≤ hop, x j = key j
  · have kept : LpmStack lpm' key pages hop := stack.congr fun j below => by
      rw [lpmNewPage_split_pages ok, if_neg (stack.ne_leaf leaf j below),
        if_neg (Nat.ne_of_lt (stack.labels owned root j below.le).1)]
    have top : lpm'.pages (pages hop) (x hop) = .page lpm.pageCount := by
      rw [on hop le_rfl, lpmNewPage_split_pages ok, if_pos ⟨rfl, rfl⟩]
    have copied : lpm'.pages lpm.pageCount (x (hop + 1)) = .value old := by
      rw [lpmNewPage_split_pages ok, if_neg (fun hit => Nat.ne_of_lt bound hit.1.symm), if_pos rfl, leaf]
    have before : lpm.pages (pages hop) (x hop) = .value old := by rw [on hop le_rfl, leaf]
    obtain ⟨m, hm⟩ : ∃ m, n - hop = m + 2 := ⟨n - hop - 2, by omega⟩
    rw [lpmLookupFrom_stack kept x (fun j below => on j below.le) (by omega),
      lpmLookupFrom_stack stack x (fun j below => on j below.le) (by omega), hm, lpmLookupFrom_page top,
      lpmLookupFrom_value copied, lpmLookupFrom_value before]
  · exact lpmLookupFrom_off_path owned root stack x on (fun p lt k miss => by
      rw [lpmNewPage_split_pages ok, if_neg miss, if_neg (Nat.ne_of_lt lt)]) n

theorem LpmStack.split {alloc : Nat → Bool} (valid : lpm.Valid keySize) (stack : LpmStack lpm key pages hop)
    {old : UInt64} (leaf : lpm.pages (pages hop) (key hop) = .value old) (deep : hop + 1 < keySize)
    (ok : lpmNewPage alloc lpm (some (pages hop, key hop)) = some lpm') :
    lpm'.Valid keySize ∧ LpmStack lpm' key pages hop ∧ lpm'.pages (pages hop) (key hop) = .page lpm.pageCount := by
  obtain ⟨owner, owned⟩ := valid.owned
  obtain ⟨bound, label⟩ := stack.labels owned valid.root hop le_rfl
  have depth : (owner (pages hop)).length + 1 < keySize := by rw [label, length_keyPrefix]; exact deep
  refine ⟨⟨by rw [lpmNewPage_split_pageCount ok]; omega, _, owned.split bound leaf depth ok⟩, ?_, ?_⟩
  · exact stack.congr fun j below => by
      rw [lpmNewPage_split_pages ok, if_neg (stack.ne_leaf leaf j below),
        if_neg (Nat.ne_of_lt (stack.labels owned valid.root j below.le).1)]
  · rw [lpmNewPage_split_pages ok, if_pos ⟨rfl, rfl⟩]

theorem LpmStack.deep (valid : lpm.Valid keySize) (stack : LpmStack lpm key pages hop) {child : Nat}
    (slot : lpm.pages (pages hop) (key hop) = .page child) : hop + 1 < keySize := by
  obtain ⟨owner, owned⟩ := valid.owned
  obtain ⟨bound, label⟩ := stack.labels owned valid.root hop le_rfl
  obtain ⟨-, childLabel, depth⟩ := owned.child _ bound _ _ slot
  rw [childLabel, label, List.length_append, length_keyPrefix, List.length_singleton] at depth
  exact depth

end Write

end Yanet
