import Yanet.Filter.Registry
import Yanet.Lib.Partition

set_option autoImplicit false

-- The remap table (`common/remap.h`) and the rectangular value table (`common/value.h`) that the
-- filter compiler refines cell by cell. Touching a key in a generation gives the same fresh key to
-- every key touched alike in that generation, and reference counts say which keys are still held;
-- compaction then numbers the held keys densely. The free list is written but never read (its
-- reader in `remap_table_new_key` is commented out), so keys are never reused.

namespace Yanet

def REMAP_TABLE_INVALID : Nat := 0xffffffff

structure RemapItem where
  count : Nat
  gen : Nat
  value : Nat

structure RemapTable where
  gen : Nat
  count : Nat
  freeList : Nat
  keys : Nat → RemapItem

-- Items past the first are uninitialised memory in the source; `remap_table_new_key` clears
-- each one before it is used.
def remapTableInit (capacity : Nat) : RemapTable :=
  { gen := 1, count := 1, freeList := REMAP_TABLE_INVALID,
    keys := Function.update (fun _ => ⟨0, 0, 0⟩) 0 ⟨capacity, 0, 0⟩ }

def remapTableNewGen (table : RemapTable) : RemapTable := { table with gen := table.gen + 1 }

def remapTableNewKey (table : RemapTable) : RemapTable × Nat :=
  ({ table with keys := Function.update table.keys table.count ⟨0, 0, 0⟩, count := table.count + 1 },
    table.count)

-- The first block of `remap_table_touch`: a key not yet touched in this generation gets a
-- new key as its value.
def remapTableStamp (table : RemapTable) (key : Nat) : RemapTable :=
  if (table.keys key).gen ≠ table.gen then
    let (table, newKey) := remapTableNewKey table
    { table with
      keys := Function.update table.keys key ({ table.keys key with gen := table.gen, value := newKey }) }
  else table

-- `new_item`: the new key maps to itself in this generation and gains a reference.
def remapTableAcquire (table : RemapTable) (value : Nat) : RemapTable :=
  { table with
    keys := Function.update table.keys value
      ({ table.keys value with value := value, gen := table.gen, count := (table.keys value).count + 1 }) }

-- `item->count--`; a key nobody holds any more is chained into the free list.
def remapTableRelease (table : RemapTable) (key : Nat) : RemapTable :=
  let item := { table.keys key with count := (table.keys key).count - 1 }
  if item.count = 0 then
    { table with keys := Function.update table.keys key ({ item with value := table.freeList }), freeList := key }
  else { table with keys := Function.update table.keys key item }

def remapTableTouch (table : RemapTable) (key : Nat) : RemapTable × Nat :=
  let table := remapTableStamp table key
  let value := (table.keys key).value
  (remapTableRelease (remapTableAcquire table value) key, value)

def remapTableCompactStep (acc : (Nat → RemapItem) × Nat) (lowIdx : Nat) : (Nat → RemapItem) × Nat :=
  if (acc.1 lowIdx).count ≠ 0 then
    (Function.update acc.1 lowIdx ({ acc.1 lowIdx with value := acc.2 }), acc.2 + 1)
  else (Function.update acc.1 lowIdx ({ acc.1 lowIdx with value := REMAP_TABLE_INVALID }), acc.2)

-- `remap_table_compact`: held keys are numbered in order, the others become invalid.
def remapTableCompact (table : RemapTable) : RemapTable :=
  { table with keys := ((List.range table.count).foldl remapTableCompactStep (table.keys, 0)).1 }

def remapTableCompacted (table : RemapTable) (key : Nat) : Nat := (table.keys key).value

section Touch

variable {table : RemapTable} {key : Nat}

@[simp] theorem stamp_gen : (remapTableStamp table key).gen = table.gen := by
  unfold remapTableStamp
  split <;> rfl

@[simp] theorem stamp_freeList : (remapTableStamp table key).freeList = table.freeList := by
  unfold remapTableStamp
  split <;> rfl

theorem stamp_of_current (current : (table.keys key).gen = table.gen) : remapTableStamp table key = table := by
  simp [remapTableStamp, current]

theorem stamp_of_stale (stale : (table.keys key).gen ≠ table.gen) (lt : key < table.count) :
    remapTableStamp table key =
      { table with
        count := table.count + 1
        keys := Function.update (Function.update table.keys table.count ⟨0, 0, 0⟩) key
          ⟨(table.keys key).count, table.gen, table.count⟩ } := by
  simp [remapTableStamp, remapTableNewKey, stale, Function.update_of_ne (Nat.ne_of_lt lt)]

theorem stamp_keys_self_count (lt : key < table.count) :
    ((remapTableStamp table key).keys key).count = (table.keys key).count := by
  by_cases current : (table.keys key).gen = table.gen
  · rw [stamp_of_current current]
  · rw [stamp_of_stale current lt]
    simp

theorem stamp_keys_self_gen (lt : key < table.count) :
    ((remapTableStamp table key).keys key).gen = table.gen := by
  by_cases current : (table.keys key).gen = table.gen
  · rwa [stamp_of_current current]
  · rw [stamp_of_stale current lt]
    simp

theorem stamp_keys_of_ne {k : Nat} (lt : key < table.count) (other : k ≠ key)
    (unused : k ≠ ((remapTableStamp table key).keys key).value) :
    (remapTableStamp table key).keys k = table.keys k := by
  by_cases current : (table.keys key).gen = table.gen
  · rw [stamp_of_current current]
  · rw [stamp_of_stale current lt] at unused ⊢
    simp only [Function.update_self] at unused
    simp [Function.update_of_ne other, Function.update_of_ne unused]

theorem acquire_keys (value k : Nat) :
    (remapTableAcquire table value).keys k =
      if k = value then ⟨(table.keys value).count + 1, table.gen, value⟩ else table.keys k := by
  by_cases same : k = value
  · subst same; simp [remapTableAcquire]
  · simp [remapTableAcquire, same]

@[simp] theorem acquire_gen (value : Nat) : (remapTableAcquire table value).gen = table.gen := rfl

@[simp] theorem acquire_count (value : Nat) : (remapTableAcquire table value).count = table.count := rfl

@[simp] theorem acquire_freeList (value : Nat) : (remapTableAcquire table value).freeList = table.freeList := rfl

theorem release_keys (k : Nat) :
    (remapTableRelease table key).keys k =
      if k = key then
        ⟨(table.keys key).count - 1, (table.keys key).gen,
          if (table.keys key).count - 1 = 0 then table.freeList else (table.keys key).value⟩
      else table.keys k := by
  by_cases released : (table.keys key).count - 1 = 0 <;> by_cases same : k = key <;>
    simp [remapTableRelease, released, same]

@[simp] theorem release_gen : (remapTableRelease table key).gen = table.gen := by
  simp only [remapTableRelease]
  split <;> rfl

@[simp] theorem release_count : (remapTableRelease table key).count = table.count := by
  simp only [remapTableRelease]
  split <;> rfl

@[simp] theorem touch_gen : (remapTableTouch table key).1.gen = table.gen := by
  simp [remapTableTouch]

@[simp] theorem touch_count : (remapTableTouch table key).1.count = (remapTableStamp table key).count := by
  simp [remapTableTouch]

theorem le_stamp_count : table.count ≤ (remapTableStamp table key).count := by
  unfold remapTableStamp
  split
  · exact Nat.le_succ _
  · exact Nat.le_refl _

theorem touch_snd : (remapTableTouch table key).2 = ((remapTableStamp table key).keys key).value := rfl

-- The items a touch leaves behind, once the touched key's new value differs from it: the new
-- value gains a reference and maps to itself, the touched key loses one and keeps pointing at the
-- new value unless nothing holds it any more.
theorem touch_keys (lt : key < table.count) (moved : (remapTableTouch table key).2 ≠ key) (k : Nat) :
    (remapTableTouch table key).1.keys k =
      if k = (remapTableTouch table key).2 then
        ⟨((remapTableStamp table key).keys k).count + 1, table.gen, k⟩
      else if k = key then
        ⟨(table.keys key).count - 1, table.gen,
          if (table.keys key).count - 1 = 0 then table.freeList else (remapTableTouch table key).2⟩
      else table.keys k := by
  rw [touch_snd] at moved ⊢
  simp only [remapTableTouch, release_keys, acquire_keys, if_neg (Ne.symm moved), stamp_keys_self_count lt,
    stamp_keys_self_gen lt, acquire_freeList, stamp_freeList]
  by_cases value : k = ((remapTableStamp table key).keys key).value
  · subst value
    simp [moved]
  · by_cases same : k = key
    · subst same
      simp [Ne.symm moved]
    · simp [value, same, stamp_keys_of_ne lt same value]

end Touch



structure ValueTable where
  vDim : Nat
  hDim : Nat
  values : Nat → Nat

def valueTableInit (vDim hDim : Nat) : ValueTable := ⟨vDim, hDim, fun _ => 0⟩

def valueTableGetPtr (table : ValueTable) (vIdx hIdx : Nat) : Nat := vIdx * table.hDim + hIdx

def valueTableGet (table : ValueTable) (vIdx hIdx : Nat) : Nat := table.values (valueTableGetPtr table vIdx hIdx)

-- A store through a pointer from `value_table_get_ptr`.
def ValueTable.write (table : ValueTable) (ptr value : Nat) : ValueTable :=
  { table with values := Function.update table.values ptr value }

-- The body of `value_table_touch_action`: the key held at `ptr` is touched and its new value
-- stored back.
def valueTableTouch (data : ValueTable × RemapTable) (ptr : Nat) : ValueTable × RemapTable :=
  (data.1.write ptr (remapTableTouch data.2 (data.1.values ptr)).2, (remapTableTouch data.2 (data.1.values ptr)).1)

-- The two loops of `value_table_compact` visit exactly the pointers below `v_dim * h_dim`.
def valueTableCompact (table : ValueTable) (remapTable : RemapTable) : ValueTable :=
  { table with values := fun ptr =>
      if ptr < table.vDim * table.hDim then remapTableCompacted remapTable (table.values ptr)
      else table.values ptr }

section Generation

open Partition

-- Between generations: every cell below `N` holds an allocated key, each allocated key counts
-- its holders, and no key carries a generation past the current one.
structure RemapInv (N : Nat) (values : Nat → Nat) (table : RemapTable) : Prop where
  lt_count : ∀ i < N, values i < table.count
  refs : ∀ k < table.count, (table.keys k).count = holders N values k
  gen_le : ∀ k < table.count, (table.keys k).gen ≤ table.gen

theorem remapInv_init (N : Nat) : RemapInv N (fun _ => 0) (remapTableInit N) where
  lt_count := fun _ _ => Nat.one_pos
  refs := by
    intro k lt
    have zero : k = 0 := by simpa [remapTableInit] using lt
    subst zero
    simp [remapTableInit, holders]
  gen_le := by
    intro k _
    by_cases zero : k = 0 <;> simp [remapTableInit, zero]

-- Inside generation `g`, which began with `c0` keys and the cells holding `values0`, after the
-- cells satisfying `touched` were touched. Touched cells hold keys of this generation, equal
-- exactly where their old keys were; an old key that an untouched cell still holds records the
-- key its touched holders moved to.
structure TouchInv (N : Nat) (values0 : Nat → Nat) (c0 g : Nat) (touched : Nat → Prop)
    (values : Nat → Nat) (table : RemapTable) : Prop where
  gen_eq : table.gen = g
  le_count : c0 ≤ table.count
  start_lt : ∀ i < N, values0 i < c0
  touched_lt : ∀ i, touched i → i < N
  untouched : ∀ i < N, ¬touched i → values i = values0 i
  fresh : ∀ i, touched i → c0 ≤ values i ∧ values i < table.count
  same_iff : ∀ i j, touched i → touched j → (values i = values j ↔ values0 i = values0 j)
  stamped : ∀ i j, touched i → j < N → ¬touched j → values0 j = values0 i →
    (table.keys (values0 i)).gen = g ∧ (table.keys (values0 i)).value = values i
  unstamped : ∀ k < c0, (∀ i, touched i → values0 i ≠ k) → (table.keys k).gen < g
  refs : ∀ k < table.count, (table.keys k).count = holders N values k
  gen_le : ∀ k < table.count, (table.keys k).gen ≤ g

variable {N : Nat} {values0 : Nat → Nat} {c0 g : Nat}

theorem RemapInv.newGen {values : Nat → Nat} {table : RemapTable} (inv : RemapInv N values table) :
    TouchInv N values table.count (table.gen + 1) (fun _ => False) values (remapTableNewGen table) where
  gen_eq := rfl
  le_count := Nat.le_refl _
  start_lt := inv.lt_count
  touched_lt := fun _ no => no.elim
  untouched := fun _ _ _ => rfl
  fresh := fun _ no => no.elim
  same_iff := fun _ _ no => no.elim
  stamped := fun _ _ no => no.elim
  unstamped := fun k lt _ => Nat.lt_succ_of_le (inv.gen_le k lt)
  refs := inv.refs
  gen_le := fun k lt => Nat.le_succ_of_le (inv.gen_le k lt)

section Step

variable {touched : Nat → Prop} {values : Nat → Nat} {table : RemapTable} {x : Nat}

theorem TouchInv.holders_stale (inv : TouchInv N values0 c0 g touched values table) :
    holders N values table.count = 0 := by
  apply List.countP_eq_zero.mpr
  intro i mem held
  have lt := List.mem_range.mp mem
  have below : values i < table.count := by
    by_cases t : touched i
    · exact (inv.fresh i t).2
    · rw [inv.untouched i lt t]
      exact Nat.lt_of_lt_of_le (inv.start_lt i lt) inv.le_count
  simp only [decide_eq_true_eq] at held
  omega

theorem TouchInv.touch_value (inv : TouchInv N values0 c0 g touched values table) (hx : x < N)
    (new : ¬touched x) :
    c0 ≤ (remapTableTouch table (values x)).2 ∧
    (remapTableTouch table (values x)).2 < (remapTableStamp table (values x)).count ∧
    (∀ i, touched i → (values i = (remapTableTouch table (values x)).2 ↔ values0 i = values0 x)) ∧
    ((remapTableStamp table (values x)).keys (remapTableTouch table (values x)).2).count =
      holders N values (remapTableTouch table (values x)).2 ∧
    (∀ k < (remapTableStamp table (values x)).count, k ≠ (remapTableTouch table (values x)).2 → k < table.count) := by
  have held : values x = values0 x := inv.untouched x hx new
  have old : values x < c0 := held ▸ inv.start_lt x hx
  have lt : values x < table.count := Nat.lt_of_lt_of_le old inv.le_count
  rw [touch_snd]
  by_cases current : (table.keys (values x)).gen = table.gen
  · -- Some touched cell shared `x`'s key and recorded where it went.
    obtain ⟨i0, t0, same0⟩ : ∃ i0, touched i0 ∧ values0 i0 = values x := by
      by_contra none
      simp only [not_exists, not_and] at none
      have := inv.unstamped (values x) old fun i t => none i t
      rw [current, inv.gen_eq] at this
      exact Nat.lt_irrefl g this
    have record := (inv.stamped i0 x t0 hx new (by rw [← held, same0])).2
    rw [same0] at record
    rw [stamp_of_current current, record]
    refine ⟨(inv.fresh i0 t0).1, (inv.fresh i0 t0).2, ?_, inv.refs _ (inv.fresh i0 t0).2, fun k lt _ => lt⟩
    intro i t
    rw [inv.same_iff i i0 t t0, same0, held]
  · rw [stamp_of_stale current lt]
    simp only [Function.update_self]
    refine ⟨inv.le_count, Nat.lt_succ_self _, ?_, ?_, ?_⟩
    · intro i t
      constructor
      · intro same
        exact absurd same (Nat.ne_of_lt (inv.fresh i t).2)
      · intro same
        have := (inv.stamped i x t hx new same.symm).1
        rw [same, ← held, ← inv.gen_eq] at this
        exact absurd this current
    · rw [Function.update_of_ne (Nat.ne_of_gt lt), Function.update_self, inv.holders_stale]
    · intro k lt' ne
      exact Nat.lt_of_le_of_ne (Nat.le_of_lt_succ lt') ne

theorem TouchInv.touch (inv : TouchInv N values0 c0 g touched values table) (hx : x < N) (new : ¬touched x) :
    TouchInv N values0 c0 g (fun i => i = x ∨ touched i)
      (Function.update values x (remapTableTouch table (values x)).2) (remapTableTouch table (values x)).1 := by
  obtain ⟨ge, lt', shared, refs_b, below⟩ := inv.touch_value hx new
  have held : values x = values0 x := inv.untouched x hx new
  have old : values x < c0 := held ▸ inv.start_lt x hx
  have lt : values x < table.count := Nat.lt_of_lt_of_le old inv.le_count
  have moved : (remapTableTouch table (values x)).2 ≠ values x :=
    fun same => Nat.lt_irrefl _ (Nat.lt_of_lt_of_le old (same ▸ ge))
  have keys := touch_keys lt moved
  have grown : table.count ≤ (remapTableTouch table (values x)).1.count := by
    rw [touch_count]
    exact le_stamp_count
  have gen' : (remapTableTouch table (values x)).1.gen = g := by simp [inv.gen_eq]
  rw [← touch_count] at lt' below
  generalize (remapTableTouch table (values x)).1 = table' at keys grown lt' below gen' ⊢
  generalize hb : (remapTableTouch table (values x)).2 = b at keys ge lt' shared refs_b below moved ⊢
  generalize ha : values x = a at keys held old lt moved shared refs_b
  -- How the holder counts move when `x` goes from `a` to `b`.
  have holders_b : holders N (Function.update values x b) b = holders N values b + 1 := by
    have := holders_update values hx b b
    rw [ha, if_neg moved.symm, if_pos rfl] at this
    omega
  have holders_a : holders N (Function.update values x b) a + 1 = holders N values a := by
    have := holders_update values hx b a
    rw [ha, if_pos rfl, if_neg moved] at this
    exact this
  have holders_other : ∀ k, k ≠ a → k ≠ b → holders N (Function.update values x b) k = holders N values k := by
    intro k na nb
    have := holders_update values hx b k
    rw [ha, if_neg (Ne.symm na), if_neg (Ne.symm nb)] at this
    exact this
  constructor
  · exact gen'
  · exact Nat.le_trans inv.le_count grown
  · exact inv.start_lt
  · rintro i (rfl | t)
    · exact hx
    · exact inv.touched_lt i t
  · intro i lt_i not_touched
    have ne : i ≠ x := fun same => not_touched (Or.inl same)
    rw [Function.update_of_ne ne]
    exact inv.untouched i lt_i fun t => not_touched (Or.inr t)
  · rintro i (rfl | t)
    · rw [Function.update_self]
      exact ⟨ge, lt'⟩
    · have ne : i ≠ x := fun same => new (same ▸ t)
      rw [Function.update_of_ne ne]
      exact ⟨(inv.fresh i t).1, Nat.lt_of_lt_of_le (inv.fresh i t).2 grown⟩
  · rintro i j (rfl | ti) (rfl | tj)
    · simp
    · have ne : j ≠ i := fun same => new (same ▸ tj)
      rw [Function.update_self, Function.update_of_ne ne, eq_comm, shared j tj, eq_comm]
    · have ne : i ≠ j := fun same => new (same ▸ ti)
      rw [Function.update_self, Function.update_of_ne ne, shared i ti]
    · have ni : i ≠ x := fun same => new (same ▸ ti)
      have nj : j ≠ x := fun same => new (same ▸ tj)
      rw [Function.update_of_ne ni, Function.update_of_ne nj]
      exact inv.same_iff i j ti tj
  · intro i j ti hj nj same
    have jx : j ≠ x := fun h => nj (Or.inl h)
    have tj : ¬touched j := fun h => nj (Or.inr h)
    have gen_eq := inv.gen_eq
    by_cases key_a : values0 i = a
    · -- `j` still holds `a`, so `a` keeps a reference and its record.
      have hold_j : Function.update values x b j = a := by
        rw [Function.update_of_ne jx, inv.untouched j hj tj, same, key_a]
      have alive : 0 < holders N (Function.update values x b) a := hold_j ▸ holders_pos hj
      have count_a : (table.keys a).count - 1 ≠ 0 := by
        rw [inv.refs a lt]
        omega
      rw [key_a, keys a, if_neg moved.symm, if_pos rfl, if_neg count_a]
      refine ⟨gen_eq, ?_⟩
      rcases ti with rfl | ti
      · rw [Function.update_self]
      · have ne : i ≠ x := fun h => new (h ▸ ti)
        rw [Function.update_of_ne ne, (shared i ti).mpr (key_a.trans held)]
    · have ti : touched i := ti.resolve_left fun h => key_a (h ▸ held.symm)
      have ne : i ≠ x := fun h => new (h ▸ ti)
      have nb : values0 i ≠ b := Nat.ne_of_lt (Nat.lt_of_lt_of_le (inv.start_lt i (inv.touched_lt i ti)) ge)
      rw [keys, if_neg nb, if_neg key_a, Function.update_of_ne ne]
      exact inv.stamped i j ti hj tj same
  · intro k lt_k none
    have na : k ≠ a := fun h => none x (Or.inl rfl) (h ▸ held.symm)
    have nb : k ≠ b := Nat.ne_of_lt (Nat.lt_of_lt_of_le lt_k ge)
    rw [keys, if_neg nb, if_neg na]
    exact inv.unstamped k lt_k fun i t => none i (Or.inr t)
  · intro k lt_k
    rw [keys]
    by_cases kb : k = b
    · subst kb
      rw [if_pos rfl, refs_b, holders_b]
    by_cases ka : k = a
    · subst ka
      rw [if_neg kb, if_pos rfl]
      dsimp only
      rw [inv.refs k lt]
      omega
    · rw [if_neg kb, if_neg ka, inv.refs k (below k lt_k kb), holders_other k ka kb]
  · intro k lt_k
    rw [keys]
    by_cases kb : k = b
    · rw [if_pos kb]
      exact Nat.le_of_eq inv.gen_eq
    by_cases ka : k = a
    · rw [if_neg kb, if_pos ka]
      exact Nat.le_of_eq inv.gen_eq
    · rw [if_neg kb, if_neg ka]
      exact inv.gen_le k (below k lt_k kb)

end Step

@[simp] theorem valueTableTouch_values (data : ValueTable × RemapTable) (ptr : Nat) :
    (valueTableTouch data ptr).1.values =
      Function.update data.1.values ptr (remapTableTouch data.2 (data.1.values ptr)).2 := rfl

@[simp] theorem valueTableTouch_snd (data : ValueTable × RemapTable) (ptr : Nat) :
    (valueTableTouch data ptr).2 = (remapTableTouch data.2 (data.1.values ptr)).1 := rfl

@[simp] theorem valueTableTouch_vDim (data : ValueTable × RemapTable) (ptr : Nat) :
    (valueTableTouch data ptr).1.vDim = data.1.vDim := rfl

@[simp] theorem valueTableTouch_hDim (data : ValueTable × RemapTable) (ptr : Nat) :
    (valueTableTouch data ptr).1.hDim = data.1.hDim := rfl

theorem TouchInv.foldl {touched : Nat → Prop} (cells : List Nat) (data : ValueTable × RemapTable)
    (nodup : cells.Nodup) (bound : ∀ c ∈ cells, c < N) (fresh : ∀ c ∈ cells, ¬touched c)
    (inv : TouchInv N values0 c0 g touched data.1.values data.2) :
    TouchInv N values0 c0 g (fun i => i ∈ cells ∨ touched i)
      (cells.foldl valueTableTouch data).1.values (cells.foldl valueTableTouch data).2 := by
  induction cells generalizing touched data with
  | nil =>
    have same : (fun i => i ∈ ([] : List Nat) ∨ touched i) = touched := by
      funext i
      simp
    rw [same]
    exact inv
  | cons c cs ih =>
    obtain ⟨notin, nodup⟩ := List.nodup_cons.mp nodup
    have step := inv.touch (bound c (List.mem_cons_self ..)) (fresh c (List.mem_cons_self ..))
    have rest := ih (valueTableTouch data c) nodup (fun x mem => bound x (List.mem_cons_of_mem c mem))
      (fun x mem => by
        rintro (rfl | t)
        · exact notin mem
        · exact fresh x (List.mem_cons_of_mem c mem) t)
      step
    have same : (fun i => i ∈ cs ∨ i = c ∨ touched i) = (fun i => i ∈ c :: cs ∨ touched i) := by
      funext i
      simp only [List.mem_cons]
      apply propext
      constructor
      · rintro (mem | rfl | t)
        · exact Or.inl (Or.inr mem)
        · exact Or.inl (Or.inl rfl)
        · exact Or.inr t
      · rintro ((rfl | mem) | t)
        · exact Or.inr (Or.inl rfl)
        · exact Or.inl mem
        · exact Or.inr (Or.inr t)
    rw [List.foldl_cons, ← same]
    exact rest

theorem TouchInv.finish {touched : Nat → Prop} {values : Nat → Nat} {table : RemapTable}
    (inv : TouchInv N values0 c0 g touched values table) :
    RemapInv N values table ∧
      ∀ i < N, ∀ j < N, (values i = values j ↔ (touched i ↔ touched j) ∧ values0 i = values0 j) := by
  have old : ∀ i < N, ¬touched i → values i < c0 := fun i lt t => by
    rw [inv.untouched i lt t]
    exact inv.start_lt i lt
  refine ⟨⟨?_, inv.refs, ?_⟩, ?_⟩
  · intro i lt
    by_cases t : touched i
    · exact (inv.fresh i t).2
    · exact Nat.lt_of_lt_of_le (old i lt t) inv.le_count
  · intro k lt
    rw [inv.gen_eq]
    exact inv.gen_le k lt
  · intro i hi j hj
    by_cases ti : touched i <;> by_cases tj : touched j
    · simp only [ti, tj, iff_self, true_and]
      exact inv.same_iff i j ti tj
    · have := old j hj tj
      have := (inv.fresh i ti).1
      simp only [ti, tj, iff_false, not_true_eq_false, false_and, iff_false]
      omega
    · have := old i hi ti
      have := (inv.fresh j tj).1
      simp only [ti, tj, false_iff, not_true_eq_false, false_and, iff_false]
      omega
    · simp only [ti, tj, iff_self, true_and]
      rw [inv.untouched i hi ti, inv.untouched j hj tj]

section Compact

variable (table : RemapTable)

theorem compact_fold (n : Nat) :
    ((List.range n).foldl remapTableCompactStep (table.keys, 0)).2 = rank (fun j => (table.keys j).count ≠ 0) n ∧
    (∀ k, (((List.range n).foldl remapTableCompactStep (table.keys, 0)).1 k).count = (table.keys k).count) ∧
    ∀ k < n, (((List.range n).foldl remapTableCompactStep (table.keys, 0)).1 k).value =
      if (table.keys k).count ≠ 0 then rank (fun j => (table.keys j).count ≠ 0) k else REMAP_TABLE_INVALID := by
  induction n with
  | zero => exact ⟨rfl, fun _ => rfl, fun k lt => absurd lt (Nat.not_lt_zero k)⟩
  | succ n ih =>
    obtain ⟨next, counts, values⟩ := ih
    rw [List.range_succ, List.foldl_append, List.foldl_cons, List.foldl_nil]
    generalize (List.range n).foldl remapTableCompactStep (table.keys, 0) = acc at next counts values
    unfold remapTableCompactStep
    by_cases used : (table.keys n).count ≠ 0
    · rw [if_pos (by rw [counts]; exact used)]
      refine ⟨by rw [rank_succ, if_pos used, next], ?_, ?_⟩
      · intro k
        by_cases same : k = n
        · subst same; simp [counts]
        · simp [Function.update_of_ne same, counts]
      · intro k lt
        by_cases same : k = n
        · subst same; simp [next, used]
        · simp only [Function.update_of_ne same]
          exact values k (Nat.lt_of_le_of_ne (Nat.le_of_lt_succ lt) same)
    · rw [if_neg (by rw [counts]; exact used)]
      refine ⟨by rw [rank_succ, if_neg used, next, Nat.add_zero], ?_, ?_⟩
      · intro k
        by_cases same : k = n
        · subst same; simp [counts]
        · simp [Function.update_of_ne same, counts]
      · intro k lt
        by_cases same : k = n
        · subst same; simp [used]
        · simp only [Function.update_of_ne same]
          exact values k (Nat.lt_of_le_of_ne (Nat.le_of_lt_succ lt) same)

theorem compacted_of_held {k : Nat} (lt : k < table.count) (held : (table.keys k).count ≠ 0) :
    remapTableCompacted (remapTableCompact table) k = rank (fun j => (table.keys j).count ≠ 0) k := by
  simp [remapTableCompacted, remapTableCompact, (compact_fold table table.count).2.2 k lt, held]

end Compact

end Generation

end Yanet
