import Mathlib.Data.List.GetD
import Yanet.Filter.Merge

set_option autoImplicit false

-- Generations of touches on the remap table as the attribute compilers run them: each generation
-- starts with `remap_table_new_gen` and touches cells through `value_table_touch`, a cell possibly
-- several times. A cell touched again in its generation already holds a key of that generation that
-- maps to itself, so the touch leaves everything as it was. The cells end up keyed by the set of
-- generations that touched them, reference counts stay exact, and compaction numbers the classes
-- 0, 1, … densely.

namespace Yanet

open Partition

-- `remap_table_new_gen`, then `value_table_touch` of each cell in turn.
def remapGeneration (data : ValueTable × RemapTable) (cells : List Nat) : ValueTable × RemapTable :=
  cells.foldl valueTableTouch (data.1, remapTableNewGen data.2)

def remapGenerations (data : ValueTable × RemapTable) (gens : List (List Nat)) : ValueTable × RemapTable :=
  gens.foldl remapGeneration data

theorem remapGenerations_dims (gens : List (List Nat)) : ∀ data : ValueTable × RemapTable,
    (remapGenerations data gens).1.vDim = data.1.vDim ∧ (remapGenerations data gens).1.hDim = data.1.hDim := by
  induction gens with
  | nil => exact fun _ => ⟨rfl, rfl⟩
  | cons cells gens ih =>
    intro data
    obtain ⟨v, h⟩ := ih (remapGeneration data cells)
    obtain ⟨v', h'⟩ := foldl_valueTableTouch_dims cells (data.1, remapTableNewGen data.2)
    exact ⟨v.trans v', h.trans h'⟩

-- The cells' values after remap_table_compact and value_table_compact.
def remapCompacted (data : ValueTable × RemapTable) (ptr : Nat) : Nat :=
  (valueTableCompact data.1 (remapTableCompact data.2)).values ptr

-- The keys allocated since generation `g` began with `c0` keys map to themselves in `g`.
def NewKeys (c0 g : Nat) (table : RemapTable) : Prop :=
  ∀ k, c0 ≤ k → k < table.count → (table.keys k).gen = g ∧ (table.keys k).value = k

section Step

variable {N : Nat} {values0 : Nat → Nat} {c0 g : Nat} {touched : Nat → Prop}

theorem NewKeys.touch {values : Nat → Nat} {table : RemapTable} (inv : TouchInv N values0 c0 g touched values table)
    (keys : NewKeys c0 g table) {x : Nat} (hx : x < N) (new : ¬touched x) :
    NewKeys c0 g (remapTableTouch table (values x)).1 := by
  obtain ⟨ge, -, -, -, below⟩ := inv.touch_value hx new
  have old : values x < c0 := (inv.untouched x hx new) ▸ inv.start_lt x hx
  have lt : values x < table.count := Nat.lt_of_lt_of_le old inv.le_count
  have moved : (remapTableTouch table (values x)).2 ≠ values x := by omega
  intro k hk klt
  rw [touch_count] at klt
  rw [touch_keys lt moved k]
  by_cases fresh : k = (remapTableTouch table (values x)).2
  · -- the key the touch moved `x` to
    rw [if_pos fresh]
    exact ⟨inv.gen_eq, rfl⟩
  · rw [if_neg fresh, if_neg (by omega)]
    exact keys k hk (below k klt fresh)

theorem valueTableTouch_retouch {data : ValueTable × RemapTable}
    (inv : TouchInv N values0 c0 g touched data.1.values data.2) (keys : NewKeys c0 g data.2) {x : Nat}
    (hx : x < N) (t : touched x) : valueTableTouch data x = data := by
  obtain ⟨vt, table⟩ := data
  obtain ⟨ge, klt⟩ := inv.fresh x t
  obtain ⟨gen, self⟩ := keys (vt.values x) ge klt
  dsimp only at gen self
  have current : (table.keys (vt.values x)).gen = table.gen := by rw [gen, inv.gen_eq]
  have held : (table.keys (vt.values x)).count ≠ 0 := by
    rw [inv.refs _ klt]
    exact Nat.ne_of_gt (holders_pos hx)
  have item : (⟨(table.keys (vt.values x)).count, table.gen, vt.values x⟩ : RemapItem) = table.keys (vt.values x) := by
    rcases hk : table.keys (vt.values x) with ⟨count, gen', value⟩
    rw [hk] at current self
    dsimp only at current self ⊢
    rw [current, self]
  have back : remapTableRelease (remapTableAcquire table (vt.values x)) (vt.values x) = table := by
    simp only [remapTableRelease, remapTableAcquire, Function.update_self, Nat.add_sub_cancel, if_neg held,
      Function.update_idem, item, Function.update_eq_self]
  have same : remapTableTouch table (vt.values x) = (table, vt.values x) := by
    simp only [remapTableTouch, stamp_of_current current, self, back]
  simp only [valueTableTouch, same, ValueTable.write, Function.update_eq_self]

theorem TouchInv.foldl_any (cells : List Nat) (bound : ∀ c ∈ cells, c < N) :
    ∀ {touched : Nat → Prop} (data : ValueTable × RemapTable),
      TouchInv N values0 c0 g touched data.1.values data.2 → NewKeys c0 g data.2 →
      TouchInv N values0 c0 g (fun i => i ∈ cells ∨ touched i) (cells.foldl valueTableTouch data).1.values
          (cells.foldl valueTableTouch data).2 ∧
        NewKeys c0 g (cells.foldl valueTableTouch data).2 := by
  induction cells with
  | nil =>
    intro touched data inv keys
    have same : (fun i => i ∈ ([] : List Nat) ∨ touched i) = touched := by
      funext i
      simp
    rw [same]
    exact ⟨inv, keys⟩
  | cons c cs ih =>
    intro touched data inv keys
    have hc := bound c List.mem_cons_self
    have rest := fun touched' => @ih (fun x mem => bound x (List.mem_cons_of_mem c mem)) touched'
    rw [List.foldl_cons]
    by_cases t : touched c
    · -- a repeated cell: the touch changes nothing
      rw [valueTableTouch_retouch inv keys hc t]
      have same : (fun i => i ∈ cs ∨ touched i) = (fun i => i ∈ c :: cs ∨ touched i) := by
        funext i
        simp only [List.mem_cons]
        apply propext
        constructor
        · rintro (mem | ti)
          · exact Or.inl (Or.inr mem)
          · exact Or.inr ti
        · rintro ((rfl | mem) | ti)
          · exact Or.inr t
          · exact Or.inl mem
          · exact Or.inr ti
      rw [← same]
      exact rest touched data inv keys
    · have step := inv.touch hc t
      have keys' := NewKeys.touch inv keys hc t
      have same : (fun i => i ∈ cs ∨ i = c ∨ touched i) = (fun i => i ∈ c :: cs ∨ touched i) := by
        funext i
        simp only [List.mem_cons]
        apply propext
        constructor
        · rintro (mem | rfl | ti)
          · exact Or.inl (Or.inr mem)
          · exact Or.inl (Or.inl rfl)
          · exact Or.inr ti
        · rintro ((rfl | mem) | ti)
          · exact Or.inr (Or.inl rfl)
          · exact Or.inl mem
          · exact Or.inr (Or.inr ti)
      rw [← same]
      exact rest (fun i => i = c ∨ touched i) (valueTableTouch data c) step keys'

end Step

theorem RemapInv.generation {N : Nat} {vt : ValueTable} {table : RemapTable} (inv : RemapInv N vt.values table)
    (cells : List Nat) (bound : ∀ c ∈ cells, c < N) :
    RemapInv N (remapGeneration (vt, table) cells).1.values (remapGeneration (vt, table) cells).2 ∧
      ∀ i < N, ∀ j < N, ((remapGeneration (vt, table) cells).1.values i = (remapGeneration (vt, table) cells).1.values j ↔
        (i ∈ cells ↔ j ∈ cells) ∧ vt.values i = vt.values j) := by
  -- no key is new when the generation starts
  have none : NewKeys table.count (table.gen + 1) (remapTableNewGen table) := fun k ge lt => absurd lt (by
    simp only [remapTableNewGen]
    omega)
  obtain ⟨touchInv, -⟩ := TouchInv.foldl_any cells bound (vt, remapTableNewGen table) inv.newGen none
  obtain ⟨between, same⟩ := touchInv.finish
  refine ⟨between, fun i hi j hj => ?_⟩
  rw [remapGeneration, same i hi j hj]
  simp only [or_false]

section Run

variable {N : Nat}

-- The cells generation `r` touched.
def touchedIn (gens : List (List Nat)) (r i : Nat) : Prop := i ∈ gens.getD r []

theorem remapGenerations_separate (gens : List (List Nat)) (bound : ∀ cells ∈ gens, ∀ c ∈ cells, c < N)
    {vt : ValueTable} {table : RemapTable} (inv : RemapInv N vt.values table) (start : ∀ i < N, vt.values i = 0) :
    RemapInv N (remapGenerations (vt, table) gens).1.values (remapGenerations (vt, table) gens).2 ∧
      Separates {i | i < N} (touchedIn gens) gens.length (remapGenerations (vt, table) gens).1.values := by
  induction gens using List.reverseRecOn with
  | nil => exact ⟨inv, separates_zero (k := 0) fun i hi => start i hi⟩
  | append_singleton gens cells ih =>
    obtain ⟨before, sep⟩ := ih fun cs mem => bound cs (List.mem_append_left _ mem)
    have last := bound cells (List.mem_append_right _ List.mem_cons_self)
    rw [remapGenerations, List.foldl_append, List.foldl_cons, List.foldl_nil]
    obtain ⟨after, step⟩ := RemapInv.generation before cells last
    refine ⟨after, ?_⟩
    -- the earlier generations are the same sets in the longer list
    have earlier : Separates {i | i < N} (touchedIn (gens ++ [cells])) gens.length
        (remapGenerations (vt, table) gens).1.values := by
      intro i hi j hj
      rw [sep i hi j hj]
      apply forall₂_congr
      intro r lt
      simp only [touchedIn, List.getD_append _ _ _ _ lt]
    rw [List.length_append, List.length_singleton]
    refine earlier.refine fun i hi j hj => ?_
    have newest : touchedIn (gens ++ [cells]) gens.length = fun i => i ∈ cells := by
      funext i
      simp [touchedIn]
    rw [newest]
    exact step i hi j hj

end Run

theorem remap_generations_classes (vDim hDim : Nat) (gens : List (List Nat))
    (bound : ∀ cells ∈ gens, ∀ c ∈ cells, c < vDim * hDim) :
    (∀ k < (remapGenerations (valueTableInit vDim hDim, remapTableInit (vDim * hDim)) gens).2.count,
      ((remapGenerations (valueTableInit vDim hDim, remapTableInit (vDim * hDim)) gens).2.keys k).count =
        holders (vDim * hDim) (remapGenerations (valueTableInit vDim hDim, remapTableInit (vDim * hDim)) gens).1.values k) ∧
      (∀ i < vDim * hDim, ∀ j < vDim * hDim,
        remapCompacted (remapGenerations (valueTableInit vDim hDim, remapTableInit (vDim * hDim)) gens) i =
            remapCompacted (remapGenerations (valueTableInit vDim hDim, remapTableInit (vDim * hDim)) gens) j ↔
          ∀ cells ∈ gens, (i ∈ cells ↔ j ∈ cells)) ∧
      ∃ classes, (∀ i < vDim * hDim,
          remapCompacted (remapGenerations (valueTableInit vDim hDim, remapTableInit (vDim * hDim)) gens) i < classes) ∧
        ∀ v < classes, ∃ i < vDim * hDim,
          remapCompacted (remapGenerations (valueTableInit vDim hDim, remapTableInit (vDim * hDim)) gens) i = v := by
  obtain ⟨inv, sep⟩ := remapGenerations_separate gens bound (remapInv_init (vDim * hDim))
    (fun _ _ => rfl : ∀ i < vDim * hDim, (valueTableInit vDim hDim).values i = 0)
  have dims : (remapGenerations (valueTableInit vDim hDim, remapTableInit (vDim * hDim)) gens).1.vDim *
      (remapGenerations (valueTableInit vDim hDim, remapTableInit (vDim * hDim)) gens).1.hDim = vDim * hDim := by
    obtain ⟨v, h⟩ := remapGenerations_dims gens (valueTableInit vDim hDim, remapTableInit (vDim * hDim))
    rw [v, h]
    rfl
  generalize remapGenerations (valueTableInit vDim hDim, remapTableInit (vDim * hDim)) gens = data at inv sep dims ⊢
  have held : ∀ i < vDim * hDim, (data.2.keys (data.1.values i)).count ≠ 0 := by
    intro i lt
    rw [inv.refs _ (inv.lt_count i lt)]
    exact Nat.ne_of_gt (holders_pos lt)
  -- compaction renames each held key to its rank among the held keys
  have ranked : ∀ i < vDim * hDim,
      remapCompacted data i = rank (fun k => (data.2.keys k).count ≠ 0) (data.1.values i) := by
    intro i lt
    simp only [remapCompacted, valueTableCompact, dims, if_pos lt]
    exact compacted_of_held data.2 (inv.lt_count i lt) (held i lt)
  refine ⟨inv.refs, ?_, rank (fun k => (data.2.keys k).count ≠ 0) data.2.count, ?_, ?_⟩
  · intro i hi j hj
    rw [sep.map _ ranked (fun i hi j hj same => rank_inj _ (held i hi) (held j hj) same) i hi j hj]
    constructor
    · intro all cells mem
      obtain ⟨r, lt, rfl⟩ := List.getElem_of_mem mem
      have this := all r lt
      unfold touchedIn at this
      rwa [List.getD_eq_getElem _ _ lt] at this
    · intro all r lt
      unfold touchedIn
      rw [List.getD_eq_getElem _ _ lt]
      exact all _ (List.getElem_mem lt)
  · intro i lt
    rw [ranked i lt]
    exact rank_lt_rank _ (held i lt) (inv.lt_count i lt)
  · intro v lt
    obtain ⟨k, klt, hk, rfl⟩ := exists_rank_eq _ lt
    -- a held key has a holder
    rw [inv.refs k klt] at hk
    obtain ⟨i, mem, holds⟩ := List.countP_pos_iff.mp (Nat.pos_of_ne_zero hk)
    have ilt := List.mem_range.mp mem
    simp only [decide_eq_true_eq] at holds
    exact ⟨i, ilt, by rw [ranked i ilt, holds]⟩

theorem remap_generations_classes_two_by_two :
    (∀ cells ∈ [[0, 1, 1], [1, 3]], ∀ c ∈ cells, c < 2 * 2) ∧
      (∀ k < (remapGenerations (valueTableInit 2 2, remapTableInit (2 * 2)) [[0, 1, 1], [1, 3]]).2.count,
        ((remapGenerations (valueTableInit 2 2, remapTableInit (2 * 2)) [[0, 1, 1], [1, 3]]).2.keys k).count =
          holders (2 * 2) (remapGenerations (valueTableInit 2 2, remapTableInit (2 * 2)) [[0, 1, 1], [1, 3]]).1.values k) ∧
      (∀ i < 2 * 2, ∀ j < 2 * 2,
        remapCompacted (remapGenerations (valueTableInit 2 2, remapTableInit (2 * 2)) [[0, 1, 1], [1, 3]]) i =
            remapCompacted (remapGenerations (valueTableInit 2 2, remapTableInit (2 * 2)) [[0, 1, 1], [1, 3]]) j ↔
          ∀ cells ∈ [[0, 1, 1], [1, 3]], (i ∈ cells ↔ j ∈ cells)) ∧
      ∃ classes, (∀ i < 2 * 2,
          remapCompacted (remapGenerations (valueTableInit 2 2, remapTableInit (2 * 2)) [[0, 1, 1], [1, 3]]) i < classes) ∧
        ∀ v < classes, ∃ i < 2 * 2,
          remapCompacted (remapGenerations (valueTableInit 2 2, remapTableInit (2 * 2)) [[0, 1, 1], [1, 3]]) i = v :=
  ⟨by decide, remap_generations_classes 2 2 [[0, 1, 1], [1, 3]] (by decide)⟩

end Yanet
