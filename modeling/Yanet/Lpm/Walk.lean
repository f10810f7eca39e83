import Yanet.Lpm.Basic

set_option autoImplicit false

-- `lpm_walk` and the iterator `lpm_iter_init` and `lpm_iter_next` (`common/lpm.h`) walk the slots
-- of the keys `from … to` with the stack of `lpm_insert`. Neighbouring leaves of one value merge
-- into the open range `prev_from … prev_to`. A leaf of another value closes it, and the open range
-- is closed at the end. The walk passes each closed range to `walk_func`. The iterator returns it
-- from `lpm_iter_next` in the middle of its loop, before moving past the leaf, and takes the same
-- leaf up again on the next call. Both functions descend and advance with the same code.

namespace Yanet

open BigEndian

-- The walk's locals, which `struct lpm_iter` keeps between calls: the key walked, the page at each
-- level, the levels `hi_limit` and `max_hop`, and the open range with its value.
structure LpmRangeWalk where
  key : Nat → UInt8
  pages : Nat → Nat
  hop : Nat
  hiLimit : Nat
  maxHop : Nat
  prevValue : UInt32
  prevFrom : Nat → UInt8
  prevTo : Nat → UInt8

-- The start of both: `key[0] = from[0]` on the root page, and no open range. `prev_to` is left
-- unset by `lpm_walk`; it is read only after a leaf has set it.
def lpmRangeWalkInit (fromKey : Nat → UInt8) : LpmRangeWalk :=
  { key := Function.update (fun _ => 0) 0 (fromKey 0), pages := fun _ => 0, hop := 0, hiLimit := 0, maxHop := 0,
    prevValue := LPM_VALUE_INVALID, prevFrom := fromKey, prevTo := fun _ => 0 }

-- Going down into `child`. `hi_limit` follows the key while it stays on `to`'s prefix; a level is
-- entered at `from`'s byte the first time it is reached, and at 0 afterwards.
def LpmRangeWalk.descend (fromKey toKey : Nat → UInt8) (walk : LpmRangeWalk) (child : Nat) : LpmRangeWalk :=
  let hiLimit := if walk.key walk.hop = toKey walk.hop ∧ walk.hop = walk.hiLimit then walk.hiLimit + 1 else walk.hiLimit
  let hop := walk.hop + 1
  if hop > walk.maxHop then
    { walk with hiLimit, hop, maxHop := hop, key := Function.update walk.key hop (fromKey hop),
                pages := Function.update walk.pages hop child }
  else { walk with hiLimit, hop, key := Function.update walk.key hop 0, pages := Function.update walk.pages hop child }

@[simp] theorem LpmRangeWalk.descend_hop (fromKey toKey : Nat → UInt8) (walk : LpmRangeWalk) (child : Nat) :
    (walk.descend fromKey toKey child).hop = walk.hop + 1 := by
  unfold LpmRangeWalk.descend
  dsimp only
  split_ifs <;> rfl

@[simp] theorem LpmRangeWalk.descend_hiLimit (fromKey toKey : Nat → UInt8) (walk : LpmRangeWalk) (child : Nat) :
    (walk.descend fromKey toKey child).hiLimit =
      if walk.key walk.hop = toKey walk.hop ∧ walk.hop = walk.hiLimit then walk.hiLimit + 1 else walk.hiLimit := by
  unfold LpmRangeWalk.descend
  dsimp only
  split_ifs <;> rfl

@[simp] theorem LpmRangeWalk.descend_key (fromKey toKey : Nat → UInt8) (walk : LpmRangeWalk) (child : Nat) :
    (walk.descend fromKey toKey child).key =
      Function.update walk.key (walk.hop + 1) (if walk.hop + 1 > walk.maxHop then fromKey (walk.hop + 1) else 0) := by
  unfold LpmRangeWalk.descend
  dsimp only
  split_ifs <;> rfl

@[simp] theorem LpmRangeWalk.descend_pages (fromKey toKey : Nat → UInt8) (walk : LpmRangeWalk) (child : Nat) :
    (walk.descend fromKey toKey child).pages = Function.update walk.pages (walk.hop + 1) child := by
  unfold LpmRangeWalk.descend
  dsimp only
  split_ifs <;> rfl

@[simp] theorem LpmRangeWalk.descend_prevValue (fromKey toKey : Nat → UInt8) (walk : LpmRangeWalk) (child : Nat) :
    (walk.descend fromKey toKey child).prevValue = walk.prevValue := by
  unfold LpmRangeWalk.descend
  dsimp only
  split_ifs <;> rfl

@[simp] theorem LpmRangeWalk.descend_prevFrom (fromKey toKey : Nat → UInt8) (walk : LpmRangeWalk) (child : Nat) :
    (walk.descend fromKey toKey child).prevFrom = walk.prevFrom := by
  unfold LpmRangeWalk.descend
  dsimp only
  split_ifs <;> rfl

@[simp] theorem LpmRangeWalk.descend_prevTo (fromKey toKey : Nat → UInt8) (walk : LpmRangeWalk) (child : Nat) :
    (walk.descend fromKey toKey child).prevTo = walk.prevTo := by
  unfold LpmRangeWalk.descend
  dsimp only
  split_ifs <;> rfl

-- The `do … while` past a leaf: the byte of level `hop` goes up, and past its upper bound (`to`'s
-- byte at `hi_limit`, `0xff` elsewhere) the walk goes up a level; at `hi_limit` it ends (`none`).
-- Level 0 is never below `hi_limit`, so the `0` case is the `goto out` of level 0.
def lpmRangeWalkAdvance (toKey : Nat → UInt8) (hiLimit : Nat) :
    Nat → (Nat → UInt8) → Option (Nat × (Nat → UInt8))
  | hop, key =>
    let key := Function.update key hop (key hop + 1)
    let upperBound : UInt8 := if hop = hiLimit then toKey hop else 0xff
    if key hop = upperBound + 1 then
      if hop = hiLimit then none
      else
        match hop with
        | 0 => none
        | hop + 1 => lpmRangeWalkAdvance toKey hiLimit hop key
    else some (hop, key)

section Advance

variable {toKey key : Nat → UInt8} {hiLimit : Nat}

theorem lpmRangeWalkAdvance_stay {hop : Nat}
    (stay : ¬key hop + 1 = (if hop = hiLimit then toKey hop else 0xff) + 1) :
    lpmRangeWalkAdvance toKey hiLimit hop key = some (hop, Function.update key hop (key hop + 1)) := by
  rw [lpmRangeWalkAdvance.eq_def]
  simp only [Function.update_self]
  rw [if_neg stay]

theorem lpmRangeWalkAdvance_end {hop : Nat}
    (stop : key hop + 1 = (if hop = hiLimit then toKey hop else 0xff) + 1) (at_limit : hop = hiLimit) :
    lpmRangeWalkAdvance toKey hiLimit hop key = none := by
  rw [lpmRangeWalkAdvance.eq_def]
  simp only [Function.update_self]
  rw [if_pos stop, if_pos at_limit]

theorem lpmRangeWalkAdvance_up {hop : Nat}
    (stop : key (hop + 1) + 1 = (if hop + 1 = hiLimit then toKey (hop + 1) else 0xff) + 1)
    (above : hop + 1 ≠ hiLimit) :
    lpmRangeWalkAdvance toKey hiLimit (hop + 1) key =
      lpmRangeWalkAdvance toKey hiLimit hop (Function.update key (hop + 1) (key (hop + 1) + 1)) := by
  rw [lpmRangeWalkAdvance]
  simp only [Function.update_self]
  rw [if_pos stop, if_neg above]

end Advance

-- The leaf branch of `lpm_walk` at a leaf of `raw`: the range passed to `walk_func` when the
-- value changes and a range is open, and the locals after it.
def lpmWalkLeaf (walk : LpmRangeWalk) (raw : UInt64) :
    Option ((Nat → UInt8) × (Nat → UInt8) × UInt32) × LpmRangeWalk :=
  if walk.prevValue ≠ lpmValueGet raw then
    (if walk.prevValue ≠ LPM_VALUE_INVALID then some (walk.prevFrom, walk.prevTo, walk.prevValue) else none,
     { walk with prevValue := lpmValueGet raw, prevFrom := fill walk.key walk.hop 0,
                 prevTo := fill walk.key walk.hop 0xff })
  else (none, { walk with prevTo := fill walk.key walk.hop 0xff })

section Leaf

variable (walk : LpmRangeWalk) (raw : UInt64)

@[simp] theorem lpmWalkLeaf_key : (lpmWalkLeaf walk raw).2.key = walk.key := by
  unfold lpmWalkLeaf
  split <;> rfl

@[simp] theorem lpmWalkLeaf_pages : (lpmWalkLeaf walk raw).2.pages = walk.pages := by
  unfold lpmWalkLeaf
  split <;> rfl

@[simp] theorem lpmWalkLeaf_hop : (lpmWalkLeaf walk raw).2.hop = walk.hop := by
  unfold lpmWalkLeaf
  split <;> rfl

@[simp] theorem lpmWalkLeaf_hiLimit : (lpmWalkLeaf walk raw).2.hiLimit = walk.hiLimit := by
  unfold lpmWalkLeaf
  split <;> rfl

-- Taking the same leaf up again changes nothing: its value is the open range's, which already ends
-- with it.
theorem lpmWalkLeaf_again : lpmWalkLeaf (lpmWalkLeaf walk raw).2 raw = (none, (lpmWalkLeaf walk raw).2) := by
  unfold lpmWalkLeaf
  split <;> simp

end Leaf

-- The range open at `out:`, which `lpm_walk` passes to `walk_func` last.
def lpmWalkOpen (walk : LpmRangeWalk) : Option ((Nat → UInt8) × (Nat → UInt8) × UInt32) :=
  if walk.prevValue ≠ LPM_VALUE_INVALID then some (walk.prevFrom, walk.prevTo, walk.prevValue) else none

section Callback

variable {σ : Type}

-- A call of `walk_func(key_size, from, to, value, data)` if there is a range; it returns 0 to go on.
def lpmWalkCall (keySize : Nat) (walkFunc : Nat → (Nat → UInt8) → (Nat → UInt8) → UInt32 → σ → Int × σ)
    (range : Option ((Nat → UInt8) × (Nat → UInt8) × UInt32)) (data : σ) : Int × σ :=
  match range with
  | some (rangeFrom, rangeTo, value) => walkFunc keySize rangeFrom rangeTo value data
  | none => (0, data)

-- The `while (1)` of `lpm_walk` and its `out:`: `-1` as soon as `walk_func` returns nonzero, `0`
-- otherwise; `none` if `fuel` runs out first.
def lpmWalkLoop (lpm : Lpm) (keySize : Nat) (fromKey toKey : Nat → UInt8)
    (walkFunc : Nat → (Nat → UInt8) → (Nat → UInt8) → UInt32 → σ → Int × σ) :
    Nat → LpmRangeWalk → σ → Option (Int × σ)
  | 0, _, _ => none
  | fuel + 1, walk, data =>
    match lpm.pages (walk.pages walk.hop) (walk.key walk.hop) with
    | .page child => lpmWalkLoop lpm keySize fromKey toKey walkFunc fuel (walk.descend fromKey toKey child) data
    | .value raw =>
      let leaf := lpmWalkLeaf walk raw
      let called := lpmWalkCall keySize walkFunc leaf.1 data
      if called.1 ≠ 0 then some (-1, called.2)
      else
        match lpmRangeWalkAdvance toKey walk.hiLimit walk.hop walk.key with
        | none =>
          let last := lpmWalkCall keySize walkFunc (lpmWalkOpen leaf.2) called.2
          some (if last.1 ≠ 0 then -1 else 0, last.2)
        | some (hop, key) => lpmWalkLoop lpm keySize fromKey toKey walkFunc fuel { leaf.2 with hop, key } called.2

-- `lpm_walk`, with `lpm_insert`'s fuel: each round goes one level down or on to a later block.
def lpmWalk (lpm : Lpm) (keySize : Nat) (fromKey toKey : Nat → UInt8)
    (walkFunc : Nat → (Nat → UInt8) → (Nat → UInt8) → UInt32 → σ → Int × σ) (data : σ) : Option (Int × σ) :=
  lpmWalkLoop lpm keySize fromKey toKey walkFunc (lpmInsertFuel keySize) (lpmRangeWalkInit fromKey) data

end Callback

-- `struct lpm_iter`: the trie, the range last returned, the bounds, the walk's locals and whether
-- the walk has ended.
structure LpmIter where
  lpm : Lpm
  keySize : Nat
  curFrom : Nat → UInt8
  curTo : Nat → UInt8
  curValue : UInt32
  rangeFrom : Nat → UInt8
  rangeTo : Nat → UInt8
  walk : LpmRangeWalk
  done : Bool

def lpmIterInit (lpm : Lpm) (keySize : Nat) (fromKey toKey : Nat → UInt8) : LpmIter :=
  { lpm, keySize, curFrom := fun _ => 0, curTo := fun _ => 0, curValue := 0, rangeFrom := fromKey,
    rangeTo := toKey, walk := lpmRangeWalkInit fromKey, done := false }

-- `out:` of `lpm_iter_next`: the iterator is done, and returns the open range if there is one.
def lpmIterOut (it : LpmIter) : Bool × LpmIter :=
  if it.walk.prevValue ≠ LPM_VALUE_INVALID then
    (true, { it with done := true, curFrom := it.walk.prevFrom, curTo := it.walk.prevTo,
                     curValue := it.walk.prevValue })
  else (false, { it with done := true })

-- The advance after a leaf, as in `lpm_walk`.
def lpmIterAdvance (it : LpmIter) : (Bool × LpmIter) ⊕ LpmIter :=
  match lpmRangeWalkAdvance it.rangeTo it.walk.hiLimit it.walk.hop it.walk.key with
  | none => .inl (lpmIterOut it)
  | some (hop, key) => .inr { it with walk := { it.walk with hop, key } }

-- One round of the `while (1)` of `lpm_iter_next`: what the call returns, or the iterator of the
-- next round. A change of value with a range open saves that range and returns before the advance.
def lpmIterRound (it : LpmIter) : (Bool × LpmIter) ⊕ LpmIter :=
  let walk := it.walk
  match it.lpm.pages (walk.pages walk.hop) (walk.key walk.hop) with
  | .page child => .inr { it with walk := walk.descend it.rangeFrom it.rangeTo child }
  | .value raw =>
    let newVal := lpmValueGet raw
    if walk.prevValue ≠ newVal then
      let hasYield : Bool := walk.prevValue ≠ LPM_VALUE_INVALID
      let it := if hasYield then { it with curFrom := walk.prevFrom, curTo := walk.prevTo, curValue := walk.prevValue }
        else it
      let it := { it with walk := { walk with prevValue := newVal, prevFrom := fill walk.key walk.hop 0,
                                              prevTo := fill walk.key walk.hop 0xff } }
      if hasYield then .inl (true, it) else lpmIterAdvance it
    else lpmIterAdvance { it with walk := { walk with prevTo := fill walk.key walk.hop 0xff } }

def lpmIterLoop : Nat → LpmIter → Option (Bool × LpmIter)
  | 0, _ => none
  | fuel + 1, it =>
    match lpmIterRound it with
    | .inl result => some result
    | .inr it => lpmIterLoop fuel it

-- `lpm_iter_next`, each call with `lpm_insert`'s fuel; `none` if it runs out.
def lpmIterNext (it : LpmIter) : Option (Bool × LpmIter) :=
  if it.done then some (false, it) else lpmIterLoop (lpmInsertFuel it.keySize) it

-- `while (lpm_iter_next(&it))`, as the iterator test and the route module's FIB dump read it: the
-- range after each `true`.
def lpmIterCollect : Nat → LpmIter → Option (List ((Nat → UInt8) × (Nat → UInt8) × UInt32))
  | 0, _ => none
  | fuel + 1, it =>
    match lpmIterNext it with
    | none => none
    | some (false, _) => some []
    | some (true, it) => (lpmIterCollect fuel it).map (List.cons (it.curFrom, it.curTo, it.curValue))

-- The ranges of `lpm_iter_init` and `lpm_iter_next` until it returns false. There is at most one
-- range per block and one more, so `lpm_insert`'s fuel bounds the calls as well.
def lpmIterAll (lpm : Lpm) (keySize : Nat) (fromKey toKey : Nat → UInt8) :
    Option (List ((Nat → UInt8) × (Nat → UInt8) × UInt32)) :=
  lpmIterCollect (lpmInsertFuel keySize) (lpmIterInit lpm keySize fromKey toKey)

end Yanet
