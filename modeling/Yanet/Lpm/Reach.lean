import Yanet.Lpm.Insert

set_option autoImplicit false

-- The tries that `lpm_init` and any sequence of `lpm_insert` calls can build, and what `lpm_lookup`
-- answers on them. Every such trie is valid, whatever bounds the calls had. On a valid trie an insert
-- of `from ≤ to` returns within its fuel, and `InsertOutcome` read through `LPM_VALUE_GET` gives the
-- lookups: the range answers the value when the insert returns 0, and only part of it may when the
-- insert fails.

namespace Yanet

open BigEndian

-- What the walk keeps whatever its bounds: a valid trie and a stack within the key.
structure InsertShape (keySize : Nat) (state : LpmInsertState) : Prop where
  valid : state.lpm.Valid keySize
  stack : LpmStack state.lpm state.key state.pages state.hop
  hop_lt : state.hop < keySize

section Shape

variable {keySize : Nat} {fromKey toKey : Nat → UInt8} {v : UInt32} {state : LpmInsertState}

theorem InsertShape.descend (shape : InsertShape keySize state) {child : Nat}
    (slot : state.lpm.pages (state.pages state.hop) (state.key state.hop) = .page child) (deep : state.hop + 1 < keySize) :
    InsertShape keySize (lpmInsertDescend fromKey state child) := by
  rw [lpmInsertDescend_eq]
  exact ⟨shape.valid, shape.stack.descend slot _, deep⟩

theorem InsertShape.step (shape : InsertShape keySize state) (alloc : Nat → Bool) :
    (∃ result, lpmInsertStep alloc keySize fromKey toKey v state = .inl result ∧ result.2.Valid keySize) ∨
    ∃ next, lpmInsertStep alloc keySize fromKey toKey v state = .inr next ∧ InsertShape keySize next := by
  rcases lpmInsertStep_cases alloc state with ⟨child, slot, step⟩ | ⟨old, slot, splits, -, step⟩ |
    ⟨old, lpm', slot, splits, ok, step⟩ | ⟨old, slot, -, -, step⟩ | ⟨old, hop', key', slot, -, next, step⟩
  · exact .inr ⟨_, step, shape.descend slot (shape.stack.deep shape.valid slot)⟩
  · exact .inl ⟨_, step, shape.valid⟩
  · obtain ⟨valid, stack, pointer⟩ := shape.stack.split shape.valid slot (by omega) ok
    have split : InsertShape keySize { state with lpm := lpm' } := ⟨valid, stack, shape.hop_lt⟩
    exact .inr ⟨_, step, split.descend pointer (show state.hop + 1 < keySize by omega)⟩
  · exact .inl ⟨_, step, shape.valid.write_value _ _ _⟩
  · obtain ⟨le, same⟩ := lpmInsertAdvance_le _ _ next
    exact .inr ⟨_, step, shape.valid.write_value _ _ _, (shape.stack.write_leaf slot _).restrict le same,
      by have := shape.hop_lt; dsimp only; omega⟩

theorem insertShape_run (alloc : Nat → Bool) (fuel : Nat) :
    ∀ state, InsertShape keySize state → ∀ result,
      lpmInsertLoop alloc keySize fromKey toKey v fuel state = some result → result.2.Valid keySize := by
  induction fuel with
  | zero => exact fun _ _ _ ran => by cases ran
  | succ fuel ih =>
    intro state shape result ran
    rcases shape.step alloc with ⟨returned, step, valid⟩ | ⟨next, step, shape'⟩
    · rw [lpmInsertLoop, step, Option.some.injEq] at ran
      rw [← ran]
      exact valid
    · rw [lpmInsertLoop, step] at ran
      exact ih next shape' result ran

theorem lpmInsert_valid (alloc : Nat → Bool) {lpm : Lpm} (valid : lpm.Valid keySize) (pos : 0 < keySize)
    {result : Int × Lpm} (ok : lpmInsert alloc lpm keySize fromKey toKey v = some result) : result.2.Valid keySize :=
  insertShape_run alloc _ _ ⟨valid, ⟨rfl, fun j below => absurd below (Nat.not_lt_zero j)⟩, pos⟩ result ok

end Shape

theorem lpmInit_eq {alloc : Nat → Bool} {lpm : Lpm} (ok : lpmInit alloc = some lpm) :
    lpm = (⟨fun _ _ => .value 0, 0⟩ : Lpm).push fun _ => .value 0xffffffffffffffff := by
  unfold lpmInit lpmNewPage at ok
  split at ok
  · cases ok
  · exact (Option.some.inj ok).symm

theorem lpmInit_valid {keySize : Nat} {alloc : Nat → Bool} {lpm : Lpm} (ok : lpmInit alloc = some lpm) :
    lpm.Valid keySize := by
  rw [lpmInit_eq ok]
  refine ⟨Nat.succ_pos 0, fun _ => [], rfl, fun p _ k q slot => ?_⟩
  rw [Lpm.push_pages] at slot
  split at slot <;> cases slot

theorem lpmLookup_init {keySize : Nat} (pos : 0 < keySize) {alloc : Nat → Bool} {lpm : Lpm}
    (ok : lpmInit alloc = some lpm) (x : Nat → UInt8) : lpmLookup lpm keySize x = LPM_VALUE_INVALID := by
  obtain ⟨n, rfl⟩ : ∃ n, keySize = n + 1 := ⟨keySize - 1, by omega⟩
  have slot : lpm.pages 0 (x 0) = .value 0xffffffffffffffff := by rw [lpmInit_eq ok, Lpm.push_pages, if_pos rfl]
  rw [lpmLookup, lpmLookupFrom_value slot]
  decide

theorem lpmValueGet_set {v : UInt32} (small : v.toNat < 2 ^ 31) : lpmValueGet (lpmValueSet v) = v := by
  apply UInt32.toNat_inj.mp
  unfold lpmValueGet lpmValueSet
  simp only [UInt64.toNat_toUInt32, UInt64.toNat_shiftRight, UInt32.toNat_toUInt64, UInt32.toNat_or,
    UInt32.toNat_shiftLeft, show UInt32.toNat 1 = 1 from rfl, show UInt64.toNat 1 = 1 from rfl]
  -- `v < 2 ^ 31`: the shift loses no bit, and the flag lands in the bit it frees
  have doubled : v.toNat <<< 1 % 2 ^ 32 = v.toNat <<< 1 := Nat.mod_eq_of_lt (by rw [Nat.shiftLeft_eq]; omega)
  rw [Nat.mod_eq_of_lt (show 1 < 32 by omega), doubled, ← Nat.shiftLeft_add_eq_or_of_lt (show 1 < 2 ^ 1 by omega),
    Nat.shiftLeft_eq, Nat.shiftRight_eq_div_pow]
  omega

-- The tries built by `lpm_init` and then any completed `lpm_insert` calls, failed ones included.
inductive LpmReachable (keySize : Nat) : Lpm → Prop
  | init {alloc : Nat → Bool} {lpm : Lpm} : lpmInit alloc = some lpm → LpmReachable keySize lpm
  | insert {alloc : Nat → Bool} {lpm : Lpm} {fromKey toKey : Nat → UInt8} {value : UInt32} {result : Int × Lpm} :
      LpmReachable keySize lpm → lpmInsert alloc lpm keySize fromKey toKey value = some result →
      LpmReachable keySize result.2

theorem LpmReachable.valid {keySize : Nat} (pos : 0 < keySize) {lpm : Lpm} (reach : LpmReachable keySize lpm) :
    lpm.Valid keySize := by
  induction reach with
  | init ok => exact lpmInit_valid ok
  | insert _ ok valid => exact lpmInsert_valid _ valid pos ok

section Lookup

variable {keySize : Nat} {fromKey toKey : Nat → UInt8} {v : UInt32} {before lpm : Lpm}

theorem lpmLookup_of_written {bound : Nat} (small : v.toNat < 2 ^ 31)
    (written : InsertWritten keySize fromKey toKey (lpmValueSet v) before bound lpm) (x : Nat → UInt8) :
    lpmLookup lpm keySize x =
      if value fromKey 0 keySize ≤ value x 0 keySize ∧ value x 0 keySize ≤ value toKey 0 keySize ∧
        value x 0 keySize < bound then v
      else lpmLookup before keySize x := by
  unfold lpmLookup
  rw [written x]
  split
  · rw [Option.map_some, Option.getD_some, lpmValueGet_set small]
  · rfl

theorem lpmInsert_lookup (alloc : Nat → Bool) (valid : before.Valid keySize) (pos : 0 < keySize)
    (range : value fromKey 0 keySize ≤ value toKey 0 keySize) (small : v.toNat < 2 ^ 31) :
    (∃ result, lpmInsert alloc before keySize fromKey toKey v = some result ∧ (result.1 = 0 ∨ result.1 = -1)) ∧
    (∀ lpm', lpmInsert alloc before keySize fromKey toKey v = some (0, lpm') → ∀ x,
      lpmLookup lpm' keySize x =
        if value fromKey 0 keySize ≤ value x 0 keySize ∧ value x 0 keySize ≤ value toKey 0 keySize then v
        else lpmLookup before keySize x) ∧
    (∀ lpm', lpmInsert alloc before keySize fromKey toKey v = some (-1, lpm') → ∃ bound, ∀ x,
      lpmLookup lpm' keySize x =
        if value fromKey 0 keySize ≤ value x 0 keySize ∧ value x 0 keySize ≤ value toKey 0 keySize ∧
          value x 0 keySize < bound then v
        else lpmLookup before keySize x) := by
  obtain ⟨result, ok, -, outcome⟩ := lpmInsert_spec alloc valid pos range v
  refine ⟨⟨result, ok, outcome.imp And.left And.left⟩, fun lpm' done x => ?_, fun lpm' failed => ?_⟩
  · rw [ok, Option.some.injEq] at done
    subst done
    rcases outcome with ⟨-, written⟩ | ⟨code, -⟩
    · rw [lpmLookup_of_written small written x]
      by_cases lo : value fromKey 0 keySize ≤ value x 0 keySize
      · by_cases hi : value x 0 keySize ≤ value toKey 0 keySize
        · rw [if_pos ⟨lo, hi, by omega⟩, if_pos ⟨lo, hi⟩]
        · rw [if_neg fun inside => hi inside.2.1, if_neg fun inside => hi inside.2]
      · rw [if_neg fun inside => lo inside.1, if_neg fun inside => lo inside.1]
    · cases code
  · rw [ok, Option.some.injEq] at failed
    subst failed
    rcases outcome with ⟨code, -⟩ | ⟨-, bound, written⟩
    · cases code
    · exact ⟨bound, lpmLookup_of_written small written⟩

end Lookup

def lpmKey (bytes : List UInt8) : Nat → UInt8 := fun i => bytes.getD i 0

def lpmFresh : Lpm := (⟨fun _ _ => .value 0, 0⟩ : Lpm).push fun _ => .value 0xffffffffffffffff

theorem lpm_insert_overwrites_range {keySize : Nat} (pos : 0 < keySize) {lpm : Lpm} (reach : LpmReachable keySize lpm)
    (alloc : Nat → Bool) {fromKey toKey : Nat → UInt8} (range : value fromKey 0 keySize ≤ value toKey 0 keySize)
    {v : UInt32} (small : v.toNat < 2 ^ 31) :
    (∀ alloc' fresh, lpmInit alloc' = some fresh → ∀ x, lpmLookup fresh keySize x = LPM_VALUE_INVALID) ∧
    (∃ result, lpmInsert alloc lpm keySize fromKey toKey v = some result ∧ (result.1 = 0 ∨ result.1 = -1)) ∧
    ∀ lpm', lpmInsert alloc lpm keySize fromKey toKey v = some (0, lpm') → ∀ x,
      lpmLookup lpm' keySize x =
        if value fromKey 0 keySize ≤ value x 0 keySize ∧ value x 0 keySize ≤ value toKey 0 keySize then v
        else lpmLookup lpm keySize x := by
  obtain ⟨returns, done, -⟩ := lpmInsert_lookup alloc (reach.valid pos) pos range small
  exact ⟨fun _ _ fresh => lpmLookup_init pos fresh, returns, done⟩

theorem lpm_insert_overwrites_range_ten :
    0 < 4 ∧ LpmReachable 4 lpmFresh ∧ value (lpmKey [10, 0, 0, 0]) 0 4 ≤ value (lpmKey [10, 255, 255, 255]) 0 4 ∧
    (7 : UInt32).toNat < 2 ^ 31 ∧
    ((∀ alloc' fresh, lpmInit alloc' = some fresh → ∀ x, lpmLookup fresh 4 x = LPM_VALUE_INVALID) ∧
    (∃ result, lpmInsert (fun _ => true) lpmFresh 4 (lpmKey [10, 0, 0, 0]) (lpmKey [10, 255, 255, 255]) 7 = some result ∧
      (result.1 = 0 ∨ result.1 = -1)) ∧
    ∀ lpm', lpmInsert (fun _ => true) lpmFresh 4 (lpmKey [10, 0, 0, 0]) (lpmKey [10, 255, 255, 255]) 7 = some (0, lpm') →
      ∀ x, lpmLookup lpm' 4 x =
        if value (lpmKey [10, 0, 0, 0]) 0 4 ≤ value x 0 4 ∧ value x 0 4 ≤ value (lpmKey [10, 255, 255, 255]) 0 4 then 7
        else lpmLookup lpmFresh 4 x) :=
  ⟨by decide, @LpmReachable.init 4 (fun _ => true) lpmFresh rfl, by decide, by decide,
    lpm_insert_overwrites_range (by decide) (@LpmReachable.init 4 (fun _ => true) lpmFresh rfl) (fun _ => true)
      (by decide) (by decide)⟩

-- A sequence of `lpm_insert` calls `(from, to, value)`: the trie after them, if each completed.
def lpmInsertAll (alloc : Nat → Bool) (keySize : Nat) :
    List ((Nat → UInt8) × (Nat → UInt8) × UInt32) → Lpm → Option Lpm
  | [], lpm => some lpm
  | (fromKey, toKey, value) :: inserts, lpm =>
    match lpmInsert alloc lpm keySize fromKey toKey value with
    | some (_, lpm') => lpmInsertAll alloc keySize inserts lpm'
    | none => none

theorem LpmReachable.insertAll {keySize : Nat} {alloc : Nat → Bool} :
    ∀ {inserts : List ((Nat → UInt8) × (Nat → UInt8) × UInt32)} {lpm lpm' : Lpm}, LpmReachable keySize lpm →
      lpmInsertAll alloc keySize inserts lpm = some lpm' → LpmReachable keySize lpm'
  | [], _, _, reach, ok => by
    rw [lpmInsertAll, Option.some.injEq] at ok
    exact ok ▸ reach
  | (fromKey, toKey, value) :: inserts, lpm, lpm', reach, ok => by
    rw [lpmInsertAll] at ok
    split at ok
    · rename_i result code next inserted
      exact LpmReachable.insertAll (@LpmReachable.insert keySize alloc lpm fromKey toKey value (code, next) reach inserted) ok
    · cases ok

theorem lpm_insert_failure_keeps_lookups {keySize : Nat} (pos : 0 < keySize) {lpm : Lpm}
    (reach : LpmReachable keySize lpm) (alloc : Nat → Bool) {fromKey toKey : Nat → UInt8}
    (range : value fromKey 0 keySize ≤ value toKey 0 keySize) {v : UInt32} (small : v.toNat < 2 ^ 31) {lpm' : Lpm}
    (fail : lpmInsert alloc lpm keySize fromKey toKey v = some (-1, lpm')) :
    (∀ x, ¬(value fromKey 0 keySize ≤ value x 0 keySize ∧ value x 0 keySize ≤ value toKey 0 keySize) →
      lpmLookup lpm' keySize x = lpmLookup lpm keySize x) ∧
    (∀ x, value fromKey 0 keySize ≤ value x 0 keySize ∧ value x 0 keySize ≤ value toKey 0 keySize →
      lpmLookup lpm' keySize x = v ∨ lpmLookup lpm' keySize x = lpmLookup lpm keySize x) ∧
    LpmReachable keySize lpm' ∧ lpm'.Valid keySize ∧
    ∀ (alloc' : Nat → Bool) (fromKey' toKey' : Nat → UInt8) (v' : UInt32),
      value fromKey' 0 keySize ≤ value toKey' 0 keySize → v'.toNat < 2 ^ 31 →
      (∃ result, lpmInsert alloc' lpm' keySize fromKey' toKey' v' = some result ∧ (result.1 = 0 ∨ result.1 = -1)) ∧
      ∀ lpm'', lpmInsert alloc' lpm' keySize fromKey' toKey' v' = some (0, lpm'') → ∀ x,
        lpmLookup lpm'' keySize x =
          if value fromKey' 0 keySize ≤ value x 0 keySize ∧ value x 0 keySize ≤ value toKey' 0 keySize then v'
          else lpmLookup lpm' keySize x := by
  obtain ⟨-, -, partly⟩ := lpmInsert_lookup alloc (reach.valid pos) pos range small
  obtain ⟨bound, written⟩ := partly lpm' fail
  have reach' : LpmReachable keySize lpm' := @LpmReachable.insert keySize alloc lpm fromKey toKey v (-1, lpm') reach fail
  refine ⟨fun x outside => ?_, fun x inside => ?_, reach', reach'.valid pos,
    fun alloc' fromKey' toKey' v' range' small' => ?_⟩
  · rw [written x, if_neg fun written => outside ⟨written.1, written.2.1⟩]
  · rw [written x]
    split
    · exact .inl rfl
    · exact .inr rfl
  · obtain ⟨returns, done, -⟩ := lpmInsert_lookup alloc' (reach'.valid pos) pos range' small'
    exact ⟨returns, done⟩

-- Fourteen, then fifteen, single keys inserted into a fresh two-byte trie: each splits one slot of
-- level 0, so the tries have 15 and 16 pages, and the next split needs a new chunk.
def splitInserts (n : Nat) : List ((Nat → UInt8) × (Nat → UInt8) × UInt32) :=
  (List.range n).map fun i => (lpmKey [UInt8.ofNat (16 + i), 0], lpmKey [UInt8.ofNat (16 + i), 0], 0)

def lpmSplit15 : Lpm := (lpmInsertAll (fun _ => true) 2 (splitInserts 14) lpmFresh).getD lpmFresh

def lpmSplit16 : Lpm := (lpmInsertAll (fun _ => true) 2 (splitInserts 15) lpmFresh).getD lpmFresh

theorem lpmInsertAll_reachable {keySize : Nat} {alloc : Nat → Bool}
    {inserts : List ((Nat → UInt8) × (Nat → UInt8) × UInt32)} {lpm : Lpm} (reach : LpmReachable keySize lpm)
    (completes : (lpmInsertAll alloc keySize inserts lpm).isSome = true) :
    LpmReachable keySize ((lpmInsertAll alloc keySize inserts lpm).getD lpm) := by
  obtain ⟨lpm', built⟩ := Option.isSome_iff_exists.mp completes
  rw [built, Option.getD_some]
  exact LpmReachable.insertAll reach built

theorem lpmSplit15_reachable : LpmReachable 2 lpmSplit15 :=
  lpmInsertAll_reachable (@LpmReachable.init 2 (fun _ => true) lpmFresh rfl) (by decide +kernel)

theorem lpmSplit16_reachable : LpmReachable 2 lpmSplit16 :=
  lpmInsertAll_reachable (@LpmReachable.init 2 (fun _ => true) lpmFresh rfl) (by decide +kernel)

theorem lpmInsert_eq_of_code {result : Option (Int × Lpm)} {code : Int} (first : result.map Prod.fst = some code) :
    result = some (code, (result.map Prod.snd).getD lpmFresh) := by
  cases result with
  | none => cases first
  | some returned =>
    rw [Option.map_some, Option.some.injEq] at first
    rw [Option.map_some, Option.getD_some, ← first]

-- What a failed insert into the 16-page trie leaves, for a value of 31 bits and for one of 32.
def lpmFailure16 (v : UInt32) : Lpm :=
  ((lpmInsert (fun _ => false) lpmSplit16 2 (lpmKey [0, 0]) (lpmKey [1, 5]) v).map Prod.snd).getD lpmFresh

-- What a failed insert with `from > to` leaves in the 15-page trie: its first split still fits.
def lpmReversedFailure : Lpm :=
  ((lpmInsert (fun _ => false) lpmSplit15 2 (lpmKey [1, 0]) (lpmKey [0, 0]) 7).map Prod.snd).getD lpmFresh

theorem lpm_insert_failure_keeps_lookups_split16 :
    0 < 2 ∧ LpmReachable 2 lpmSplit16 ∧ value (lpmKey [0, 0]) 0 2 ≤ value (lpmKey [1, 5]) 0 2 ∧
    (7 : UInt32).toNat < 2 ^ 31 ∧
    lpmInsert (fun _ => false) lpmSplit16 2 (lpmKey [0, 0]) (lpmKey [1, 5]) 7 = some (-1, lpmFailure16 7) ∧
    ((∀ x, ¬(value (lpmKey [0, 0]) 0 2 ≤ value x 0 2 ∧ value x 0 2 ≤ value (lpmKey [1, 5]) 0 2) →
      lpmLookup (lpmFailure16 7) 2 x = lpmLookup lpmSplit16 2 x) ∧
    (∀ x, value (lpmKey [0, 0]) 0 2 ≤ value x 0 2 ∧ value x 0 2 ≤ value (lpmKey [1, 5]) 0 2 →
      lpmLookup (lpmFailure16 7) 2 x = 7 ∨ lpmLookup (lpmFailure16 7) 2 x = lpmLookup lpmSplit16 2 x) ∧
    LpmReachable 2 (lpmFailure16 7) ∧ (lpmFailure16 7).Valid 2 ∧
    ∀ (alloc' : Nat → Bool) (fromKey' toKey' : Nat → UInt8) (v' : UInt32),
      value fromKey' 0 2 ≤ value toKey' 0 2 → v'.toNat < 2 ^ 31 →
      (∃ result, lpmInsert alloc' (lpmFailure16 7) 2 fromKey' toKey' v' = some result ∧
        (result.1 = 0 ∨ result.1 = -1)) ∧
      ∀ lpm'', lpmInsert alloc' (lpmFailure16 7) 2 fromKey' toKey' v' = some (0, lpm'') → ∀ x,
        lpmLookup lpm'' 2 x =
          if value fromKey' 0 2 ≤ value x 0 2 ∧ value x 0 2 ≤ value toKey' 0 2 then v'
          else lpmLookup (lpmFailure16 7) 2 x) :=
  have fail := lpmInsert_eq_of_code (by decide +kernel :
    (lpmInsert (fun _ => false) lpmSplit16 2 (lpmKey [0, 0]) (lpmKey [1, 5]) 7).map Prod.fst = some (-1))
  ⟨by decide, lpmSplit16_reachable, by decide, by decide, fail,
    lpm_insert_failure_keeps_lookups (by decide) lpmSplit16_reachable (fun _ => false) (by decide) (by decide) fail⟩

-- Without the bounds of the amended statement: a failed insert of a 32-bit value has already
-- written `LPM_VALUE_SET` of it, which reads back without its top bit; and a failed insert with
-- `from > to` has already written keys outside the empty range.
theorem lpm_insert_failure_without_bounds :
    LpmReachable 2 lpmSplit16 ∧
    lpmInsert (fun _ => false) lpmSplit16 2 (lpmKey [0, 0]) (lpmKey [1, 5]) 0x80000000 =
      some (-1, lpmFailure16 0x80000000) ∧
    value (lpmKey [0, 0]) 0 2 ≤ value (lpmKey [1, 5]) 0 2 ∧
    lpmLookup (lpmFailure16 0x80000000) 2 (lpmKey [0, 0]) ≠ 0x80000000 ∧
    lpmLookup (lpmFailure16 0x80000000) 2 (lpmKey [0, 0]) ≠ lpmLookup lpmSplit16 2 (lpmKey [0, 0]) ∧
    LpmReachable 2 lpmSplit15 ∧
    lpmInsert (fun _ => false) lpmSplit15 2 (lpmKey [1, 0]) (lpmKey [0, 0]) 7 = some (-1, lpmReversedFailure) ∧
    ¬(value (lpmKey [1, 0]) 0 2 ≤ value (lpmKey [1, 0]) 0 2 ∧ value (lpmKey [1, 0]) 0 2 ≤ value (lpmKey [0, 0]) 0 2) ∧
    lpmLookup lpmReversedFailure 2 (lpmKey [1, 0]) ≠ lpmLookup lpmSplit15 2 (lpmKey [1, 0]) :=
  ⟨lpmSplit16_reachable, lpmInsert_eq_of_code (by decide +kernel), by decide, by decide +kernel, by decide +kernel,
    lpmSplit15_reachable, lpmInsert_eq_of_code (by decide +kernel), by decide, by decide +kernel⟩

end Yanet
