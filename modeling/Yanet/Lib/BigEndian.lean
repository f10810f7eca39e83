import Mathlib.Tactic.Ring
import Mathlib.Tactic.Positivity

set_option autoImplicit false

-- Byte arrays read as big-endian numbers. The bytes `i … i + n - 1` of an array have a value
-- below `256 ^ n`; splitting the bytes splits the value; the keys that share a prefix of `h + 1`
-- bytes form an interval, bounded by the prefix padded with `0x00` and with `0xff`.

namespace BigEndian

-- The big-endian value of the `n` bytes of `key` from index `i` on.
def value (key : Nat → UInt8) (i : Nat) : Nat → Nat
  | 0 => 0
  | n + 1 => (key i).toNat * 256 ^ n + value key (i + 1) n

-- The bytes up to `h` taken from `key`, the later ones all `byte`.
def fill (key : Nat → UInt8) (h : Nat) (byte : UInt8) : Nat → UInt8 := fun j => if j ≤ h then key j else byte

variable {key key' : Nat → UInt8}

@[simp] theorem value_zero (i : Nat) : value key i 0 = 0 := rfl

theorem value_succ (i n : Nat) : value key i (n + 1) = (key i).toNat * 256 ^ n + value key (i + 1) n := rfl

theorem byte_lt (b : UInt8) : b.toNat < 256 := b.toNat_lt

theorem value_lt (i n : Nat) : value key i n < 256 ^ n := by
  induction n generalizing i with
  | zero => simp
  | succ n ih =>
    have byte := byte_lt (key i)
    have rest := ih (i + 1)
    rw [value_succ]
    calc (key i).toNat * 256 ^ n + value key (i + 1) n < ((key i).toNat + 1) * 256 ^ n := by
          rw [Nat.add_mul, Nat.one_mul]
          exact Nat.add_lt_add_left rest _
      _ ≤ 256 * 256 ^ n := Nat.mul_le_mul_right _ byte
      _ = 256 ^ (n + 1) := (Nat.pow_succ' ..).symm

theorem value_congr {i n : Nat} (same : ∀ j, i ≤ j → j < i + n → key j = key' j) :
    value key i n = value key' i n := by
  induction n generalizing i with
  | zero => rfl
  | succ n ih =>
    rw [value_succ, value_succ, same i (Nat.le_refl i) (by omega)]
    congr 1
    exact ih fun j lo hi => same j (by omega) (by omega)

theorem value_add (i m n : Nat) : value key i (m + n) = value key i m * 256 ^ n + value key (i + m) n := by
  induction m generalizing i with
  | zero => simp
  | succ m ih =>
    rw [Nat.add_right_comm, value_succ, ih, value_succ, Nat.add_assoc i 1 m, Nat.add_comm 1 m, Nat.pow_add]
    ring

theorem value_lt_of_byte_lt {r : Nat → UInt8} {i n : Nat} (lt : key i < r i) :
    value key i (n + 1) < value r i (n + 1) := by
  have first : (key i).toNat + 1 ≤ (r i).toNat := UInt8.lt_iff_toNat_lt.mp lt
  have rest := @value_lt key (i + 1) n
  rw [value_succ, value_succ]
  calc (key i).toNat * 256 ^ n + value key (i + 1) n < ((key i).toNat + 1) * 256 ^ n := by
        rw [Nat.add_mul, Nat.one_mul]
        exact Nat.add_lt_add_left rest _
    _ ≤ (r i).toNat * 256 ^ n := Nat.mul_le_mul_right _ first
    _ ≤ (r i).toNat * 256 ^ n + value r (i + 1) n := Nat.le_add_right _ _

theorem value_succ_lt_iff_of_eq {r : Nat → UInt8} {i n : Nat} (same : key i = r i) :
    value key i (n + 1) < value r i (n + 1) ↔ value key (i + 1) n < value r (i + 1) n := by
  rw [value_succ, value_succ, same]
  exact Nat.add_lt_add_iff_left

theorem value_eq_iff {r : Nat → UInt8} {i n : Nat} :
    value key i n = value r i n ↔ ∀ j, i ≤ j → j < i + n → key j = r j := by
  constructor
  · intro eq
    induction n generalizing i with
    | zero => intro j lo hi; omega
    | succ n ih =>
      have first : key i = r i := by
        rcases Nat.lt_trichotomy (key i).toNat (r i).toNat with lt | same | gt
        · exact absurd eq (Nat.ne_of_lt (value_lt_of_byte_lt (UInt8.lt_iff_toNat_lt.mpr lt)))
        · exact UInt8.toNat_inj.mp same
        · exact absurd eq (Nat.ne_of_gt (value_lt_of_byte_lt (UInt8.lt_iff_toNat_lt.mpr gt)))
      have rest : value key (i + 1) n = value r (i + 1) n := by
        rw [value_succ, value_succ, first] at eq
        exact Nat.add_left_cancel eq
      intro j lo hi
      rcases Nat.eq_or_lt_of_le lo with rfl | later
      · exact first
      · exact ih rest j later (by omega)
  · exact value_congr

@[simp] theorem value_const_zero (i n : Nat) : value (fun _ => 0) i n = 0 := by
  induction n generalizing i with
  | zero => rfl
  | succ n ih => simp [value_succ, ih]

@[simp] theorem value_const_ff (i n : Nat) : value (fun _ => 0xff) i n = 256 ^ n - 1 := by
  induction n generalizing i with
  | zero => rfl
  | succ n ih =>
    rw [value_succ, ih]
    have pos : 0 < 256 ^ n := by positivity
    show 255 * 256 ^ n + (256 ^ n - 1) = 256 ^ (n + 1) - 1
    rw [Nat.pow_succ]
    omega

section Fill

variable {h n : Nat}

theorem value_fill (byte : UInt8) (lt : h < n) :
    value (fill key h byte) 0 n =
      value key 0 (h + 1) * 256 ^ (n - (h + 1)) + value (fun _ => byte) (h + 1) (n - (h + 1)) := by
  obtain ⟨r, rfl⟩ : ∃ r, n = h + 1 + r := ⟨n - (h + 1), by omega⟩
  rw [value_add, Nat.add_sub_cancel_left]
  congr 1
  · congr 1
    exact value_congr fun j _ hi => if_pos (by omega)
  · rw [Nat.zero_add]
    exact value_congr fun j lo _ => if_neg (by omega)

theorem prefix_iff_mem_interval (x : Nat → UInt8) (lt : h < n) :
    (∀ j ≤ h, x j = key j) ↔
      value (fill key h 0) 0 n ≤ value x 0 n ∧ value x 0 n ≤ value (fill key h 0xff) 0 n := by
  rw [value_fill 0 lt, value_fill 0xff lt, value_const_zero, value_const_ff, Nat.add_zero]
  obtain ⟨r, rfl⟩ : ∃ r, n = h + 1 + r := ⟨n - (h + 1), by omega⟩
  rw [Nat.add_sub_cancel_left, @value_add x 0 (h + 1) r]
  have rest := @value_lt x (0 + (h + 1)) r
  have pos : 0 < 256 ^ r := by positivity
  have same : (∀ j ≤ h, x j = key j) ↔ value x 0 (h + 1) = value key 0 (h + 1) := by
    rw [value_eq_iff]
    exact ⟨fun eq j _ hi => eq j (by omega), fun eq j le => eq j (Nat.zero_le j) (by omega)⟩
  rw [same]
  generalize value x 0 (h + 1) = a at rest ⊢
  generalize value key 0 (h + 1) = b
  generalize value x (0 + (h + 1)) r = c at rest ⊢
  generalize 256 ^ r = B at rest pos ⊢
  constructor
  · rintro rfl
    generalize a * B = aB
    omega
  · rintro ⟨lo, hi⟩
    rcases Nat.lt_trichotomy a b with less | same | more
    · have step : (a + 1) * B ≤ b * B := Nat.mul_le_mul_right B less
      rw [Nat.add_mul, Nat.one_mul] at step
      generalize a * B = aB at step lo hi
      generalize b * B = bB at step lo hi
      omega
    · exact same
    · have step : (b + 1) * B ≤ a * B := Nat.mul_le_mul_right B more
      rw [Nat.add_mul, Nat.one_mul] at step
      generalize a * B = aB at step lo hi
      generalize b * B = bB at step lo hi
      omega

end Fill

theorem value_succ_right (i n : Nat) : value key i (n + 1) = value key i n * 256 + (key (i + n)).toNat := by
  rw [value_add, value_succ, value_zero]
  ring

theorem mul_add_lt_mul {a b r B : Nat} (less : a < b) (rest : r < B) : a * B + r < b * B :=
  calc a * B + r < a * B + B := Nat.add_lt_add_left rest _
    _ = (a + 1) * B := by ring
    _ ≤ b * B := Nat.mul_le_mul_right B less

-- The first and the last of the keys whose bytes `0 … h` are those of `key`.
def blockFirst (n : Nat) (key : Nat → UInt8) (h : Nat) : Nat := value (fill key h 0) 0 n

def blockLast (n : Nat) (key : Nat → UInt8) (h : Nat) : Nat := value (fill key h 0xff) 0 n

section Block

variable {x : Nat → UInt8} {h n : Nat}

theorem blockFirst_eq (lt : h < n) : blockFirst n key h = value key 0 (h + 1) * 256 ^ (n - (h + 1)) := by
  rw [blockFirst, value_fill 0 lt, value_const_zero, Nat.add_zero]

theorem blockLast_eq (lt : h < n) :
    blockLast n key h = value key 0 (h + 1) * 256 ^ (n - (h + 1)) + (256 ^ (n - (h + 1)) - 1) := by
  rw [blockLast, value_fill 0xff lt, value_const_ff]

theorem value_eq_block (x : Nat → UInt8) (lt : h < n) :
    value x 0 n = value x 0 (h + 1) * 256 ^ (n - (h + 1)) + value x (h + 1) (n - (h + 1)) := by
  obtain ⟨r, rfl⟩ : ∃ r, n = h + 1 + r := ⟨n - (h + 1), by omega⟩
  rw [value_add, Nat.add_sub_cancel_left, Nat.zero_add]

theorem mem_block_iff (x : Nat → UInt8) (lt : h < n) :
    (∀ j ≤ h, x j = key j) ↔ blockFirst n key h ≤ value x 0 n ∧ value x 0 n ≤ blockLast n key h :=
  prefix_iff_mem_interval x lt

theorem blockFirst_le_blockLast (lt : h < n) : blockFirst n key h ≤ blockLast n key h := by
  rw [blockFirst_eq lt, blockLast_eq lt]
  exact Nat.le_add_right _ _

theorem lt_blockFirst (lt : h < n) (less : value x 0 (h + 1) < value key 0 (h + 1)) :
    value x 0 n < blockFirst n key h := by
  rw [value_eq_block x lt, blockFirst_eq lt]
  exact mul_add_lt_mul less (value_lt _ _)

theorem blockLast_lt (lt : h < n) (less : value key 0 (h + 1) < value x 0 (h + 1)) :
    blockLast n key h < value x 0 n := by
  have pos : 0 < 256 ^ (n - (h + 1)) := by positivity
  rw [value_eq_block x lt, blockLast_eq lt]
  calc value key 0 (h + 1) * 256 ^ (n - (h + 1)) + (256 ^ (n - (h + 1)) - 1)
      < value x 0 (h + 1) * 256 ^ (n - (h + 1)) := mul_add_lt_mul less (by omega)
    _ ≤ _ := Nat.le_add_right _ _

theorem blockFirst_next (lt : h < n) (same : ∀ j < h, key' j = key j) (succ : (key' h).toNat = (key h).toNat + 1) :
    blockFirst n key' h = blockLast n key h + 1 := by
  have pos : 0 < 256 ^ (n - (h + 1)) := by positivity
  have below : value key' 0 h = value key 0 h := value_congr fun j _ hi => same j (by omega)
  have digits : value key' 0 (h + 1) = value key 0 (h + 1) + 1 := by
    rw [value_succ_right, value_succ_right, Nat.zero_add, below, succ]
    ring
  rw [blockFirst_eq lt, blockLast_eq lt, digits, Nat.add_mul, Nat.one_mul]
  omega

theorem blockFirst_update_succ (lt : h + 1 < n) (b : UInt8) :
    blockFirst n (Function.update key (h + 1) b) (h + 1) = blockFirst n key h + b.toNat * 256 ^ (n - (h + 2)) := by
  have below : value (Function.update key (h + 1) b) 0 (h + 1) = value key 0 (h + 1) :=
    value_congr fun j _ hi => Function.update_of_ne (by omega) _ _
  have digits : value (Function.update key (h + 1) b) 0 (h + 2) = value key 0 (h + 1) * 256 + b.toNat := by
    rw [value_succ_right, below, Nat.zero_add, Function.update_self]
  rw [blockFirst_eq lt, blockFirst_eq (by omega), digits, show n - (h + 1) = n - (h + 2) + 1 by omega, Nat.pow_succ]
  ring

theorem blockLast_parent (same : ∀ j ≤ h, key' j = key j) (top : key (h + 1) = 0xff) :
    blockLast n key' h = blockLast n key (h + 1) := by
  unfold blockLast
  refine value_congr fun j _ _ => ?_
  unfold fill
  by_cases le : j ≤ h
  · rw [if_pos le, if_pos (by omega), same j le]
  · by_cases at_top : j = h + 1
    · rw [if_neg le, if_pos (by omega), at_top, top]
    · rw [if_neg le, if_neg (by omega)]

theorem blockLast_root_of_top (top : key 0 = 0xff) : blockLast n key 0 = 256 ^ n - 1 := by
  unfold blockLast
  rw [← value_const_ff 0 n]
  refine value_congr fun j _ _ => ?_
  unfold fill
  by_cases zero : j ≤ 0
  · rw [if_pos zero, show j = 0 by omega, top]
  · rw [if_neg zero]

theorem blockFirst_of_last (last : h + 1 = n) : blockFirst n key h = value key 0 n :=
  value_congr fun j _ hi => if_pos (by omega)

theorem blockLast_of_last (last : h + 1 = n) : blockLast n key h = value key 0 n :=
  value_congr fun j _ hi => if_pos (by omega)

theorem eq_zero_of_blockFirst_eq (first : blockFirst n key h = value x 0 n)
    {d : Nat} (after : h < d) (lt : d < n) : x d = 0 := by
  have bytes := value_eq_iff.mp first d (Nat.zero_le d) (by omega)
  unfold fill at bytes
  rw [if_neg (by omega)] at bytes
  exact bytes.symm

theorem value_update_last (key : Nat → UInt8) (h : Nat) (b : UInt8) :
    value (Function.update key h b) 0 (h + 1) = value key 0 h * 256 + b.toNat := by
  rw [value_succ_right, Nat.zero_add, Function.update_self]
  congr 2
  exact value_congr fun j _ hi => Function.update_of_ne (by omega) _ _

theorem value_le_of_blockLast_le {x : Nat → UInt8} {h n : Nat} (lt : h < n) (within : blockLast n key h ≤ value x 0 n) :
    value key 0 (h + 1) ≤ value x 0 (h + 1) := by
  by_contra above
  have below := lt_blockFirst lt (Nat.lt_of_not_le above)
  have ordered := @blockFirst_le_blockLast key _ _ lt
  omega

theorem blockFirst_congr (same : ∀ j ≤ h, key' j = key j) : blockFirst n key' h = blockFirst n key h := by
  unfold blockFirst
  refine value_congr fun j _ _ => ?_
  unfold fill
  split
  · exact same j ‹_›
  · rfl

-- A depth-first walk standing on block `h` of `key`: the keys from the block on, weighted above the
-- levels still below it, so that going one level down or on to a later block makes it smaller.
def blockMeasure (n : Nat) (key : Nat → UInt8) (h : Nat) : Nat := (256 ^ n - blockFirst n key h) * (n + 1) + (n - h)

theorem blockMeasure_lt_of_deeper (first : blockFirst n key h ≤ blockFirst n key' (h + 1)) (lt : h < n) :
    blockMeasure n key' (h + 1) < blockMeasure n key h := by
  have fewer : (256 ^ n - blockFirst n key' (h + 1)) * (n + 1) ≤ (256 ^ n - blockFirst n key h) * (n + 1) :=
    Nat.mul_le_mul_right _ (by omega)
  unfold blockMeasure
  omega

theorem blockMeasure_lt_of_later {h' : Nat} (later : blockFirst n key h < blockFirst n key' h') :
    blockMeasure n key' h' < blockMeasure n key h := by
  have bound := @value_lt (fill key h 0) 0 n
  have fewer : (256 ^ n - blockFirst n key' h') * (n + 1) + (n + 1) ≤ (256 ^ n - blockFirst n key h) * (n + 1) := by
    rw [← Nat.succ_mul]
    exact Nat.mul_le_mul_right _ (by unfold blockFirst at *; omega)
  unfold blockMeasure
  omega

theorem blockMeasure_lt (n : Nat) (key : Nat → UInt8) (h : Nat) : blockMeasure n key h < 256 ^ n * (n + 1) + n + 1 := by
  have fewer : (256 ^ n - blockFirst n key h) * (n + 1) ≤ 256 ^ n * (n + 1) := Nat.mul_le_mul_right _ (Nat.sub_le _ _)
  unfold blockMeasure
  omega

theorem toNat_add_one_of_ne_ff {b : UInt8} (ne : b ≠ 0xff) : (b + 1).toNat = b.toNat + 1 := by
  have notTop : b.toNat ≠ 255 := fun top => ne (UInt8.toNat_inj.mp top)
  have bound := b.toNat_lt
  rw [UInt8.toNat_add, UInt8.toNat_one]
  omega

end Block

-- The `n` big-endian bytes of `m`.
def toBytes (n m : Nat) : Nat → UInt8 := fun j => UInt8.ofNat (m / 256 ^ (n - 1 - j))

theorem value_toBytes (n : Nat) : ∀ m, value (toBytes n m) 0 n = m % 256 ^ n := by
  induction n with
  | zero => intro m; rw [value_zero, Nat.pow_zero, Nat.mod_one]
  | succ n ih =>
    intro m
    -- the first `n` bytes are those of `m / 256`, the last one is `m`'s lowest
    have front : value (toBytes (n + 1) m) 0 n = value (toBytes n (m / 256)) 0 n := by
      refine value_congr fun j _ hi => ?_
      unfold toBytes
      rw [Nat.div_div_eq_div_mul, ← Nat.pow_succ', Nat.succ_eq_add_one, show n - 1 - j + 1 = n + 1 - 1 - j by omega]
    have back : (toBytes (n + 1) m n).toNat = m % 256 := by
      unfold toBytes
      rw [show n + 1 - 1 - n = 0 by omega, Nat.pow_zero, Nat.div_one, UInt8.toNat_ofNat']
    rw [value_succ_right, Nat.zero_add, front, ih, back, Nat.pow_succ', Nat.mod_mul]
    ring

end BigEndian
