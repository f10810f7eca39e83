import Mathlib

set_option autoImplicit false

-- Bit counting and single-bit updates of machine words. `trailingZeros bits x` counts the zero bits
-- below the lowest set bit of a word of `bits` bits, as `__builtin_ctz` does for 32 and
-- `__builtin_ctzll` for 64; it is the exponent of the largest power of two dividing a nonzero word. It is written by structural
-- recursion on the width so that it evaluates by `decide`, which core's `BitVec.ctz` does not.
-- A 32-bit mask with one bit set or cleared is read bit by bit through `Nat.testBit`. Flipping the
-- top bit of a word turns the signed order into the unsigned one.

namespace Bits

def trailingZeros : Nat → Nat → Nat
  | 0, _ => 0
  | bits + 1, x => if x % 2 = 0 then trailingZeros bits (x / 2) + 1 else 0

theorem two_pow_trailingZeros_dvd (bits x : Nat) : 2 ^ trailingZeros bits x ∣ x := by
  induction bits generalizing x with
  | zero => exact Nat.one_dvd x
  | succ bits ih =>
    rw [trailingZeros]
    split
    · rename_i even
      obtain ⟨y, rfl⟩ := Nat.dvd_of_mod_eq_zero even
      rw [Nat.mul_div_cancel_left y (by decide), Nat.pow_succ, Nat.mul_comm 2 y]
      exact Nat.mul_dvd_mul_right (ih y) 2
    · exact Nat.one_dvd x

theorem le_trailingZeros {bits x k : Nat} (nonzero : x ≠ 0) (word : x < 2 ^ bits) (dvd : 2 ^ k ∣ x) :
    k ≤ trailingZeros bits x := by
  induction bits generalizing x k with
  | zero =>
    rw [Nat.pow_zero] at word
    omega
  | succ bits ih =>
    rw [trailingZeros]
    split
    · rename_i even
      cases k with
      | zero => exact Nat.zero_le _
      | succ k =>
        have half : 2 ^ k ∣ x / 2 := by
          rw [Nat.pow_succ'] at dvd
          exact Nat.dvd_div_of_mul_dvd dvd
        exact Nat.succ_le_succ (ih (by omega) (by rw [Nat.pow_succ] at word; omega) half)
    · rename_i odd
      cases k with
      | zero => exact Nat.le_refl 0
      | succ k =>
        have even : 2 ∣ x := Nat.dvd_trans (by rw [Nat.pow_succ']; exact Nat.dvd_mul_right 2 _) dvd
        exact absurd (Nat.mod_eq_zero_of_dvd even) odd

theorem testBit_trailingZeros {bits x : Nat} (nonzero : x ≠ 0) (word : x < 2 ^ bits) :
    x.testBit (trailingZeros bits x) = true := by
  induction bits generalizing x with
  | zero =>
    rw [Nat.pow_zero] at word
    omega
  | succ bits ih =>
    rw [trailingZeros]
    split
    · rw [Nat.testBit_succ]
      exact ih (by omega) (by rw [Nat.pow_succ] at word; omega)
    · rename_i odd
      rw [Nat.testBit_zero, decide_eq_true_eq]
      omega

theorem trailingZeros_of_testBit_zero {bits x : Nat} (odd : x.testBit 0 = true) : trailingZeros bits x = 0 := by
  cases bits with
  | zero => rfl
  | succ bits =>
    rw [Nat.testBit_zero, decide_eq_true_eq] at odd
    rw [trailingZeros, if_neg (by omega)]

theorem toNat_one_shiftLeft (i : Nat) (small : i < 32) : ((1 : UInt32) <<< UInt32.ofNat i).toNat = 2 ^ i := by
  rw [UInt32.toNat_shiftLeft, UInt32.toNat_ofNat_of_lt' (Nat.lt_trans small (by decide)), UInt32.toNat_one,
    Nat.mod_eq_of_lt small, Nat.one_shiftLeft, Nat.mod_eq_of_lt (Nat.pow_lt_pow_right (by decide) small)]

theorem toBitVec_one_shiftLeft (i : Nat) (small : i < 32) :
    ((1 : UInt32) <<< UInt32.ofNat i).toBitVec = BitVec.twoPow 32 i := by
  apply BitVec.eq_of_toNat_eq
  rw [UInt32.toNat_toBitVec, toNat_one_shiftLeft i small, BitVec.toNat_twoPow,
    Nat.mod_eq_of_lt (Nat.pow_lt_pow_right (by decide) small)]

theorem testBit_and_not_one_shiftLeft (x : UInt32) {i : Nat} (small : i < 32) (j : Nat) :
    (x &&& ~~~((1 : UInt32) <<< UInt32.ofNat i)).toNat.testBit j = (x.toNat.testBit j && decide (j ≠ i)) := by
  rw [← UInt32.toNat_toBitVec, ← UInt32.toNat_toBitVec x, BitVec.testBit_toNat, BitVec.testBit_toNat,
    UInt32.toBitVec_and, UInt32.toBitVec_not, toBitVec_one_shiftLeft i small, BitVec.getLsbD_and, BitVec.getLsbD_not,
    BitVec.getLsbD_twoPow]
  by_cases low : j < 32
  · by_cases same : j = i
    · subst same
      simp
    · simp [low, same, Ne.symm same]
  · simp [BitVec.getLsbD_of_ge _ _ (Nat.le_of_not_lt low)]

theorem testBit_or_one_shiftLeft (x : UInt32) {i : Nat} (small : i < 32) (j : Nat) :
    (x ||| ((1 : UInt32) <<< UInt32.ofNat i)).toNat.testBit j = (x.toNat.testBit j || decide (j = i)) := by
  rw [UInt32.toNat_or, Nat.testBit_or, toNat_one_shiftLeft i small, Nat.testBit_two_pow]
  simp only [eq_comm]

theorem toNat_shiftRight_ofNat (x : UInt32) {i : Nat} (small : i < 32) :
    (x >>> UInt32.ofNat i).toNat = x.toNat >>> i := by
  rw [UInt32.toNat_shiftRight, UInt32.toNat_ofNat_of_lt' (Nat.lt_trans small (by decide)), Nat.mod_eq_of_lt small]

theorem div_two_pow_lt_two {k a : Nat} (word : a < 2 ^ (k + 1)) : a / 2 ^ k < 2 := by
  rw [Nat.div_lt_iff_lt_mul (Nat.two_pow_pos k)]
  rwa [Nat.pow_succ, Nat.mul_comm] at word

theorem xor_two_pow_of_lt {k a : Nat} (word : a < 2 ^ (k + 1)) :
    a ^^^ 2 ^ k = 2 ^ k * (1 - a / 2 ^ k) + a % 2 ^ k := by
  have high : (a ^^^ 2 ^ k) / 2 ^ k = 1 - a / 2 ^ k := by
    have top := div_two_pow_lt_two word
    rw [Nat.xor_div_two_pow, Nat.div_self (Nat.two_pow_pos k)]
    interval_cases a / 2 ^ k <;> rfl
  have low : (a ^^^ 2 ^ k) % 2 ^ k = a % 2 ^ k := by
    rw [Nat.xor_mod_two_pow, Nat.mod_self, Nat.xor_zero]
  rw [← Nat.div_add_mod (a ^^^ 2 ^ k) (2 ^ k), high, low]

-- Flipping the top bit maps the unsigned order onto the signed one: `x ^^^ 2^(w-1)` read signed
-- is `x` read unsigned, shifted down by `2^(w-1)`.
theorem toInt_xor_signBit {w : Nat} (wide : 0 < w) (x : BitVec w) :
    (x ^^^ BitVec.ofNat w (2 ^ (w - 1))).toInt = (x.toNat : Int) - (2 ^ (w - 1) : Nat) := by
  obtain ⟨k, rfl⟩ : ∃ k, w = k + 1 := ⟨w - 1, by omega⟩
  have word := x.isLt
  have sign : (BitVec.ofNat (k + 1) (2 ^ k)).toNat = 2 ^ k := by
    rw [BitVec.toNat_ofNat, Nat.mod_eq_of_lt (Nat.pow_lt_pow_right (by decide) (Nat.lt_succ_self k))]
  rw [Nat.add_sub_cancel, BitVec.toInt_eq_toNat_cond, BitVec.toNat_xor, sign, xor_two_pow_of_lt word]
  have split := Nat.div_add_mod x.toNat (2 ^ k)
  have top := div_two_pow_lt_two word
  have rest := Nat.mod_lt x.toNat (Nat.two_pow_pos k)
  rw [Nat.pow_succ] at word ⊢
  generalize 2 ^ k = P at *
  interval_cases x.toNat / P
  · rw [if_neg (by omega)]
    omega
  · rw [if_pos (by omega)]
    omega

theorem slt_xor_signBit {w : Nat} (wide : 0 < w) (x y : BitVec w) :
    (x ^^^ BitVec.ofNat w (2 ^ (w - 1))).slt (y ^^^ BitVec.ofNat w (2 ^ (w - 1))) = decide (x < y) := by
  rw [BitVec.slt_eq_decide, toInt_xor_signBit wide, toInt_xor_signBit wide]
  simp only [sub_lt_sub_iff_right, Nat.cast_lt, BitVec.lt_def]

end Bits
