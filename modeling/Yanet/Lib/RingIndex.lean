import Mathlib

set_option autoImplicit false

-- Positions of a ring buffer of `N` slots: a position counts every item that ever went through the
-- ring, its slot is the position mod `N`. Positions within one revolution have distinct slots, and a
-- run of positions that does not pass the ring's end has consecutive slots. Machine positions are
-- the positions mod 2^64, and a power-of-two mask takes the slot.

namespace RingIndex

theorem mod_add_of_lt {a k N : Nat} (fits : a % N + k < N) : (a + k) % N = a % N + k := by
  rw [Nat.add_mod, Nat.mod_eq_of_lt (show k < N by omega), Nat.mod_eq_of_lt fits]

theorem eq_of_mod_eq {p q N : Nat} (le : p ≤ q) (near : q < p + N) (same : p % N = q % N) : p = q := by
  have dvd : N ∣ q - p := (Nat.modEq_iff_dvd' le).mp same
  have zero := Nat.eq_zero_of_dvd_of_lt dvd (by omega)
  omega

theorem eq_of_mod_eq_of_window {c p q N : Nat} (hp : c ≤ p) (hp' : p < c + N) (hq : c ≤ q) (hq' : q < c + N)
    (same : p % N = q % N) : p = q := by
  rcases Nat.le_total p q with le | le
  · exact eq_of_mod_eq le (by omega) same
  · exact (eq_of_mod_eq le (by omega) same.symm).symm

theorem slot_of_run {a n N i : Nat} (fits : a % N + n ≤ N) (lo : a % N ≤ i) (hi : i < a % N + n) :
    (a + (i - a % N)) % N = i := by
  rw [mod_add_of_lt (by omega)]
  omega

theorem mod_mem_run_iff {c a n N p : Nat} (fits : a % N + n ≤ N) (ha : c ≤ a) (ha' : a + n ≤ c + N)
    (hp : c ≤ p) (hp' : p < c + N) : (a % N ≤ p % N ∧ p % N < a % N + n) ↔ (a ≤ p ∧ p < a + n) := by
  constructor
  · rintro ⟨lo, hi⟩
    have run := slot_of_run fits lo hi
    have same : a + (p % N - a % N) = p :=
      eq_of_mod_eq_of_window (c := c) (by omega) (by omega) hp hp' run
    omega
  · rintro ⟨lo, hi⟩
    have slot : p % N = a % N + (p - a) := by
      rw [show p = a + (p - a) by omega, mod_add_of_lt (by omega)]
      omega
    omega

theorem toNat_ofNat_sub_ofNat {a b : Nat} (le : a ≤ b) (small : b - a < 2 ^ 64) :
    (UInt64.ofNat b - UInt64.ofNat a).toNat = b - a := by
  have split : UInt64.ofNat b = UInt64.ofNat a + UInt64.ofNat (b - a) := by
    rw [← UInt64.ofNat_add, Nat.add_sub_cancel' le]
  rw [split, add_sub_cancel_left, UInt64.toNat_ofNat_of_lt' small]

theorem two_pow_dvd_two_pow_64 {s : Nat} (small : s ≤ 64) : 2 ^ s ∣ 2 ^ 64 :=
  Nat.pow_dvd_pow 2 small

theorem toNat_one_shiftLeft {s : UInt64} (small : s.toNat < 64) : ((1 : UInt64) <<< s).toNat = 2 ^ s.toNat := by
  rw [UInt64.toNat_shiftLeft, Nat.mod_eq_of_lt small, UInt64.toNat_one, Nat.one_shiftLeft,
    Nat.mod_eq_of_lt (Nat.pow_lt_pow_right (by decide) small)]

theorem toNat_ofNat_and_mask {s : UInt64} (small : s.toNat < 64) (a : Nat) :
    (UInt64.ofNat a &&& ((1 <<< s) - 1)).toNat = a % 2 ^ s.toNat := by
  have one := toNat_one_shiftLeft small
  have mask : ((1 : UInt64) <<< s - 1).toNat = 2 ^ s.toNat - 1 := by
    rw [UInt64.toNat_sub_of_le _ _ (by rw [UInt64.le_iff_toNat_le, one]; exact Nat.one_le_two_pow), one,
      UInt64.toNat_one]
  rw [UInt64.toNat_and, mask, Nat.and_two_pow_sub_one_eq_mod, UInt64.toNat_ofNat',
    Nat.mod_mod_of_dvd _ (two_pow_dvd_two_pow_64 small.le)]

end RingIndex
