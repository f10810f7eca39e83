import Yanet.Lib.Mem

set_option autoImplicit false

-- The Internet checksum arithmetic of RFC 1071: the ones' complement sum of
-- 16-bit words with the carry added back in, and the big-endian words of a
-- byte range. A sum of words that are not all zero is never the zero pattern,
-- so a ones' complement sum is all ones exactly when the plain sum is a
-- multiple of 0xffff and some word is nonzero.

namespace OnesComplement

open Mem

-- One addition with end-around carry.
def add (a b : Nat) : Nat := if a + b < 65536 then a + b else a + b - 65535

def sum : List Nat → Nat
  | [] => 0
  | w :: ws => add w (sum ws)

-- The big-endian 16-bit words of `2 * count` bytes at `addr`.
def words (m : Memory) (addr : Nat) : Nat → List Nat
  | 0 => []
  | count + 1 => be16 m addr :: words m (addr + 2) count

theorem add_lt {a b : Nat} (ha : a < 65536) (hb : b < 65536) : add a b < 65536 := by
  unfold add
  split <;> omega

theorem add_mod (a b : Nat) : add a b % 65535 = (a + b) % 65535 := by
  unfold add
  split <;> omega

theorem add_eq_zero_iff {a b : Nat} : add a b = 0 ↔ a = 0 ∧ b = 0 := by
  unfold add
  split <;> omega

theorem sum_lt : ∀ {ws : List Nat}, (∀ w ∈ ws, w < 65536) → sum ws < 65536
  | [], _ => by simp [sum]
  | w :: ws, bounded => by
    have head := bounded w (List.mem_cons_self ..)
    have tail := sum_lt fun v mem => bounded v (List.mem_cons_of_mem w mem)
    exact add_lt head tail

theorem sum_mod : ∀ ws : List Nat, sum ws % 65535 = ws.sum % 65535
  | [] => rfl
  | w :: ws => by
    have tail := sum_mod ws
    rw [sum, add_mod, List.sum_cons]
    omega

theorem sum_eq_zero_iff : ∀ {ws : List Nat}, sum ws = 0 ↔ ∀ w ∈ ws, w = 0
  | [] => by simp [sum]
  | w :: ws => by
    rw [sum, add_eq_zero_iff, sum_eq_zero_iff, List.forall_mem_cons]

theorem sum_eq_ones_iff {ws : List Nat} (bounded : ∀ w ∈ ws, w < 65536) :
    sum ws = 65535 ↔ ws.sum % 65535 = 0 ∧ ∃ w ∈ ws, w ≠ 0 := by
  have lt := sum_lt bounded
  have mod := sum_mod ws
  have nonzero_iff : sum ws ≠ 0 ↔ ∃ w ∈ ws, w ≠ 0 := by
    simp [sum_eq_zero_iff]
  constructor
  · intro ones
    exact ⟨by omega, nonzero_iff.mp (by omega)⟩
  · rintro ⟨multiple, nonzero⟩
    have ne := nonzero_iff.mpr nonzero
    omega

@[simp] theorem length_words (m : Memory) : ∀ (addr count : Nat), (words m addr count).length = count
  | _, 0 => rfl
  | addr, count + 1 => by simp [words, length_words m (addr + 2) count]

theorem words_add (m : Memory) : ∀ (addr k n : Nat), words m addr (k + n) = words m addr k ++ words m (addr + 2 * k) n
  | addr, 0, n => by simp [words]
  | addr, k + 1, n => by
    rw [Nat.add_right_comm, words, words, words_add m (addr + 2) k n, List.cons_append]
    congr 3
    omega

theorem words_congr {m m' : Memory} : ∀ {addr count : Nat}, (∀ i < 2 * count, m (addr + i) = m' (addr + i)) →
    words m addr count = words m' addr count
  | _, 0, _ => rfl
  | addr, count + 1, same => by
    have first : be16 m addr = be16 m' addr := by
      have b0 := same 0 (by omega)
      have b1 := same 1 (by omega)
      simp only [Nat.add_zero] at b0
      simp only [be16, b0, b1]
    have rest : words m (addr + 2) count = words m' (addr + 2) count :=
      words_congr fun i lt => by
        have shifted := same (i + 2) (by omega)
        rwa [← Nat.add_assoc, Nat.add_right_comm] at shifted
    rw [words, words, first, rest]

theorem be16_lt (m : Memory) (addr : Nat) : be16 m addr < 65536 := by
  have hi := (m addr).toNat_lt
  have lo := (m (addr + 1)).toNat_lt
  unfold be16
  omega

theorem words_lt (m : Memory) : ∀ {addr count : Nat}, ∀ w ∈ words m addr count, w < 65536
  | _, 0, _, mem => by simp [words] at mem
  | addr, count + 1, w, mem => by
    rcases List.mem_cons.mp mem with rfl | later
    · exact be16_lt m addr
    · exact words_lt m w later

end OnesComplement
