import Mathlib.Logic.Function.Basic
import Mathlib.Tactic.Ring

set_option autoImplicit false

-- Byte-addressed memory as a little-endian C program sees it: a load of a
-- multi-byte integer reads its least significant byte first, and the network
-- byte order conversions are byte swaps. Nothing here names a particular program.

namespace Mem

abbrev Memory := Nat → UInt8

def store8 (m : Memory) (addr : Nat) (byte : UInt8) : Memory :=
  fun a => if a = addr then byte else m a

@[simp] theorem store8_same (m : Memory) (addr : Nat) (byte : UInt8) : store8 m addr byte addr = byte := by
  simp [store8]

@[simp] theorem store8_other (m : Memory) (addr a : Nat) (byte : UInt8) (other : a ≠ addr) :
    store8 m addr byte a = m a := by
  simp [store8, other]

-- A native 16-bit load.
def load16 (m : Memory) (addr : Nat) : UInt16 :=
  UInt16.ofNat ((m addr).toNat + 256 * (m (addr + 1)).toNat)

-- A native 32-bit load.
def load32 (m : Memory) (addr : Nat) : UInt32 :=
  UInt32.ofNat ((m addr).toNat + 256 * (m (addr + 1)).toNat + 65536 * (m (addr + 2)).toNat +
    16777216 * (m (addr + 3)).toNat)

def store16 (m : Memory) (addr : Nat) (value : UInt16) : Memory :=
  store8 (store8 m addr (UInt8.ofNat value.toNat)) (addr + 1) (UInt8.ofNat (value.toNat / 256))

def store32 (m : Memory) (addr : Nat) (value : UInt32) : Memory :=
  store16 (store16 m addr (UInt16.ofNat value.toNat)) (addr + 2) (UInt16.ofNat (value.toNat / 65536))

-- rte_be_to_cpu_16 and rte_cpu_to_be_16 on a little-endian host.
def bswap16 (value : UInt16) : UInt16 :=
  UInt16.ofNat (value.toNat % 256 * 256 + value.toNat / 256)

-- rte_be_to_cpu_32 and rte_cpu_to_be_32 on a little-endian host.
def bswap32 (value : UInt32) : UInt32 :=
  UInt32.ofNat (value.toNat % 256 * 16777216 + value.toNat / 256 % 256 * 65536 +
    value.toNat / 65536 % 256 * 256 + value.toNat / 16777216)

-- The big-endian value of the two bytes at `addr`.
def be16 (m : Memory) (addr : Nat) : Nat := (m addr).toNat * 256 + (m (addr + 1)).toNat

-- `count` bytes starting at `addr`.
def bytes (m : Memory) (addr : Nat) : Nat → List UInt8
  | 0 => []
  | count + 1 => m addr :: bytes m (addr + 1) count

-- memset.
def fill (m : Memory) (addr count : Nat) (byte : UInt8) : Memory :=
  fun a => if addr ≤ a ∧ a < addr + count then byte else m a

-- memcpy of `count` bytes; the source is read before any byte is written.
def copy (m : Memory) (dst src count : Nat) : Memory :=
  fun a => if dst ≤ a ∧ a < dst + count then m (src + (a - dst)) else m a

-- A memory holding `l` from `base` on and zeros elsewhere.
def ofBytes (base : Nat) (l : List UInt8) : Memory := fun a => if base ≤ a then l.getD (a - base) 0 else 0

-- Writes a list of bytes starting at `addr`.
def storeBytes (m : Memory) (addr : Nat) : List UInt8 → Memory
  | [] => m
  | byte :: rest => storeBytes (store8 m addr byte) (addr + 1) rest

-- A `uint8_t[n]` field read as a whole.
def loadVector (m : Memory) (addr n : Nat) : Vector UInt8 n := Vector.ofFn fun i => m (addr + i)

-- A `uint8_t[n]` field written as a whole.
def storeVector {n : Nat} (m : Memory) (addr : Nat) (v : Vector UInt8 n) : Memory := storeBytes m addr v.toList

-- The bytes a native 16-bit store writes, least significant first.
def le16 (value : UInt16) : List UInt8 := [UInt8.ofNat value.toNat, UInt8.ofNat (value.toNat / 256)]

-- The bytes a native 32-bit store writes, least significant first.
def le32 (value : UInt32) : List UInt8 :=
  [UInt8.ofNat value.toNat, UInt8.ofNat (value.toNat / 256), UInt8.ofNat (value.toNat / 65536),
    UInt8.ofNat (value.toNat / 16777216)]

theorem byte_toNat_lt (byte : UInt8) : byte.toNat < 256 := byte.toNat_lt

-- Reading back: every store is a `storeBytes`, and a read of `n` bytes depends on those bytes only.

@[simp] theorem length_bytes (m : Memory) : ∀ (addr count : Nat), (bytes m addr count).length = count
  | _, 0 => rfl
  | addr, count + 1 => by simp [bytes, length_bytes m (addr + 1) count]

theorem bytes_shift {m m' : Memory} :
    ∀ {addr addr' count : Nat}, (∀ i < count, m (addr + i) = m' (addr' + i)) → bytes m addr count = bytes m' addr' count
  | _, _, 0, _ => rfl
  | addr, addr', count + 1, same => by
    have tail : ∀ i < count, m (addr + 1 + i) = m' (addr' + 1 + i) := fun i hi => by
      rw [Nat.add_assoc, Nat.add_comm 1 i, Nat.add_assoc, Nat.add_comm 1 i]
      exact same (i + 1) (Nat.succ_lt_succ hi)
    simp only [bytes]
    rw [show m addr = m' addr' from same 0 (Nat.succ_pos count), bytes_shift tail]

theorem bytes_congr {m m' : Memory} {addr count : Nat} (same : ∀ i < count, m (addr + i) = m' (addr + i)) :
    bytes m addr count = bytes m' addr count :=
  bytes_shift same

theorem storeBytes_apply_outside :
    ∀ (l : List UInt8) {m : Memory} {addr a : Nat}, a < addr ∨ addr + l.length ≤ a → storeBytes m addr l a = m a
  | [], _, _, _, _ => rfl
  | byte :: rest, m, addr, a, outside => by
    simp only [List.length_cons] at outside
    rw [storeBytes, storeBytes_apply_outside rest (by omega), store8_other _ _ _ _ (by omega)]

theorem storeBytes_apply_inside :
    ∀ (l : List UInt8) {m : Memory} {addr i : Nat} (h : i < l.length), storeBytes m addr l (addr + i) = l[i]
  | [], _, _, _, h => absurd h (Nat.not_lt_zero _)
  | byte :: rest, m, addr, i, h => by
    rw [storeBytes]
    cases i with
    | zero => rw [storeBytes_apply_outside rest (by omega), Nat.add_zero, store8_same, List.getElem_cons_zero]
    | succ i =>
      rw [show addr + (i + 1) = addr + 1 + i by omega, storeBytes_apply_inside rest (by simpa using h),
        List.getElem_cons_succ]

theorem bytes_storeBytes_of_disjoint {m : Memory} {addr a n : Nat} {l : List UInt8}
    (disjoint : a + n ≤ addr ∨ addr + l.length ≤ a) : bytes (storeBytes m addr l) a n = bytes m a n :=
  bytes_congr fun _ hi => storeBytes_apply_outside l (by omega)

theorem getElem_bytes (m : Memory) :
    ∀ (addr count i : Nat) (h : i < (bytes m addr count).length), (bytes m addr count)[i] = m (addr + i)
  | _, 0, _, h => absurd h (by simp)
  | addr, count + 1, 0, _ => rfl
  | addr, count + 1, i + 1, h => by
    simp only [bytes, List.getElem_cons_succ]
    rw [getElem_bytes m (addr + 1) count i, Nat.add_assoc, Nat.add_comm 1 i]

theorem bytes_storeBytes_sub (m : Memory) (addr offset n : Nat) (l : List UInt8) (inside : offset + n ≤ l.length) :
    bytes (storeBytes m addr l) (addr + offset) n = (l.drop offset).take n := by
  apply List.ext_getElem (by simp; omega)
  intro i hi _
  rw [getElem_bytes, List.getElem_take, List.getElem_drop, Nat.add_assoc,
    storeBytes_apply_inside l (by simp at hi; omega)]

theorem bytes_storeBytes_self (m : Memory) (addr : Nat) (l : List UInt8) :
    bytes (storeBytes m addr l) addr l.length = l := by
  simpa using bytes_storeBytes_sub m addr 0 l.length l (by omega)

theorem bytes_fill_of_disjoint {m : Memory} {addr count a n : Nat} {byte : UInt8}
    (disjoint : a + n ≤ addr ∨ addr + count ≤ a) : bytes (fill m addr count byte) a n = bytes m a n :=
  bytes_congr fun i _ => if_neg (by omega)

theorem storeBytes_append (m : Memory) (addr : Nat) (l : List UInt8) :
    ∀ (l' : List UInt8), storeBytes m addr (l ++ l') = storeBytes (storeBytes m addr l) (addr + l.length) l' := by
  induction l generalizing m addr with
  | nil => intro l'; rfl
  | cons byte rest ih =>
    intro l'
    rw [List.cons_append, storeBytes, storeBytes, ih, List.length_cons, Nat.add_assoc, Nat.add_comm 1]

theorem store32_eq_storeBytes (m : Memory) (addr : Nat) (value : UInt32) :
    store32 m addr value = storeBytes m addr (le32 value) := by
  have fit := value.toNat_lt
  -- the two 16-bit halves store32 writes are the four bytes of le32
  have halves : le32 value = le16 (UInt16.ofNat value.toNat) ++ le16 (UInt16.ofNat (value.toNat / 65536)) := by
    simp only [le32, le16, List.cons_append, List.nil_append, List.cons.injEq, and_true]
    refine ⟨?_, ?_, ?_, ?_⟩ <;> apply UInt8.toNat_inj.mp <;> simp only [UInt8.toNat_ofNat', UInt16.toNat_ofNat'] <;>
      omega
  rw [halves, storeBytes_append]
  rfl

@[simp] theorem length_le16 (value : UInt16) : (le16 value).length = 2 := rfl

@[simp] theorem length_le32 (value : UInt32) : (le32 value).length = 4 := rfl

-- Each store, seen at one address outside it.

section Apply

variable {m : Memory} {addr a : Nat}

theorem store16_apply_of_disjoint {value : UInt16} (disjoint : a < addr ∨ addr + 2 ≤ a) : store16 m addr value a = m a :=
  storeBytes_apply_outside (le16 value) (by simpa using disjoint)

theorem store32_apply_of_disjoint {value : UInt32} (disjoint : a < addr ∨ addr + 4 ≤ a) : store32 m addr value a = m a := by
  rw [store32_eq_storeBytes]
  exact storeBytes_apply_outside _ (by simpa using disjoint)

theorem storeVector_apply_of_disjoint {k : Nat} {v : Vector UInt8 k} (disjoint : a < addr ∨ addr + k ≤ a) :
    storeVector m addr v a = m a :=
  storeBytes_apply_outside _ (by simpa using disjoint)

theorem copy_apply_of_disjoint {src count : Nat} (disjoint : a < addr ∨ addr + count ≤ a) : copy m addr src count a = m a :=
  if_neg (by omega)

theorem copy_apply_add {src count i : Nat} (inside : i < count) : copy m addr src count (addr + i) = m (src + i) := by
  rw [copy, if_pos (by omega), Nat.add_sub_cancel_left]

end Apply

-- Each store, seen through a read of `n` bytes at `a`: a read outside it, and a read of exactly it.

section Window

variable {m : Memory} {addr a n : Nat}

theorem bytes_store8_of_disjoint {byte : UInt8} (disjoint : a + n ≤ addr ∨ addr + 1 ≤ a) :
    bytes (store8 m addr byte) a n = bytes m a n :=
  bytes_storeBytes_of_disjoint (l := [byte]) disjoint

theorem bytes_store16_of_disjoint {value : UInt16} (disjoint : a + n ≤ addr ∨ addr + 2 ≤ a) :
    bytes (store16 m addr value) a n = bytes m a n :=
  bytes_storeBytes_of_disjoint (l := le16 value) disjoint

theorem bytes_store32_of_disjoint {value : UInt32} (disjoint : a + n ≤ addr ∨ addr + 4 ≤ a) :
    bytes (store32 m addr value) a n = bytes m a n := by
  rw [store32_eq_storeBytes]
  exact bytes_storeBytes_of_disjoint disjoint

theorem bytes_storeVector_of_disjoint {k : Nat} {v : Vector UInt8 k} (disjoint : a + n ≤ addr ∨ addr + k ≤ a) :
    bytes (storeVector m addr v) a n = bytes m a n :=
  bytes_storeBytes_of_disjoint (by simpa using disjoint)

theorem bytes_store8_self (byte : UInt8) : bytes (store8 m addr byte) addr 1 = [byte] :=
  bytes_storeBytes_self m addr [byte]

theorem bytes_store16_self (value : UInt16) : bytes (store16 m addr value) addr 2 = le16 value :=
  bytes_storeBytes_self m addr (le16 value)

theorem bytes_store32_self (value : UInt32) : bytes (store32 m addr value) addr 4 = le32 value := by
  rw [store32_eq_storeBytes]
  exact bytes_storeBytes_self m addr (le32 value)

theorem bytes_storeVector_self {k : Nat} (v : Vector UInt8 k) : bytes (storeVector m addr v) addr k = v.toList := by
  simpa [storeVector] using bytes_storeBytes_self m addr v.toList

theorem bytes_storeVector_take {k : Nat} (v : Vector UInt8 k) (count : Nat) (inside : count ≤ k) :
    bytes (storeVector m addr v) addr count = v.toList.take count := by
  simpa [storeVector] using bytes_storeBytes_sub m addr 0 count v.toList (by simpa using inside)

theorem bytes_storeVector_head {k : Nat} (v : Vector UInt8 k) (nonempty : 0 < k) :
    bytes (storeVector m addr v) addr 1 = [v[0]] := by
  rw [bytes_storeVector_take v 1 nonempty, List.take_one, List.head?_eq_getElem?, Vector.getElem?_toList,
    Vector.getElem?_eq_getElem nonempty]
  rfl

theorem bytes_fill_self (count : Nat) (byte : UInt8) :
    bytes (fill m addr count byte) addr count = List.replicate count byte := by
  apply List.ext_getElem (by simp)
  intro i hi _
  rw [getElem_bytes, List.getElem_replicate]
  exact if_pos (by simp at hi; omega)

end Window

theorem byte_of_bytes {m : Memory} {addr : Nat} {byte : UInt8} (h : bytes m addr 1 = [byte]) : m addr = byte := by
  simpa [bytes] using h

theorem load16_of_bytes {m : Memory} {addr : Nat} {value : UInt16} (h : bytes m addr 2 = le16 value) :
    load16 m addr = value := by
  simp only [bytes, le16, List.cons.injEq, and_true] at h
  apply UInt16.toNat_inj.mp
  have fit := value.toNat_lt
  simp only [load16, h.1, h.2, UInt16.toNat_ofNat', UInt8.toNat_ofNat']
  omega

theorem load32_of_bytes {m : Memory} {addr : Nat} {value : UInt32} (h : bytes m addr 4 = le32 value) :
    load32 m addr = value := by
  simp only [bytes, le32, List.cons.injEq, and_true, Nat.add_assoc] at h
  apply UInt32.toNat_inj.mp
  have fit := value.toNat_lt
  simp only [load32, h.1, h.2.1, h.2.2.1, h.2.2.2, Nat.add_assoc, UInt32.toNat_ofNat', UInt8.toNat_ofNat']
  omega

theorem loadVector_of_bytes {m : Memory} {addr n : Nat} {v : Vector UInt8 n} (h : bytes m addr n = v.toList) :
    loadVector m addr n = v := by
  apply Vector.ext
  intro i hi
  have read := congrArg (fun l => l[i]?) h
  simp only [List.getElem?_eq_getElem (by simp; omega : i < (bytes m addr n).length), getElem_bytes,
    Vector.getElem?_toList, Vector.getElem?_eq_getElem hi, Option.some_inj] at read
  simpa [loadVector] using read

-- C's conversion of an int to uint16_t.

theorem uint16_ofInt_natCast (n : Nat) : UInt16.ofInt (n : Int) = UInt16.ofNat n := by
  apply UInt16.toNat_inj.mp
  simp only [UInt16.ofInt, UInt16.toNat_ofNat']
  omega

theorem uint16_ofInt_toNat_sub (x : UInt16) (d : Nat) : UInt16.ofInt ((x.toNat : Int) - d) = x - UInt16.ofNat d := by
  rw [Int.sub_eq_add_neg, UInt16.ofInt_add, uint16_ofInt_natCast, UInt16.ofNat_toNat, UInt16.ofInt_neg,
    uint16_ofInt_natCast, ← UInt16.sub_eq_add_neg]

theorem load16_toNat (m : Memory) (addr : Nat) :
    (load16 m addr).toNat = (m addr).toNat + 256 * (m (addr + 1)).toNat := by
  have low := byte_toNat_lt (m addr)
  have high := byte_toNat_lt (m (addr + 1))
  simp only [load16, UInt16.toNat_ofNat']
  omega

theorem load32_toUInt16 (m : Memory) (addr : Nat) : (load32 m addr).toUInt16 = load16 m addr := by
  apply UInt16.toNat_inj.mp
  have b0 := byte_toNat_lt (m addr)
  have b1 := byte_toNat_lt (m (addr + 1))
  have b2 := byte_toNat_lt (m (addr + 2))
  have b3 := byte_toNat_lt (m (addr + 3))
  simp only [load32, load16, UInt32.toNat_toUInt16, UInt32.toNat_ofNat', UInt16.toNat_ofNat']
  omega

theorem bswap16_load16 (m : Memory) (addr : Nat) : (bswap16 (load16 m addr)).toNat = be16 m addr := by
  have low := byte_toNat_lt (m addr)
  have high := byte_toNat_lt (m (addr + 1))
  have lowByte : ((m addr).toNat + 256 * (m (addr + 1)).toNat) % 256 = (m addr).toNat := by omega
  have highByte : ((m addr).toNat + 256 * (m (addr + 1)).toNat) / 256 = (m (addr + 1)).toNat := by omega
  simp only [bswap16, UInt16.toNat_ofNat', load16_toNat, be16, lowByte, highByte]
  omega

theorem bswap16_toNat (value : UInt16) : (bswap16 value).toNat = value.toNat % 256 * 256 + value.toNat / 256 := by
  have lt : value.toNat < 65536 := value.toNat_lt
  exact UInt16.toNat_ofNat_of_lt' (show _ < 65536 by omega)

@[simp] theorem bswap16_bswap16 (value : UInt16) : bswap16 (bswap16 value) = value := by
  apply UInt16.toNat_inj.mp
  have lt : value.toNat < 65536 := value.toNat_lt
  rw [bswap16_toNat, bswap16_toNat]
  omega

theorem bswap16_not (value : UInt16) : bswap16 (~~~ value) = ~~~ bswap16 value := by
  apply UInt16.toNat_inj.mp
  have lt : value.toNat < 65536 := value.toNat_lt
  rw [bswap16_toNat, UInt16.toNat_not, UInt16.toNat_not, bswap16_toNat]
  simp only [UInt16.size]
  omega

theorem be16_store16 (m : Memory) (addr : Nat) (value : UInt16) :
    be16 (store16 m addr value) addr = (bswap16 value).toNat := by
  have ne : addr ≠ addr + 1 := by omega
  simp only [be16, store16, store8_same, store8_other _ _ _ _ ne, bswap16_toNat, UInt8.toNat_ofNat']
  have lt : value.toNat < 65536 := value.toNat_lt
  omega

end Mem
