import Mathlib

set_option autoImplicit false

-- The reader-writer lock of common/rwlock.h, which guards the buckets of fwmap. The lock is one
-- counter: a reader adds YANET_RWLOCK_READ (4) while it holds the lock or tries to, a writer that
-- holds it has set YANET_RWLOCK_WRITE (2), and a writer that waits sets YANET_RWLOCK_WAIT (1).
-- Each atomic access of rwlock_read_lock, rwlock_read_unlock, rwlock_write_lock and
-- rwlock_write_unlock is one step of a thread. Every access is to the one counter, and its
-- read-modify-writes are atomic, so each memory order gives the same interleavings. The
-- compare-and-swap of rwlock_write_lock is the weak one, which may also fail when it would succeed.
-- The counter is a Nat; `rwlock_cnt_lt` bounds it far below the sign bit of int32_t.

namespace Yanet

def yanetRwlockWait : Nat := 1
def yanetRwlockWrite : Nat := 2
def yanetRwlockMask : Nat := yanetRwlockWait ||| yanetRwlockWrite
def yanetRwlockRead : Nat := 4

-- Where a thread is in the lock's code.
inductive RwThread
  | idle
  -- in `rwlock_read_lock`, before its `fetch_add`
  | readTry
  -- added, saw a writer, and is to take the add back
  | readBackout
  | reading
  -- in `rwlock_write_lock`'s inner loop, before its load
  | writeLoad
  -- loaded `x`, before the compare-and-swap from `x`
  | writeCas (x : Nat)
  -- before the `fetch_or` of the wait bit
  | writeSetWait
  | writing
deriving DecidableEq, Repr

-- One try of `rwlock_read_lock`: the counter after its `fetch_add`, and the phase it leads to.
def rwlockReadLockTry (cnt : Nat) : Nat × RwThread :=
  let x := cnt + yanetRwlockRead
  (x, if x &&& yanetRwlockMask = 0 then .reading else .readBackout)

-- The `fetch_sub` of a reader that lost the race with a writer.
def rwlockReadLockBackout (cnt : Nat) : Nat := cnt - yanetRwlockRead

def rwlockReadUnlock (cnt : Nat) : Nat := cnt - yanetRwlockRead

-- After a failed compare-and-swap with the counter `x`: set the wait bit unless it is set.
def rwlockWriteLockRetry (x : Nat) : RwThread :=
  if x &&& yanetRwlockWait = 0 then .writeSetWait else .writeLoad

-- The writer's next phase after it loads `x` in `rwlock_write_lock`'s inner loop.
def rwlockWriteLockLoaded (x : Nat) : RwThread :=
  if yanetRwlockWait < x then .writeLoad
  else if x < yanetRwlockWrite then .writeCas x
  else rwlockWriteLockRetry x

def rwlockWriteLockSetWait (cnt : Nat) : Nat := cnt ||| yanetRwlockWait

def rwlockWriteUnlock (cnt : Nat) : Nat := cnt - yanetRwlockWrite

namespace RwThread

-- The thread's 4 is in the counter.
def added : RwThread → Bool
  | .readBackout | .reading => true
  | _ => false

def reads : RwThread → Bool
  | .reading => true
  | _ => false

def writes : RwThread → Bool
  | .writing => true
  | _ => false

-- The compare-and-swap a writer is about to make is from a counter with no reader and no writer.
def casOk : RwThread → Prop
  | .writeCas x => x ≤ yanetRwlockWait
  | _ => True

-- The thread is in `rwlock_write_lock` and has not taken the lock yet.
def pending : RwThread → Bool
  | .writeLoad | .writeCas _ | .writeSetWait => true
  | _ => false

end RwThread

structure RwSystem (n : Nat) where
  cnt : Nat
  threads : Fin n → RwThread

def rwSystemInit (n : Nat) : RwSystem n := ⟨0, fun _ => .idle⟩

namespace RwSystem

variable {n : Nat} (s : RwSystem n)

def setThread (w : Fin n) (phase : RwThread) (cnt : Nat) : RwSystem n :=
  ⟨cnt, Function.update s.threads w phase⟩

def beginRead (w : Fin n) : RwSystem n := s.setThread w .readTry s.cnt

def readAdd (w : Fin n) : RwSystem n := s.setThread w (rwlockReadLockTry s.cnt).2 (rwlockReadLockTry s.cnt).1

def readBackout (w : Fin n) : RwSystem n := s.setThread w .readTry (rwlockReadLockBackout s.cnt)

def readUnlock (w : Fin n) : RwSystem n := s.setThread w .idle (rwlockReadUnlock s.cnt)

def beginWrite (w : Fin n) : RwSystem n := s.setThread w .writeLoad s.cnt

def writeLoad (w : Fin n) : RwSystem n := s.setThread w (rwlockWriteLockLoaded s.cnt) s.cnt

def writeCas (w : Fin n) : RwSystem n := s.setThread w .writing yanetRwlockWrite

-- A failed compare-and-swap leaves the counter and loads it into `x`.
def writeCasFail (w : Fin n) : RwSystem n := s.setThread w (rwlockWriteLockRetry s.cnt) s.cnt

def writeSetWait (w : Fin n) : RwSystem n := s.setThread w .writeLoad (rwlockWriteLockSetWait s.cnt)

def writeUnlock (w : Fin n) : RwSystem n := s.setThread w .idle (rwlockWriteUnlock s.cnt)

-- How many threads are in a phase `p` holds of.
def tally (p : RwThread → Bool) : Nat := ∑ t, (p (s.threads t)).toNat

end RwSystem

inductive RwStep {n : Nat} : RwSystem n → RwSystem n → Prop
  | beginRead (s : RwSystem n) (w : Fin n) (idle : s.threads w = .idle) : RwStep s (s.beginRead w)
  | readAdd (s : RwSystem n) (w : Fin n) (trying : s.threads w = .readTry) : RwStep s (s.readAdd w)
  | readBackout (s : RwSystem n) (w : Fin n) (lost : s.threads w = .readBackout) : RwStep s (s.readBackout w)
  | readUnlock (s : RwSystem n) (w : Fin n) (reading : s.threads w = .reading) : RwStep s (s.readUnlock w)
  | beginWrite (s : RwSystem n) (w : Fin n) (idle : s.threads w = .idle) : RwStep s (s.beginWrite w)
  | writeLoad (s : RwSystem n) (w : Fin n) (loading : s.threads w = .writeLoad) : RwStep s (s.writeLoad w)
  | writeCas (s : RwSystem n) (w : Fin n) (x : Nat) (swapping : s.threads w = .writeCas x) (same : s.cnt = x) :
      RwStep s (s.writeCas w)
  | writeCasFail (s : RwSystem n) (w : Fin n) (x : Nat) (swapping : s.threads w = .writeCas x) :
      RwStep s (s.writeCasFail w)
  | writeSetWait (s : RwSystem n) (w : Fin n) (waiting : s.threads w = .writeSetWait) : RwStep s (s.writeSetWait w)
  | writeUnlock (s : RwSystem n) (w : Fin n) (writing : s.threads w = .writing) : RwStep s (s.writeUnlock w)

inductive RwReachable {n : Nat} : RwSystem n → Prop
  | init : RwReachable (rwSystemInit n)
  | step {s s' : RwSystem n} : RwReachable s → RwStep s s' → RwReachable s'

section Counter

theorem and_mask_eq (x : Nat) : x &&& yanetRwlockMask = x % 4 :=
  Nat.and_two_pow_sub_one_eq_mod x 2

theorem or_wait_eq (x : Nat) : x ||| yanetRwlockWait = 2 * (x / 2) + 1 := by
  apply Nat.eq_of_testBit_eq
  intro i
  cases i with
  | zero => simp [yanetRwlockWait, Nat.testBit_zero]
  | succ i =>
    rw [Nat.testBit_or, Nat.testBit_succ, Nat.testBit_succ, Nat.testBit_succ,
      show (2 * (x / 2) + 1) / 2 = x / 2 by omega, show yanetRwlockWait / 2 = 0 from rfl, Nat.zero_testBit,
      Bool.or_false]

end Counter

namespace RwSystem

variable {n : Nat} (s : RwSystem n)

theorem tally_setThread (w : Fin n) (phase : RwThread) (cnt : Nat) (p : RwThread → Bool) :
    (s.setThread w phase cnt).tally p + (p (s.threads w)).toNat = s.tally p + (p phase).toNat := by
  unfold tally setThread
  rw [← Finset.add_sum_erase _ _ (Finset.mem_univ w), ← Finset.add_sum_erase _ _ (Finset.mem_univ w)]
  dsimp only
  rw [Function.update_self]
  have rest : ∑ t ∈ Finset.univ.erase w, (p (Function.update s.threads w phase t)).toNat =
      ∑ t ∈ Finset.univ.erase w, (p (s.threads t)).toNat :=
    Finset.sum_congr rfl fun t other => by rw [Function.update_of_ne (Finset.ne_of_mem_erase other)]
  rw [rest]
  omega

theorem tally_move {w : Fin n} {old : RwThread} (was : s.threads w = old) (phase : RwThread) (cnt : Nat)
    (p : RwThread → Bool) : (s.setThread w phase cnt).tally p + (p old).toNat = s.tally p + (p phase).toNat := by
  rw [← was]
  exact s.tally_setThread w phase cnt p

theorem tallies_move {w : Fin n} {old : RwThread} (was : s.threads w = old) (phase : RwThread) (cnt : Nat) :
    (s.setThread w phase cnt).tally RwThread.added + old.added.toNat = s.tally RwThread.added + phase.added.toNat ∧
    (s.setThread w phase cnt).tally RwThread.writes + old.writes.toNat = s.tally RwThread.writes + phase.writes.toNat ∧
    (s.setThread w phase cnt).tally RwThread.reads + old.reads.toNat = s.tally RwThread.reads + phase.reads.toNat ∧
    (s.setThread w phase cnt).tally RwThread.pending + old.pending.toNat =
      s.tally RwThread.pending + phase.pending.toNat :=
  ⟨s.tally_move was phase cnt _, s.tally_move was phase cnt _, s.tally_move was phase cnt _,
    s.tally_move was phase cnt _⟩

theorem tally_le_tally {p q : RwThread → Bool} (imp : ∀ t, p t = true → q t = true) : s.tally p ≤ s.tally q :=
  Finset.sum_le_sum fun t _ => by
    cases holds : p (s.threads t) with
    | false => exact Nat.zero_le _
    | true => rw [imp _ holds]

theorem one_le_tally {p : RwThread → Bool} {w : Fin n} (holds : p (s.threads w) = true) : 1 ≤ s.tally p := by
  have single := Finset.single_le_sum (fun t _ => Nat.zero_le (p (s.threads t)).toNat) (Finset.mem_univ w)
  rw [holds] at single
  exact single

theorem two_le_tally {p : RwThread → Bool} {w w' : Fin n} (other : w ≠ w') (holds : p (s.threads w) = true)
    (holds' : p (s.threads w') = true) : 2 ≤ s.tally p := by
  have pair := Finset.sum_le_sum_of_subset (f := fun t => (p (s.threads t)).toNat) (Finset.subset_univ {w, w'})
  rw [Finset.sum_pair other, holds, holds'] at pair
  exact pair

theorem tally_le (p : RwThread → Bool) : s.tally p ≤ n := by
  have le := Finset.sum_le_card_nsmul Finset.univ (fun t => (p (s.threads t)).toNat) 1
    (fun t _ => Bool.toNat_le _)
  rw [Finset.card_univ, Fintype.card_fin, smul_eq_mul, Nat.mul_one] at le
  exact le

theorem tally_eq_zero {p : RwThread → Bool} (zero : s.tally p = 0) (w : Fin n) : p (s.threads w) = false := by
  cases holds : p (s.threads w) with
  | false => rfl
  | true =>
    have := s.one_le_tally holds
    omega

end RwSystem

-- In every reachable state the counter is `4` per reader that added, `2` per writer that holds
-- the lock, and the wait bit; a set wait bit has a writer in `rwlock_write_lock` behind it.
structure RwInv {n : Nat} (s : RwSystem n) : Prop where
  cnt_eq : s.cnt = 4 * s.tally RwThread.added + 2 * s.tally RwThread.writes + s.cnt % 2
  writers_le : s.tally RwThread.writes ≤ 1
  exclusive : 0 < s.tally RwThread.writes → s.tally RwThread.reads = 0
  cas_ok : ∀ t, (s.threads t).casOk
  waiting : s.cnt % 2 = 1 → 0 < s.tally RwThread.pending

namespace RwSystem

variable {n : Nat} (s : RwSystem n)

theorem setThread_threads_self (w : Fin n) (phase : RwThread) (cnt : Nat) :
    (s.setThread w phase cnt).threads w = phase :=
  Function.update_self _ _ _

theorem setThread_threads_of_ne {w t : Fin n} (other : t ≠ w) (phase : RwThread) (cnt : Nat) :
    (s.setThread w phase cnt).threads t = s.threads t :=
  Function.update_of_ne other _ _

theorem casOk_setThread (ok : ∀ t, (s.threads t).casOk) {w : Fin n} {phase : RwThread} (cnt : Nat)
    (new : phase.casOk) : ∀ t, ((s.setThread w phase cnt).threads t).casOk := by
  intro t
  by_cases same : t = w
  · subst same
    rw [setThread_threads_self]
    exact new
  · rw [setThread_threads_of_ne s same]
    exact ok t

end RwSystem

theorem rwInv_init (n : Nat) : RwInv (rwSystemInit n) := by
  have zero : ∀ p : RwThread → Bool, p .idle = false → (rwSystemInit n).tally p = 0 := fun p idle => by
    simp [RwSystem.tally, rwSystemInit, idle]
  refine ⟨?_, ?_, ?_, fun _ => trivial, ?_⟩
  · rw [zero RwThread.added rfl, zero RwThread.writes rfl]
    rfl
  · rw [zero RwThread.writes rfl]
    exact Nat.zero_le 1
  · intro positive
    rw [zero RwThread.writes rfl] at positive
    exact absurd positive (Nat.lt_irrefl 0)
  · intro odd
    exact absurd odd (show ¬ 0 % 2 = 1 by decide)

section Spec

theorem rwlockReadLockTry_fst (cnt : Nat) : (rwlockReadLockTry cnt).1 = cnt + 4 := rfl

theorem rwlockReadLockTry_snd (cnt : Nat) :
    (rwlockReadLockTry cnt).2 = if cnt % 4 = 0 then .reading else .readBackout := by
  unfold rwlockReadLockTry
  dsimp only
  rw [and_mask_eq, show (cnt + yanetRwlockRead) % 4 = cnt % 4 by unfold yanetRwlockRead; omega]

theorem rwlockWriteLockRetry_pending (x : Nat) : (rwlockWriteLockRetry x).pending = true := by
  unfold rwlockWriteLockRetry
  split <;> rfl

theorem rwlockWriteLockLoaded_pending (x : Nat) : (rwlockWriteLockLoaded x).pending = true := by
  unfold rwlockWriteLockLoaded
  split
  · rfl
  · split
    · rfl
    · exact rwlockWriteLockRetry_pending x

theorem rwlockWriteLockLoaded_casOk (x : Nat) : (rwlockWriteLockLoaded x).casOk := by
  unfold rwlockWriteLockLoaded
  split
  · trivial
  · rename_i low
    split
    · exact Nat.le_of_not_lt low
    · unfold rwlockWriteLockRetry
      split <;> trivial

theorem RwThread.not_added_of_pending {t : RwThread} (pending : t.pending = true) :
    t.added = false ∧ t.writes = false ∧ t.reads = false := by
  cases t <;> first | exact ⟨rfl, rfl, rfl⟩ | exact absurd pending Bool.false_ne_true

theorem RwThread.added_of_reads {t : RwThread} (reads : t.reads = true) : t.added = true := by
  cases t <;> first | rfl | exact absurd reads Bool.false_ne_true

theorem RwSystem.reads_le_added {n : Nat} (s : RwSystem n) : s.tally RwThread.reads ≤ s.tally RwThread.added :=
  s.tally_le_tally fun _ reads => RwThread.added_of_reads reads

end Spec

namespace RwInv

variable {n : Nat} {s : RwSystem n} (inv : RwInv s)

include inv

theorem of_setThread {w : Fin n} {phase : RwThread} {cnt : Nat} (cas : phase.casOk)
    (counter : cnt = 4 * (s.setThread w phase cnt).tally RwThread.added +
      2 * (s.setThread w phase cnt).tally RwThread.writes + cnt % 2)
    (writers : (s.setThread w phase cnt).tally RwThread.writes ≤ 1)
    (exclusive : 0 < (s.setThread w phase cnt).tally RwThread.writes → (s.setThread w phase cnt).tally RwThread.reads = 0)
    (waiting : cnt % 2 = 1 → 0 < (s.setThread w phase cnt).tally RwThread.pending) : RwInv (s.setThread w phase cnt) :=
  ⟨counter, writers, exclusive, s.casOk_setThread inv.cas_ok cnt cas, waiting⟩

theorem move_uncounted {w : Fin n} {old phase : RwThread} (was : s.threads w = old) (cas : phase.casOk)
    (oldPending : old.pending = true → phase.pending = true) (added : old.added = false ∧ old.writes = false ∧ old.reads = false)
    (added' : phase.added = false ∧ phase.writes = false ∧ phase.reads = false) : RwInv (s.setThread w phase s.cnt) := by
  obtain ⟨a, b, c⟩ := added
  obtain ⟨a', b', c'⟩ := added'
  obtain ⟨addedEq, writesEq, readsEq, pendingEq⟩ := s.tallies_move was phase s.cnt
  rw [a, a'] at addedEq
  rw [b, b'] at writesEq
  rw [c, c'] at readsEq
  simp only [Bool.toNat_false, Nat.add_zero] at addedEq writesEq readsEq
  have order : old.pending.toNat ≤ phase.pending.toNat := by
    cases holds : old.pending with
    | false => exact Nat.zero_le _
    | true => rw [oldPending holds]
  have eq := inv.cnt_eq
  refine inv.of_setThread cas (by omega) (by have := inv.writers_le; omega) (fun writer => ?_) fun odd => ?_
  · have none := inv.exclusive (by omega)
    omega
  · have waits := inv.waiting odd
    omega

theorem beginRead {w : Fin n} (idle : s.threads w = .idle) : RwInv (s.beginRead w) :=
  inv.move_uncounted idle trivial (by decide) ⟨rfl, rfl, rfl⟩ ⟨rfl, rfl, rfl⟩

theorem beginWrite {w : Fin n} (idle : s.threads w = .idle) : RwInv (s.beginWrite w) :=
  inv.move_uncounted idle trivial (by decide) ⟨rfl, rfl, rfl⟩ ⟨rfl, rfl, rfl⟩

theorem writeLoad {w : Fin n} (loading : s.threads w = .writeLoad) : RwInv (s.writeLoad w) :=
  inv.move_uncounted loading (rwlockWriteLockLoaded_casOk s.cnt) (fun _ => rwlockWriteLockLoaded_pending s.cnt)
    ⟨rfl, rfl, rfl⟩ (RwThread.not_added_of_pending (rwlockWriteLockLoaded_pending s.cnt))

theorem writeCasFail {w : Fin n} {x : Nat} (swapping : s.threads w = .writeCas x) : RwInv (s.writeCasFail w) := by
  have retry := rwlockWriteLockRetry_pending s.cnt
  refine inv.move_uncounted swapping ?_ (fun _ => retry) ⟨rfl, rfl, rfl⟩ (RwThread.not_added_of_pending retry)
  unfold rwlockWriteLockRetry
  split <;> trivial

theorem cnt_mod_four : s.cnt % 4 = 2 * s.tally RwThread.writes + s.cnt % 2 := by
  have eq := inv.cnt_eq
  have le := inv.writers_le
  omega

theorem readAdd {w : Fin n} (trying : s.threads w = .readTry) : RwInv (s.readAdd w) := by
  have eq := inv.cnt_eq
  have le := inv.writers_le
  by_cases free : s.cnt % 4 = 0
  · have step : s.readAdd w = s.setThread w .reading (s.cnt + 4) := by
      rw [RwSystem.readAdd, rwlockReadLockTry_snd, if_pos free, rwlockReadLockTry_fst]
    obtain ⟨added, writes, reads, pending⟩ := s.tallies_move trying .reading (s.cnt + 4)
    simp only [RwThread.added, RwThread.writes, RwThread.reads, RwThread.pending, Bool.toNat_true,
      Bool.toNat_false, Nat.add_zero] at added writes reads pending
    have noWriter : s.tally RwThread.writes = 0 := by
      have mod := inv.cnt_mod_four
      omega
    rw [step]
    refine inv.of_setThread trivial (by omega) (by omega) (fun writer => absurd writer (by omega)) fun odd => ?_
    have waits := inv.waiting (by omega)
    omega
  · -- a writer holds the lock or waits for it: the reader is to take its add back
    have step : s.readAdd w = s.setThread w .readBackout (s.cnt + 4) := by
      rw [RwSystem.readAdd, rwlockReadLockTry_snd, if_neg free, rwlockReadLockTry_fst]
    obtain ⟨added, writes, reads, pending⟩ := s.tallies_move trying .readBackout (s.cnt + 4)
    simp only [RwThread.added, RwThread.writes, RwThread.reads, RwThread.pending, Bool.toNat_true,
      Bool.toNat_false, Nat.add_zero] at added writes reads pending
    rw [step]
    refine inv.of_setThread trivial (by omega) (by omega) (fun writer => ?_) fun odd => ?_
    · have none := inv.exclusive (by omega)
      omega
    · have waits := inv.waiting (by omega)
      omega

theorem readBackout {w : Fin n} (lost : s.threads w = .readBackout) : RwInv (s.readBackout w) := by
  have eq := inv.cnt_eq
  have mine := s.one_le_tally (p := RwThread.added) (by rw [lost]; rfl)
  obtain ⟨added, writes, reads, pending⟩ := s.tallies_move lost .readTry (rwlockReadLockBackout s.cnt)
  simp only [RwThread.added, RwThread.writes, RwThread.reads, RwThread.pending, Bool.toNat_true,
      Bool.toNat_false, Nat.add_zero] at added writes reads pending
  unfold RwSystem.readBackout rwlockReadLockBackout yanetRwlockRead at *
  refine inv.of_setThread trivial (by omega) (by have := inv.writers_le; omega) (fun writer => ?_) fun odd => ?_
  · have none := inv.exclusive (by omega)
    omega
  · have waits := inv.waiting (by omega)
    omega

theorem readUnlock {w : Fin n} (reading : s.threads w = .reading) : RwInv (s.readUnlock w) := by
  have eq := inv.cnt_eq
  have mine := s.one_le_tally (p := RwThread.reads) (by rw [reading]; rfl)
  have noWriter : s.tally RwThread.writes = 0 := by
    by_contra writer
    have none := inv.exclusive (Nat.pos_of_ne_zero writer)
    omega
  obtain ⟨added, writes, reads, pending⟩ := s.tallies_move reading .idle (rwlockReadUnlock s.cnt)
  simp only [RwThread.added, RwThread.writes, RwThread.reads, RwThread.pending, Bool.toNat_true,
      Bool.toNat_false, Nat.add_zero] at added writes reads pending
  unfold RwSystem.readUnlock rwlockReadUnlock yanetRwlockRead at *
  refine inv.of_setThread trivial (by omega) (by omega) (fun writer => absurd writer (by omega)) fun odd => ?_
  have waits := inv.waiting (by omega)
  omega

theorem writeCas {w : Fin n} {x : Nat} (swapping : s.threads w = .writeCas x) (same : s.cnt = x) :
    RwInv (s.writeCas w) := by
  have eq := inv.cnt_eq
  have low : x ≤ yanetRwlockWait := by
    have ok := inv.cas_ok w
    rw [swapping] at ok
    exact ok
  unfold yanetRwlockWait at low
  have readers := s.reads_le_added
  obtain ⟨added, writes, reads, pending⟩ := s.tallies_move swapping .writing yanetRwlockWrite
  simp only [RwThread.added, RwThread.writes, RwThread.reads, RwThread.pending, Bool.toNat_true,
      Bool.toNat_false, Nat.add_zero] at added writes reads pending
  unfold RwSystem.writeCas yanetRwlockWrite at *
  exact inv.of_setThread trivial (by omega) (by omega) (fun _ => by omega) fun odd => absurd odd (by omega)

theorem writeSetWait {w : Fin n} (waiting : s.threads w = .writeSetWait) : RwInv (s.writeSetWait w) := by
  have eq := inv.cnt_eq
  have mine := s.one_le_tally (p := RwThread.pending) (by rw [waiting]; rfl)
  obtain ⟨added, writes, reads, pending⟩ := s.tallies_move waiting .writeLoad (rwlockWriteLockSetWait s.cnt)
  simp only [RwThread.added, RwThread.writes, RwThread.reads, RwThread.pending, Bool.toNat_true,
      Bool.toNat_false, Nat.add_zero] at added writes reads pending
  unfold RwSystem.writeSetWait
  rw [rwlockWriteLockSetWait, or_wait_eq] at *
  refine inv.of_setThread trivial (by omega) (by have := inv.writers_le; omega) (fun writer => ?_) fun _ => by omega
  have none := inv.exclusive (by omega)
  omega

theorem writeUnlock {w : Fin n} (writing : s.threads w = .writing) : RwInv (s.writeUnlock w) := by
  have eq := inv.cnt_eq
  have le := inv.writers_le
  have mine := s.one_le_tally (p := RwThread.writes) (by rw [writing]; rfl)
  obtain ⟨added, writes, reads, pending⟩ := s.tallies_move writing .idle (rwlockWriteUnlock s.cnt)
  simp only [RwThread.added, RwThread.writes, RwThread.reads, RwThread.pending, Bool.toNat_true,
      Bool.toNat_false, Nat.add_zero] at added writes reads pending
  unfold RwSystem.writeUnlock rwlockWriteUnlock yanetRwlockWrite at *
  refine inv.of_setThread trivial (by omega) (by omega) (fun writer => absurd writer (by omega)) fun odd => ?_
  have waits := inv.waiting (by omega)
  omega

theorem step {s' : RwSystem n} (next : RwStep s s') : RwInv s' := by
  cases next with
  | beginRead w idle => exact inv.beginRead idle
  | readAdd w trying => exact inv.readAdd trying
  | readBackout w lost => exact inv.readBackout lost
  | readUnlock w reading => exact inv.readUnlock reading
  | beginWrite w idle => exact inv.beginWrite idle
  | writeLoad w loading => exact inv.writeLoad loading
  | writeCas w x swapping same => exact inv.writeCas swapping same
  | writeCasFail w x swapping => exact inv.writeCasFail swapping
  | writeSetWait w waiting => exact inv.writeSetWait waiting
  | writeUnlock w writing => exact inv.writeUnlock writing

end RwInv

theorem rwInv_reachable {n : Nat} {s : RwSystem n} (reachable : RwReachable s) : RwInv s := by
  induction reachable with
  | init => exact rwInv_init n
  | step _ next inv => exact inv.step next

section Safety

variable {n : Nat} {s : RwSystem n}

theorem rwlock_writer_exclusive (reachable : RwReachable s) {w : Fin n} (writing : s.threads w = .writing) :
    (∀ t, s.threads t ≠ .reading) ∧ ∀ t, s.threads t = .writing → t = w := by
  have inv := rwInv_reachable reachable
  have holds := s.one_le_tally (p := RwThread.writes) (by rw [writing]; rfl)
  have noReader := s.tally_eq_zero (inv.exclusive holds)
  refine ⟨fun t reading => ?_, fun t other => ?_⟩
  · have none := noReader t
    rw [reading] at none
    exact Bool.false_ne_true none.symm
  · by_contra different
    have two := s.two_le_tally different (p := RwThread.writes) (by rw [other]; rfl) (by rw [writing]; rfl)
    have one := inv.writers_le
    omega

-- Two threads: 0 takes the write lock, then 1 tries to read and is to back out.
def rwWriterAndReader : RwSystem 2 := (((((rwSystemInit 2).beginWrite 0).writeLoad 0).writeCas 0).beginRead 1).readAdd 1

theorem rwWriterAndReader_reachable : RwReachable rwWriterAndReader :=
  (((((RwReachable.init.step (.beginWrite _ 0 rfl)).step (.writeLoad _ 0 rfl)).step (.writeCas _ 0 0 rfl rfl)).step
    (.beginRead _ 1 rfl)).step (.readAdd _ 1 rfl))

theorem rwlock_writer_exclusive_backout :
    rwWriterAndReader.threads 0 = .writing ∧ rwWriterAndReader.threads 1 = .readBackout ∧
      (∀ t, rwWriterAndReader.threads t ≠ .reading) ∧ ∀ t, rwWriterAndReader.threads t = .writing → t = 0 :=
  ⟨rfl, rfl, rwlock_writer_exclusive rwWriterAndReader_reachable rfl⟩

-- The counter is below `4 n + 4`: with fewer than 2^29 threads the int32_t never reaches its sign bit.
theorem rwlock_cnt_lt (reachable : RwReachable s) : s.cnt < 4 * n + 4 := by
  have inv := rwInv_reachable reachable
  have eq := inv.cnt_eq
  have writers := inv.writers_le
  have readers := s.tally_le RwThread.added
  omega

theorem rwlock_cnt_lt_writerAndReader : rwWriterAndReader.cnt = 6 ∧ rwWriterAndReader.cnt < 4 * 2 + 4 :=
  ⟨rfl, rwlock_cnt_lt rwWriterAndReader_reachable⟩

end Safety

end Yanet
