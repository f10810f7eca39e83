import Mathlib

set_option autoImplicit false

-- The epoch-based RCU of common/rcu.h. A worker's read-side critical section publishes, in its
-- packed state, the global epoch it loaded; rcu_update stores the new value and flips the global
-- epoch twice, each time scanning the workers until none is active with the epoch before the flip.
--
-- Each atomic access of the source is a step, and here each store is seen by every thread at
-- once: the sequentially consistent interleavings, which RcuTso embeds in the runs with store
-- buffers. Only the writer stores the epoch, so its load and its store are one step. A ghost count
-- of updates tells which update stored the value a worker holds.

namespace Yanet

section Code

variable {n : Nat}

def rcuStateActiveBit : UInt32 := 0
def rcuStateEpochBit : UInt32 := 1
def rcuStateActiveMask : UInt32 := 1 <<< rcuStateActiveBit

-- rcu_t: the packed state of each rcu_worker_t and the global epoch.
structure Rcu (n : Nat) where
  workers : Fin n → UInt32
  globalEpoch : UInt32

def rcuInit (n : Nat) : Rcu n := ⟨fun _ => 0, 0⟩

-- What rcu_read_begin stores: active, with the epoch it loaded.
def rcuPackedState (e : UInt32) : UInt32 := rcuStateActiveMask ||| (e <<< rcuStateEpochBit)

def rcuReadBegin (rcu : Rcu n) (w : Fin n) (e : UInt32) : Rcu n :=
  { rcu with workers := Function.update rcu.workers w (rcuPackedState e) }

def rcuReadEnd (rcu : Rcu n) (w : Fin n) : Rcu n :=
  { rcu with workers := Function.update rcu.workers w 0 }

-- The test wait_epoch_flush makes of a worker's state.
def rcuWorkerBlocks (state e : UInt32) : Bool :=
  let active := (state &&& rcuStateActiveMask) != 0
  if active then ((state >>> rcuStateEpochBit) &&& 1) == e else false

-- wait_epoch_flush at worker `i`: a worker that blocks sends the scan back to worker 0 (after
-- cpu_relax), any other lets it go on to the next.
def rcuFlushScan (rcu : Rcu n) (e : UInt32) (i : Fin n) : Nat :=
  if rcuWorkerBlocks (rcu.workers i) e then 0 else i.val + 1

-- A store of rcu_publish_update: `e ^ 1u` of the epoch `e` it flips.
def rcuPublishFlip (rcu : Rcu n) (e : UInt32) : Rcu n := { rcu with globalEpoch := e ^^^ 1 }

theorem epoch_cases {e : UInt32} (le : e ≤ 1) : e = 0 ∨ e = 1 := by
  have small : e.toNat ≤ 1 := le
  rcases Nat.le_one_iff_eq_zero_or_eq_one.mp small with zero | one
  · exact Or.inl (UInt32.toNat_inj.mp zero)
  · exact Or.inr (UInt32.toNat_inj.mp one)

theorem flip_le {e : UInt32} (le : e ≤ 1) : e ^^^ 1 ≤ 1 := by
  rcases epoch_cases le with rfl | rfl <;> decide

theorem eq_flip_of_ne {e e' : UInt32} (le : e ≤ 1) (le' : e' ≤ 1) (ne : e' ≠ e) : e' = e ^^^ 1 := by
  rcases epoch_cases le with rfl | rfl <;> rcases epoch_cases le' with rfl | rfl <;> simp_all

theorem rcuWorkerBlocks_packed {e e' : UInt32} (le : e ≤ 1) (le' : e' ≤ 1) :
    rcuWorkerBlocks (rcuPackedState e) e' = decide (e = e') := by
  rcases epoch_cases le with rfl | rfl <;> rcases epoch_cases le' with rfl | rfl <;> decide

theorem rcuWorkerBlocks_zero (e : UInt32) : rcuWorkerBlocks 0 e = false := rfl

theorem rcuWorkerBlocks_of_packed {state e : UInt32} (le : e ≤ 1) (packed : state = rcuPackedState e) :
    rcuWorkerBlocks state e = true := by
  rw [packed, rcuWorkerBlocks_packed le le, decide_eq_true_eq]

end Code

-- Where a worker is in its read-side critical section.
inductive RcuReader
  | idle
  -- rcu_read_begin loaded the global epoch `e` and has not stored its state yet
  | loaded (e : UInt32)
  -- its state is stored; RCU_READ_BEGIN has not loaded the value yet
  | active
  -- RCU_READ_BEGIN returned `value`, stored by update number `version`
  | holding (value : UInt64) (version : Nat)
deriving DecidableEq, Repr

def RcuReader.published : RcuReader → Bool
  | .active | .holding _ _ => true
  | .idle | .loaded _ => false

-- Where the writer is in rcu_update.
inductive RcuWriter
  | idle
  | stored
  -- the first wait_epoch_flush, for epoch `e`, about to load the state of worker `i`
  | firstFlush (e : UInt32) (i : Nat)
  | secondFlush (e : UInt32) (i : Nat)
deriving DecidableEq, Repr

structure RcuSystem (n : Nat) where
  rcu : Rcu n
  value : UInt64
  version : Nat
  readers : Fin n → RcuReader
  writer : RcuWriter

def rcuSystemInit (n : Nat) (value : UInt64) : RcuSystem n := ⟨rcuInit n, value, 0, fun _ => .idle, .idle⟩

namespace RcuSystem

variable {n : Nat} (s : RcuSystem n)

def setReader (w : Fin n) (r : RcuReader) : RcuSystem n :=
  { s with readers := Function.update s.readers w r }

-- The steps of a worker: rcu_read_begin's load of the epoch and store of its state,
-- RCU_READ_BEGIN's load of the value, rcu_read_end's store.
def loadEpoch (w : Fin n) : RcuSystem n := s.setReader w (.loaded s.rcu.globalEpoch)

def storeState (w : Fin n) (e : UInt32) : RcuSystem n := { s.setReader w .active with rcu := rcuReadBegin s.rcu w e }

def loadValue (w : Fin n) : RcuSystem n := s.setReader w (.holding s.value s.version)

def readEnd (w : Fin n) : RcuSystem n := { s.setReader w .idle with rcu := rcuReadEnd s.rcu w }

-- The steps of the writer: rcu_update's store of the value, then rcu_publish_update's two flips,
-- each followed by the scans of its wait_epoch_flush.
def storeValue (value : UInt64) : RcuSystem n := { s with value := value, version := s.version + 1, writer := .stored }

def firstFlip : RcuSystem n :=
  { s with rcu := rcuPublishFlip s.rcu s.rcu.globalEpoch, writer := .firstFlush s.rcu.globalEpoch 0 }

def firstScan (e : UInt32) (i : Fin n) : RcuSystem n := { s with writer := .firstFlush e (rcuFlushScan s.rcu e i) }

def secondFlip (e : UInt32) : RcuSystem n :=
  { s with rcu := rcuPublishFlip s.rcu (e ^^^ 1), writer := .secondFlush (e ^^^ 1) 0 }

def secondScan (e : UInt32) (i : Fin n) : RcuSystem n := { s with writer := .secondFlush e (rcuFlushScan s.rcu e i) }

def finish : RcuSystem n := { s with writer := .idle }

end RcuSystem

inductive RcuStep {n : Nat} : RcuSystem n → RcuSystem n → Prop
  | loadEpoch (s : RcuSystem n) (w : Fin n) (idle : s.readers w = .idle) : RcuStep s (s.loadEpoch w)
  | storeState (s : RcuSystem n) (w : Fin n) (e : UInt32) (loaded : s.readers w = .loaded e) :
      RcuStep s (s.storeState w e)
  | loadValue (s : RcuSystem n) (w : Fin n) (active : s.readers w = .active) : RcuStep s (s.loadValue w)
  | readEnd (s : RcuSystem n) (w : Fin n) (inside : (s.readers w).published = true) : RcuStep s (s.readEnd w)
  | storeValue (s : RcuSystem n) (value : UInt64) (idle : s.writer = .idle) : RcuStep s (s.storeValue value)
  | firstFlip (s : RcuSystem n) (stored : s.writer = .stored) : RcuStep s s.firstFlip
  | firstScan (s : RcuSystem n) (e : UInt32) (i : Fin n) (scanning : s.writer = .firstFlush e i) :
      RcuStep s (s.firstScan e i)
  | secondFlip (s : RcuSystem n) (e : UInt32) (passed : s.writer = .firstFlush e n) : RcuStep s (s.secondFlip e)
  | secondScan (s : RcuSystem n) (e : UInt32) (i : Fin n) (scanning : s.writer = .secondFlush e i) :
      RcuStep s (s.secondScan e i)
  | finish (s : RcuSystem n) (e : UInt32) (passed : s.writer = .secondFlush e n) : RcuStep s s.finish

inductive RcuReachable {n : Nat} : RcuSystem n → Prop
  | init (value : UInt64) : RcuReachable (rcuSystemInit n value)
  | step {s s' : RcuSystem n} : RcuReachable s → RcuStep s s' → RcuReachable s'

section Invariant

variable {n : Nat}

-- A worker holding a value that a later update replaced.
def RcuSystem.Stale (s : RcuSystem n) (w : Fin n) : Prop :=
  ∃ x v, s.readers w = .holding x v ∧ v < s.version

-- What each of the writer's phases says of the stale workers: none once rcu_update returned; in
-- the first flush the scanned ones do not show its epoch; in the second all show its epoch and
-- none is scanned yet.
def RcuWriterOk (s : RcuSystem n) : RcuWriter → Prop
  | .idle => ∀ w, ¬ s.Stale w
  | .stored => True
  | .firstFlush e i => e ≤ 1 ∧ ∀ w, s.Stale w → w.val < i → s.rcu.workers w ≠ rcuPackedState e
  | .secondFlush e i => e ≤ 1 ∧ ∀ w, s.Stale w → s.rcu.workers w = rcuPackedState e ∧ i ≤ w.val

-- A worker's packed state matches where it is, and the value it holds is the current one or the
-- one the update in progress replaced.
def RcuWorkerOk (version : Nat) (value : UInt64) : RcuReader → UInt32 → Prop
  | .idle, state => state = 0
  | .loaded e, state => e ≤ 1 ∧ state = 0
  | .active, state => ∃ e, e ≤ 1 ∧ state = rcuPackedState e
  | .holding x v, state =>
    (∃ e, e ≤ 1 ∧ state = rcuPackedState e) ∧ v ≤ version ∧ version ≤ v + 1 ∧ (v = version → x = value)

structure RcuInv (s : RcuSystem n) : Prop where
  epoch_le : s.rcu.globalEpoch ≤ 1
  workers : ∀ w, RcuWorkerOk s.version s.value (s.readers w) (s.rcu.workers w)
  writer : RcuWriterOk s s.writer

theorem rcuInv_init (value : UInt64) : RcuInv (rcuSystemInit n value) := by
  refine ⟨show (0 : UInt32) ≤ 1 by decide, fun w => rfl, fun w stale => ?_⟩
  obtain ⟨x, v, holding, _⟩ := stale
  cases holding

theorem RcuWriterOk.frame {s s' : RcuSystem n} {phase : RcuWriter} (ok : RcuWriterOk s phase)
    (stale : ∀ w, s'.Stale w → s.Stale w ∧ s'.rcu.workers w = s.rcu.workers w) : RcuWriterOk s' phase := by
  cases phase with
  | idle => exact fun w st => ok w (stale w st).1
  | stored => trivial
  | firstFlush e i =>
    refine ⟨ok.1, fun w st before => ?_⟩
    rw [(stale w st).2]
    exact ok.2 w (stale w st).1 before
  | secondFlush e i =>
    refine ⟨ok.1, fun w st => ?_⟩
    rw [(stale w st).2]
    exact ok.2 w (stale w st).1

theorem RcuWorkerOk.storeValue {version : Nat} {value value' : UInt64} {r : RcuReader} {state : UInt32}
    (ok : RcuWorkerOk version value r state) (current : ∀ x v, r = .holding x v → version ≤ v) :
    RcuWorkerOk (version + 1) value' r state := by
  cases r with
  | idle => exact ok
  | loaded e => exact ok
  | active => exact ok
  | holding x v =>
    obtain ⟨published, le, _, _⟩ := ok
    have recent := current x v rfl
    exact ⟨published, by omega, by omega, fun new => absurd new (by omega)⟩

theorem RcuWorkerOk.published {version : Nat} {value x : UInt64} {v : Nat} {state : UInt32}
    (ok : RcuWorkerOk version value (.holding x v) state) : ∃ e, e ≤ 1 ∧ state = rcuPackedState e :=
  ok.1

namespace RcuInv

variable {s : RcuSystem n}

theorem worker_step (inv : RcuInv s) {s' : RcuSystem n} (w : Fin n) {r : RcuReader} {state : UInt32}
    (writer : s'.writer = s.writer) (version : s'.version = s.version) (value : s'.value = s.value)
    (epoch : s'.rcu.globalEpoch = s.rcu.globalEpoch)
    (others : ∀ w', w' ≠ w → s'.readers w' = s.readers w' ∧ s'.rcu.workers w' = s.rcu.workers w')
    (reader : s'.readers w = r) (stateEq : s'.rcu.workers w = state) (ok : RcuWorkerOk s.version s.value r state)
    (fresh : ∀ x v, r = .holding x v → s.version ≤ v) : RcuInv s' := by
  refine ⟨epoch ▸ inv.epoch_le, fun w' => ?_, ?_⟩
  · rw [version, value]
    by_cases same : w' = w
    · rw [same, reader, stateEq]
      exact ok
    · rw [(others w' same).1, (others w' same).2]
      exact inv.workers w'
  · rw [writer]
    apply inv.writer.frame
    rintro w' ⟨x, v, holding, old⟩
    rw [version] at old
    have other : w' ≠ w := by
      rintro rfl
      have recent := fresh x v (reader ▸ holding)
      omega
    rw [(others w' other).1] at holding
    exact ⟨⟨x, v, holding, old⟩, (others w' other).2⟩

theorem stale_iff {s' : RcuSystem n} (readers : s'.readers = s.readers) (version : s'.version = s.version) (w : Fin n) :
    s'.Stale w ↔ s.Stale w := by
  rw [RcuSystem.Stale, RcuSystem.Stale, readers, version]

theorem published_of_stale (inv : RcuInv s) {w : Fin n} (stale : s.Stale w) :
    ∃ e, e ≤ 1 ∧ s.rcu.workers w = rcuPackedState e := by
  obtain ⟨x, v, holding, _⟩ := stale
  have ok := inv.workers w
  rw [holding] at ok
  exact ok.published

theorem loadEpoch (inv : RcuInv s) (w : Fin n) (idle : s.readers w = .idle) : RcuInv (s.loadEpoch w) := by
  have ok := inv.workers w
  rw [idle] at ok
  exact inv.worker_step w rfl rfl rfl rfl (fun _ other => ⟨Function.update_of_ne other _ _, rfl⟩)
    (Function.update_self _ _ _) ok ⟨inv.epoch_le, rfl⟩ (fun _ _ loaded => RcuReader.noConfusion loaded)

theorem storeState (inv : RcuInv s) (w : Fin n) (e : UInt32) (loaded : s.readers w = .loaded e) :
    RcuInv (s.storeState w e) := by
  have ok := inv.workers w
  rw [loaded] at ok
  exact inv.worker_step w rfl rfl rfl rfl
    (fun _ other => ⟨Function.update_of_ne other _ _, Function.update_of_ne other _ _⟩)
    (Function.update_self _ _ _) (Function.update_self _ _ _) ⟨e, ok.1, rfl⟩
    (fun _ _ active => RcuReader.noConfusion active)

theorem loadValue (inv : RcuInv s) (w : Fin n) (active : s.readers w = .active) : RcuInv (s.loadValue w) := by
  have ok := inv.workers w
  rw [active] at ok
  refine inv.worker_step w rfl rfl rfl rfl (fun _ other => ⟨Function.update_of_ne other _ _, rfl⟩)
    (Function.update_self _ _ _) rfl ⟨ok, le_rfl, Nat.le_succ _, fun _ => rfl⟩ ?_
  intro x v holding
  cases holding
  exact le_rfl

theorem readEnd (inv : RcuInv s) (w : Fin n) : RcuInv (s.readEnd w) :=
  inv.worker_step w rfl rfl rfl rfl
    (fun _ other => ⟨Function.update_of_ne other _ _, Function.update_of_ne other _ _⟩)
    (Function.update_self _ _ _) (Function.update_self _ _ _) (show (0 : UInt32) = 0 from rfl)
    (fun _ _ idle => RcuReader.noConfusion idle)

theorem storeValue (inv : RcuInv s) (value : UInt64) (idle : s.writer = .idle) : RcuInv (s.storeValue value) := by
  have none_stale : ∀ w, ¬ s.Stale w := by
    have ok := inv.writer
    rw [idle] at ok
    exact ok
  refine ⟨inv.epoch_le, fun w => (inv.workers w).storeValue ?_, trivial⟩
  intro x v holding
  exact Nat.le_of_not_lt fun old => none_stale w ⟨x, v, holding, old⟩

theorem firstFlip (inv : RcuInv s) : RcuInv s.firstFlip :=
  ⟨flip_le inv.epoch_le, inv.workers, inv.epoch_le, fun _ _ before => absurd before (Nat.not_lt_zero _)⟩

theorem firstScan (inv : RcuInv s) (e : UInt32) (i : Fin n) (scanning : s.writer = .firstFlush e i) :
    RcuInv (s.firstScan e i) := by
  have ok := inv.writer
  rw [scanning] at ok
  obtain ⟨le, scanned⟩ := ok
  refine ⟨inv.epoch_le, inv.workers, le, fun w stale before => ?_⟩
  rw [stale_iff rfl rfl] at stale
  unfold rcuFlushScan at before
  split at before
  · exact absurd before (Nat.not_lt_zero _)
  · rename_i passes
    rcases Nat.lt_succ_iff_lt_or_eq.mp before with earlier | here
    · exact scanned w stale earlier
    · intro state
      have same : w = i := Fin.ext here
      exact passes (same ▸ rcuWorkerBlocks_of_packed le state)

theorem secondFlip (inv : RcuInv s) (e : UInt32) (passed : s.writer = .firstFlush e n) : RcuInv (s.secondFlip e) := by
  have ok := inv.writer
  rw [passed] at ok
  obtain ⟨le, scanned⟩ := ok
  refine ⟨flip_le (flip_le le), inv.workers, flip_le le, fun w stale => ?_⟩
  rw [stale_iff rfl rfl] at stale
  obtain ⟨e', le', state⟩ := inv.published_of_stale stale
  have other : e' ≠ e := fun same => scanned w stale w.isLt (same ▸ state)
  exact ⟨by rw [← eq_flip_of_ne le le' other]; exact state, Nat.zero_le _⟩

theorem secondScan (inv : RcuInv s) (e : UInt32) (i : Fin n) (scanning : s.writer = .secondFlush e i) :
    RcuInv (s.secondScan e i) := by
  have ok := inv.writer
  rw [scanning] at ok
  obtain ⟨le, unscanned⟩ := ok
  refine ⟨inv.epoch_le, inv.workers, le, fun w stale => ?_⟩
  rw [stale_iff rfl rfl] at stale
  obtain ⟨state, later⟩ := unscanned w stale
  refine ⟨state, ?_⟩
  unfold rcuFlushScan
  split
  · exact Nat.zero_le _
  · rename_i passes
    have other : w ≠ i := fun same => passes (same ▸ rcuWorkerBlocks_of_packed le state)
    have ne : w.val ≠ i.val := fun same => other (Fin.ext same)
    omega

theorem finish (inv : RcuInv s) (e : UInt32) (passed : s.writer = .secondFlush e n) : RcuInv s.finish := by
  have ok := inv.writer
  rw [passed] at ok
  refine ⟨inv.epoch_le, inv.workers, fun w stale => ?_⟩
  rw [stale_iff rfl rfl] at stale
  exact absurd (ok.2 w stale).2 (Nat.not_le_of_lt w.isLt)

theorem step (inv : RcuInv s) {s' : RcuSystem n} (next : RcuStep s s') : RcuInv s' := by
  cases next with
  | loadEpoch w idle => exact inv.loadEpoch w idle
  | storeState w e loaded => exact inv.storeState w e loaded
  | loadValue w active => exact inv.loadValue w active
  | readEnd w _ => exact inv.readEnd w
  | storeValue value idle => exact inv.storeValue value idle
  | firstFlip _ => exact inv.firstFlip
  | firstScan e i scanning => exact inv.firstScan e i scanning
  | secondFlip e passed => exact inv.secondFlip e passed
  | secondScan e i scanning => exact inv.secondScan e i scanning
  | finish e passed => exact inv.finish e passed

end RcuInv

theorem rcuInv_reachable {s : RcuSystem n} (reachable : RcuReachable s) : RcuInv s := by
  induction reachable with
  | init value => exact rcuInv_init value
  | step _ next inv => exact inv.step next

end Invariant

end Yanet
