import Yanet.Common.Rcu
import Yanet.Lib.StoreBuffer

set_option autoImplicit false

-- The accesses of common/rcu.h with the orders it gives them: each store is release and each load
-- acquire or relaxed, none seq_cst and no fence, so a store may wait in its thread's buffer while
-- the thread loads on. The interleavings of `RcuStep` are the runs where every store commits at
-- once.

namespace Yanet

-- The atomics of rcu_t and the value rcu_update stores.
inductive RcuCell (n : Nat)
  | globalEpoch
  | state (w : Fin n)
  | value
deriving DecidableEq

inductive RcuThread (n : Nat)
  | worker (w : Fin n)
  | writer
deriving DecidableEq

-- Each cell holds its atomic's bits in a UInt64; the epoch and the states are atomic_uint.
abbrev RcuMemory (n : Nat) := StoreBuffer.Tso (RcuThread n) (RcuCell n) UInt64

structure RcuTsoSystem (n : Nat) where
  memory : RcuMemory n
  -- counts the updates whose store of the value reached memory
  version : Nat
  readers : Fin n → RcuReader
  writer : RcuWriter

namespace RcuTsoSystem

variable {n : Nat} (s : RcuTsoSystem n)

-- rcu_t as thread `t` loads it.
def view (t : RcuThread n) : Rcu n :=
  ⟨fun w => (s.memory.load t (.state w)).toUInt32, (s.memory.load t .globalEpoch).toUInt32⟩

def setReader (w : Fin n) (r : RcuReader) : RcuTsoSystem n :=
  { s with readers := Function.update s.readers w r }

def loadEpoch (w : Fin n) : RcuTsoSystem n := s.setReader w (.loaded (s.view (.worker w)).globalEpoch)

def storeState (w : Fin n) (e : UInt32) : RcuTsoSystem n :=
  { s.setReader w .active with memory := s.memory.store (.worker w) (.state w) (rcuPackedState e).toUInt64 }

def loadValue (w : Fin n) : RcuTsoSystem n :=
  s.setReader w (.holding (s.memory.load (.worker w) .value) s.version)

def readEnd (w : Fin n) : RcuTsoSystem n := { s.setReader w .idle with memory := s.memory.store (.worker w) (.state w) 0 }

def storeValue (value : UInt64) : RcuTsoSystem n :=
  { s with memory := s.memory.store .writer .value value, writer := .stored }

def firstFlip : RcuTsoSystem n :=
  let e := (s.view .writer).globalEpoch
  { s with memory := s.memory.store .writer .globalEpoch (e ^^^ 1).toUInt64, writer := .firstFlush e 0 }

def firstScan (e : UInt32) (i : Fin n) : RcuTsoSystem n :=
  { s with writer := .firstFlush e (rcuFlushScan (s.view .writer) e i) }

def secondFlip (e : UInt32) : RcuTsoSystem n :=
  { s with memory := s.memory.store .writer .globalEpoch ((e ^^^ 1) ^^^ 1).toUInt64,
           writer := .secondFlush (e ^^^ 1) 0 }

def secondScan (e : UInt32) (i : Fin n) : RcuTsoSystem n :=
  { s with writer := .secondFlush e (rcuFlushScan (s.view .writer) e i) }

def finish : RcuTsoSystem n := { s with writer := .idle }

def commitsValue (t : RcuThread n) : Bool := (s.memory.buffers t).head?.map Prod.fst == some .value

def commit (t : RcuThread n) : RcuTsoSystem n :=
  { s with memory := s.memory.commit t, version := if s.commitsValue t then s.version + 1 else s.version }

end RcuTsoSystem

-- The steps of `RcuStep`, each store left in its thread's buffer, and the commits of the buffers.
inductive RcuTsoStep {n : Nat} : RcuTsoSystem n → RcuTsoSystem n → Prop
  | loadEpoch (s : RcuTsoSystem n) (w : Fin n) (idle : s.readers w = .idle) : RcuTsoStep s (s.loadEpoch w)
  | storeState (s : RcuTsoSystem n) (w : Fin n) (e : UInt32) (loaded : s.readers w = .loaded e) :
      RcuTsoStep s (s.storeState w e)
  | loadValue (s : RcuTsoSystem n) (w : Fin n) (active : s.readers w = .active) : RcuTsoStep s (s.loadValue w)
  | readEnd (s : RcuTsoSystem n) (w : Fin n) (inside : (s.readers w).published = true) : RcuTsoStep s (s.readEnd w)
  | storeValue (s : RcuTsoSystem n) (value : UInt64) (idle : s.writer = .idle) : RcuTsoStep s (s.storeValue value)
  | firstFlip (s : RcuTsoSystem n) (stored : s.writer = .stored) : RcuTsoStep s s.firstFlip
  | firstScan (s : RcuTsoSystem n) (e : UInt32) (i : Fin n) (scanning : s.writer = .firstFlush e i) :
      RcuTsoStep s (s.firstScan e i)
  | secondFlip (s : RcuTsoSystem n) (e : UInt32) (passed : s.writer = .firstFlush e n) :
      RcuTsoStep s (s.secondFlip e)
  | secondScan (s : RcuTsoSystem n) (e : UInt32) (i : Fin n) (scanning : s.writer = .secondFlush e i) :
      RcuTsoStep s (s.secondScan e i)
  | finish (s : RcuTsoSystem n) (e : UInt32) (passed : s.writer = .secondFlush e n) : RcuTsoStep s s.finish
  | commit (s : RcuTsoSystem n) (t : RcuThread n) (pending : s.memory.buffers t ≠ []) : RcuTsoStep s (s.commit t)

namespace RcuSystem

variable {n : Nat} (s : RcuSystem n)

def memory : RcuCell n → UInt64
  | .globalEpoch => s.rcu.globalEpoch.toUInt64
  | .state w => (s.rcu.workers w).toUInt64
  | .value => s.value

-- The same state with every buffer empty.
def tso : RcuTsoSystem n := ⟨.init s.memory, s.version, s.readers, s.writer⟩

end RcuSystem

inductive RcuTsoReachable {n : Nat} : RcuTsoSystem n → Prop
  | init (value : UInt64) : RcuTsoReachable (rcuSystemInit n value).tso
  | step {s s' : RcuTsoSystem n} : RcuTsoReachable s → RcuTsoStep s s' → RcuTsoReachable s'

section Simulation

variable {n : Nat}

namespace RcuSystem

variable (s : RcuSystem n)

@[simp] theorem tso_buffers (t : RcuThread n) : s.tso.memory.buffers t = [] := rfl

theorem tso_load (t : RcuThread n) (c : RcuCell n) : s.tso.memory.load t c = s.memory c :=
  StoreBuffer.Tso.load_of_nil (s.tso_buffers t) c

theorem tso_view (t : RcuThread n) : s.tso.view t = s.rcu := by
  simp only [RcuTsoSystem.view, tso_load, memory, UInt32.toUInt32_toUInt64]

theorem tso_commit {s' : RcuTsoSystem n} {t : RcuThread n} {c : RcuCell n} {x : UInt64}
    (stored : s'.memory = s.tso.memory.store t c x) :
    s'.commit t = { s' with memory := .init (Function.update s.memory c x),
                            version := if c = .value then s'.version + 1 else s'.version } := by
  have buffered : s'.memory.buffers t = [(c, x)] := by
    rw [stored, StoreBuffer.Tso.store_buffers, Function.update_self, tso_buffers, List.nil_append]
  have value : s'.commitsValue t = decide (c = .value) := by
    rw [RcuTsoSystem.commitsValue, buffered]
    rfl
  rw [RcuTsoSystem.commit, value, stored, StoreBuffer.Tso.commit_store_of_nil (s.tso_buffers t)]
  simp only [decide_eq_true_eq]
  rfl

theorem memory_of_state {s' : RcuSystem n} {w : Fin n} {x : UInt32} (epoch : s'.rcu.globalEpoch = s.rcu.globalEpoch)
    (value : s'.value = s.value) (workers : s'.rcu.workers = Function.update s.rcu.workers w x) :
    s'.memory = Function.update s.memory (.state w) x.toUInt64 := by
  funext c
  cases c with
  | globalEpoch => simp [memory, epoch]
  | state w' =>
    by_cases same : w' = w
    · simp [memory, workers, same]
    · simp [memory, workers, same]
  | value => simp [memory, value]

theorem memory_of_epoch {s' : RcuSystem n} {x : UInt32} (epoch : s'.rcu.globalEpoch = x)
    (value : s'.value = s.value) (workers : s'.rcu.workers = s.rcu.workers) :
    s'.memory = Function.update s.memory .globalEpoch x.toUInt64 := by
  funext c
  cases c <;> simp [memory, epoch, value, workers]

theorem memory_of_value {s' : RcuSystem n} {x : UInt64} (rcu : s'.rcu = s.rcu) (value : s'.value = x) :
    s'.memory = Function.update s.memory .value x := by
  funext c
  cases c <;> simp [memory, rcu, value]

theorem tso_loadEpoch (w : Fin n) : s.tso.loadEpoch w = (s.loadEpoch w).tso := by
  rw [RcuTsoSystem.loadEpoch, tso_view]
  rfl

theorem tso_storeState (w : Fin n) (e : UInt32) : (s.tso.storeState w e).commit (.worker w) = (s.storeState w e).tso := by
  rw [tso_commit s rfl, if_neg (by simp), ← @memory_of_state n s (s.storeState w e) w _ rfl rfl rfl]
  rfl

theorem tso_loadValue (w : Fin n) : s.tso.loadValue w = (s.loadValue w).tso := by
  rw [RcuTsoSystem.loadValue, tso_load]
  rfl

theorem tso_readEnd (w : Fin n) : (s.tso.readEnd w).commit (.worker w) = (s.readEnd w).tso := by
  rw [tso_commit s rfl, if_neg (by simp), show (0 : UInt64) = (0 : UInt32).toUInt64 from rfl,
    ← @memory_of_state n s (s.readEnd w) w _ rfl rfl rfl]
  rfl

theorem tso_storeValue (value : UInt64) : (s.tso.storeValue value).commit .writer = (s.storeValue value).tso := by
  rw [tso_commit s rfl, if_pos rfl, ← @memory_of_value n s (s.storeValue value) value rfl rfl]
  rfl

theorem tso_firstFlip : s.tso.firstFlip.commit .writer = s.firstFlip.tso := by
  simp only [RcuTsoSystem.firstFlip, tso_view]
  rw [tso_commit s rfl, if_neg (by simp), ← @memory_of_epoch n s s.firstFlip (s.rcu.globalEpoch ^^^ 1) rfl rfl rfl]
  rfl

theorem tso_firstScan (e : UInt32) (i : Fin n) : s.tso.firstScan e i = (s.firstScan e i).tso := by
  rw [RcuTsoSystem.firstScan, tso_view]
  rfl

theorem tso_secondFlip (e : UInt32) : (s.tso.secondFlip e).commit .writer = (s.secondFlip e).tso := by
  rw [tso_commit s rfl, if_neg (by simp), ← @memory_of_epoch n s (s.secondFlip e) ((e ^^^ 1) ^^^ 1) rfl rfl rfl]
  rfl

theorem tso_secondScan (e : UInt32) (i : Fin n) : s.tso.secondScan e i = (s.secondScan e i).tso := by
  rw [RcuTsoSystem.secondScan, tso_view]
  rfl

end RcuSystem

theorem RcuTsoStep.stored {s s₁ s' : RcuTsoSystem n} {t : RcuThread n} {c : RcuCell n} {x : UInt64}
    (first : RcuTsoStep s s₁) (buffered : s₁.memory = s.memory.store t c x) (committed : s₁.commit t = s') :
    Relation.ReflTransGen RcuTsoStep s s' := by
  have pending : s₁.memory.buffers t ≠ [] := by
    rw [buffered]
    exact StoreBuffer.Tso.store_pending _ _ _ _
  exact .tail (.single first) (committed ▸ .commit _ t pending)

-- Every step of the sequentially consistent model is a run of the one with store buffers.
theorem RcuStep.tso {s s' : RcuSystem n} (next : RcuStep s s') : Relation.ReflTransGen RcuTsoStep s.tso s'.tso := by
  cases next with
  | loadEpoch w idle => exact .single (s.tso_loadEpoch w ▸ .loadEpoch _ w idle)
  | storeState w e loaded => exact (RcuTsoStep.storeState _ w e loaded).stored rfl (s.tso_storeState w e)
  | loadValue w active => exact .single (s.tso_loadValue w ▸ .loadValue _ w active)
  | readEnd w inside => exact (RcuTsoStep.readEnd _ w inside).stored rfl (s.tso_readEnd w)
  | storeValue value idle => exact (RcuTsoStep.storeValue _ value idle).stored rfl (s.tso_storeValue value)
  | firstFlip stored => exact (RcuTsoStep.firstFlip _ stored).stored rfl s.tso_firstFlip
  | firstScan e i scanning => exact .single (s.tso_firstScan e i ▸ .firstScan _ e i scanning)
  | secondFlip e passed => exact (RcuTsoStep.secondFlip _ e passed).stored rfl (s.tso_secondFlip e)
  | secondScan e i scanning => exact .single (s.tso_secondScan e i ▸ .secondScan _ e i scanning)
  | finish e passed => exact .single (.finish _ e passed)

theorem RcuTsoReachable.run {s s' : RcuTsoSystem n} (reachable : RcuTsoReachable s)
    (run : Relation.ReflTransGen RcuTsoStep s s') : RcuTsoReachable s' := by
  induction run with
  | refl => exact reachable
  | tail _ next reached => exact reached.step next

theorem RcuReachable.tso {s : RcuSystem n} (reachable : RcuReachable s) : RcuTsoReachable s.tso := by
  induction reachable with
  | init value => exact .init value
  | step _ next reached => exact reached.run next.tso

end Simulation

end Yanet
