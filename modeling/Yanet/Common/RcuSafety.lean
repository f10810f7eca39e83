import Yanet.Common.RcuTso

set_option autoImplicit false

-- What the invariant of the RCU gives when every store is seen at once: after rcu_update returns
-- no worker holds a value it replaced. The accesses of rcu.h do not give that order, and with store
-- buffers the guarantee fails. That wait_epoch_flush passes workers outside a read-side critical
-- section, so that with none inside rcu_update returns by its own steps, holds in both.

namespace Yanet

variable {n : Nat} {s : RcuSystem n}

theorem rcu_update_grace_period (reachable : RcuReachable s) (idle : s.writer = .idle) {w : Fin n} {x : UInt64}
    {v : Nat} (holding : s.readers w = .holding x v) : v = s.version ∧ x = s.value := by
  have inv := rcuInv_reachable reachable
  have none_stale := inv.writer
  rw [idle] at none_stale
  have ok := inv.workers w
  rw [holding] at ok
  obtain ⟨_, le, _, current⟩ := ok
  have recent : s.version ≤ v := Nat.le_of_not_lt fun old => none_stale w ⟨x, v, holding, old⟩
  have same : v = s.version := by omega
  exact ⟨same, current same⟩

-- With the stores of rcu.h left in store buffers the grace period above is lost. The worker's store
-- of its state and the writer's store of the value are the two stores of a store-buffering test,
-- each followed by its thread's load of the other cell, and release/acquire does not order a store
-- before a later load: the worker loads the old value, both flushes load its state as 0, and
-- rcu_update returns while the worker holds the value it replaced.
def rcuStoreBuffering : RcuTsoSystem 1 :=
  let read := ((((rcuSystemInit 1 5).tso.storeValue 7).loadEpoch 0).storeState 0 0).loadValue 0
  let updated := (((read.firstFlip.firstScan 0 0).secondFlip 0).secondScan 1 0).finish
  (((updated.commit .writer).commit .writer).commit .writer).commit (.worker 0)

theorem rcuStoreBuffering_reachable : RcuTsoReachable rcuStoreBuffering := by
  have read : RcuTsoReachable (((((rcuSystemInit 1 5).tso.storeValue 7).loadEpoch 0).storeState 0 0).loadValue 0) :=
    ((((RcuTsoReachable.init 5).step (.storeValue _ 7 rfl)).step (.loadEpoch _ 0 rfl)).step
      (.storeState _ 0 0 rfl)).step (.loadValue _ 0 rfl)
  have updated := ((((read.step (.firstFlip _ rfl)).step (.firstScan _ 0 0 rfl)).step (.secondFlip _ 0 rfl)).step
    (.secondScan _ 1 0 rfl)).step (.finish _ 1 rfl)
  exact (((updated.step (.commit _ .writer (by decide))).step (.commit _ .writer (by decide))).step
    (.commit _ .writer (by decide))).step (.commit _ (.worker 0) (by decide))

theorem rcu_update_returns_with_stale_reader :
    RcuTsoReachable rcuStoreBuffering ∧ rcuStoreBuffering.writer = .idle ∧
      (∀ t, rcuStoreBuffering.memory.buffers t = []) ∧ rcuStoreBuffering.memory.mem .value = 7 ∧
      rcuStoreBuffering.version = 1 ∧ rcuStoreBuffering.readers 0 = .holding 5 0 := by
  refine ⟨rcuStoreBuffering_reachable, rfl, ?_, rfl, rfl, rfl⟩
  intro t
  cases t with
  | worker w =>
    rw [Subsingleton.elim w 0]
    rfl
  | writer => rfl

theorem RcuSystem.flush_run (s : RcuSystem n) (flush : Nat → RcuWriter)
    (scan : ∀ i : Fin n, RcuStep { s with writer := flush i } { s with writer := flush (i.val + 1) }) :
    ∀ k i, i + k = n → Relation.ReflTransGen RcuStep { s with writer := flush i } { s with writer := flush n } := by
  -- induction on the workers left to scan
  intro k
  induction k with
  | zero =>
    intro i done
    rw [Nat.add_zero] at done
    rw [done]
  | succ k ih =>
    intro i rest
    exact .head (scan ⟨i, by omega⟩) (ih (i + 1) (by omega))

theorem rcu_update_quiescent (stored : s.writer = .stored) (quiet : ∀ w, s.rcu.workers w = 0) :
    ∃ s', Relation.ReflTransGen RcuStep s s' ∧ s'.writer = .idle ∧ s'.rcu = s.rcu ∧ s'.readers = s.readers ∧
      s'.value = s.value := by
  -- with every worker's state 0, each scan goes on to the next worker
  have passes : ∀ rcu : Rcu n, rcu.workers = s.rcu.workers → ∀ e (i : Fin n), rcuFlushScan rcu e i = i.val + 1 := by
    intro rcu same e i
    rw [rcuFlushScan, same, quiet, rcuWorkerBlocks_zero, if_neg Bool.false_ne_true]
  have first := RcuSystem.flush_run s.firstFlip (fun i => .firstFlush s.rcu.globalEpoch i) (fun i => by
    rw [← passes s.firstFlip.rcu rfl s.rcu.globalEpoch i]
    exact .firstScan _ _ i rfl) n 0 (Nat.zero_add n)
  have flipped : RcuStep { s.firstFlip with writer := .firstFlush s.rcu.globalEpoch n }
      ({ s.firstFlip with writer := .firstFlush s.rcu.globalEpoch n }.secondFlip s.rcu.globalEpoch) :=
    .secondFlip _ _ rfl
  have second := RcuSystem.flush_run ({ s.firstFlip with writer := .firstFlush s.rcu.globalEpoch n }.secondFlip
    s.rcu.globalEpoch) (fun i => .secondFlush (s.rcu.globalEpoch ^^^ 1) i) (fun i => by
    rw [← passes _ rfl (s.rcu.globalEpoch ^^^ 1) i]
    exact .secondScan _ _ i rfl) n 0 (Nat.zero_add n)
  refine ⟨{ { s.firstFlip with writer := .firstFlush s.rcu.globalEpoch n }.secondFlip s.rcu.globalEpoch with
    writer := .idle }, ?_, rfl, ?_, rfl, rfl⟩
  · exact ((((Relation.ReflTransGen.single (.firstFlip s stored)).trans first).tail flipped).trans second).tail
      (.finish _ _ rfl)
  · -- the epoch was flipped twice
    show { s.rcu with globalEpoch := (s.rcu.globalEpoch ^^^ 1) ^^^ 1 } = s.rcu
    simp

theorem rcu_update_quiescent_twoWorkers :
    ((rcuSystemInit 2 5).storeValue 7).writer = .stored ∧ (∀ w, ((rcuSystemInit 2 5).storeValue 7).rcu.workers w = 0) ∧
      ∃ s', Relation.ReflTransGen RcuStep ((rcuSystemInit 2 5).storeValue 7) s' ∧ s'.writer = .idle ∧
        s'.rcu = ((rcuSystemInit 2 5).storeValue 7).rcu ∧ s'.readers = ((rcuSystemInit 2 5).storeValue 7).readers ∧
        s'.value = 7 :=
  ⟨rfl, fun _ => rfl, rcu_update_quiescent rfl fun _ => rfl⟩

end Yanet
