import Yanet.Common.DataPipeProtocol

set_option autoImplicit false

-- What the invariant of the data pipe gives in every state of every interleaving: a producer call and
-- a consumer call in flight never share a slot; the items come out in the order they went in, none
-- lost and none repeated, and each callback is given the next ones; a call gets no window only when
-- its side has nothing to do; and the machine positions, wrapping in 64 bits, keep
-- `f_pos <= r_pos <= w_pos` with at most the ring's size between `f_pos` and `w_pos`.
--
-- The three calls of the code, each with no step of the other side inside it, are runs of the
-- system, so all of this holds after any sequence of them.

namespace Yanet

variable {α : Type}

-- The slots a call's callback is given: `available` of them from the masked position.
def PipeCall.slots (call : PipeCall) : List Nat := List.range' call.start.toNat call.available.toNat

theorem PipeCall.Fits.slot {call : PipeCall} {ring pos room i : Nat} (fits : call.Fits ring pos room)
    (mem : i ∈ call.slots) : ∃ p, pos ≤ p ∧ p < pos + call.available.toNat ∧ p % ring = i := by
  rw [PipeCall.slots, List.mem_range'_1, fits.start] at mem
  exact ⟨pos + (i - pos % ring), by omega, by omega, RingIndex.slot_of_run fits.within mem.1 mem.2⟩

theorem PipeCall.slots_disjoint {first second : PipeCall} {ring pos pos' room room' : Nat}
    (fits : first.Fits ring pos room) (fits' : second.Fits ring pos' room')
    (apart : pos + first.available.toNat ≤ pos') (revolution : pos' + second.available.toNat ≤ pos + ring) :
    List.Disjoint first.slots second.slots := by
  intro i mem mem'
  obtain ⟨p, lo, hi, slot⟩ := fits.slot mem
  obtain ⟨q, lo', hi', slot'⟩ := fits'.slot mem'
  have same : p = q :=
    RingIndex.eq_of_mod_eq_of_window (c := pos) lo (by omega) (by omega) (by omega) (slot.trans slot'.symm)
  omega

namespace PipeInv

variable {s : PipeSystem α}

theorem slots_disjoint (inv : PipeInv s) {op : ProducerCall} {producer consumer : PipeCall}
    (busy : s.producer = some (op, producer)) (busy' : s.consumer = some consumer) :
    List.Disjoint producer.slots consumer.slots := by
  have fits' := inv.consumer consumer busy'
  have room' := fits'.available_le
  have freed_le := inv.freed_le
  have popped_le := inv.popped_le
  have pushed_le := inv.pushed_le
  cases op with
  | push =>
    -- the pop reads pushed items, the push fills the free slots after them
    have fits : producer.Fits s.pipe.ring s.pushed.length (s.freed.length + s.pipe.ring - s.pushed.length) :=
      inv.producer _ _ busy
    have room := fits.available_le
    exact (PipeCall.slots_disjoint fits' fits (by omega) (by omega)).symm
  | free =>
    -- the free reclaims popped items, the pop reads the pushed ones after them
    have fits : producer.Fits s.pipe.ring s.freed.length (s.popped.length - s.freed.length) :=
      inv.producer _ _ busy
    have room := fits.available_le
    exact PipeCall.slots_disjoint fits fits' (by omega) (by omega)

theorem pop_seen (inv : PipeInv s) {call : PipeCall} (busy : s.consumer = some call) :
    call.seen s.pipe.data = (s.pushed.drop s.popped.length).take call.available.toNat := by
  have fits := inv.consumer call busy
  have room := fits.available_le
  have popped_le := inv.popped_le
  rw [inv.seen_eq fits inv.freed_le (by omega), s.history_drop inv.taken_length]

theorem free_seen (inv : PipeInv s) {call : PipeCall} (busy : s.producer = some (.free, call)) :
    call.seen s.pipe.data = (s.taken.drop s.freed.length).take call.available.toNat := by
  have fits : call.Fits s.pipe.ring s.freed.length (s.popped.length - s.freed.length) := inv.producer _ _ busy
  have room := fits.available_le
  have freed_le := inv.freed_le
  have popped_le := inv.popped_le
  have taken_length := inv.taken_length
  rw [inv.seen_eq fits le_rfl (by omega), PipeSystem.history, List.drop_append_of_le_length (by omega),
    List.take_append_of_le_length (by rw [List.length_drop]; omega)]

end PipeInv

namespace PipeSystem

variable (s : PipeSystem α) (h : PipeHandler α)

-- data_pipe_item_push, data_pipe_item_pop and data_pipe_item_free with no step of the other side
-- between their loads and their store.
def pushCall : PipeSystem α :=
  match pipeCall s.pipe.wPos s.pipe.fPos s.pipe.size (1 <<< s.pipe.size) with
  | some call => s.pushStart.pushEnd call (h.run (call.seen s.pipe.data))
  | none => s.pushStart

def popCall : PipeSystem α :=
  match pipeCall s.pipe.rPos s.pipe.wPos s.pipe.size 0 with
  | some call => s.popStart.popEnd call (h.run (call.seen s.pipe.data))
  | none => s.popStart

def freeCall : PipeSystem α :=
  match pipeCall s.pipe.fPos s.pipe.rPos s.pipe.size 0 with
  | some call => s.freeStart.freeEnd call (h.run (call.seen s.pipe.data))
  | none => s.freeStart

-- Each whole call leaves the code's pipe as the code does.
theorem pushCall_pipe : (s.pushCall h).pipe = (dataPipeItemPush s.pipe h.run).2 := by
  unfold pushCall dataPipeItemPush dataPipeRingHandle pipeCall
  by_cases empty : (dataPipeWindow s.pipe.wPos s.pipe.fPos s.pipe.size (1 <<< s.pipe.size)).2 = 0
  · simp only [empty, if_true]
    rfl
  · simp only [empty, if_false]
    rfl

theorem popCall_pipe : (s.popCall h).pipe = (dataPipeItemPop s.pipe h.run).2 := by
  unfold popCall dataPipeItemPop dataPipeRingHandle pipeCall
  by_cases empty : (dataPipeWindow s.pipe.rPos s.pipe.wPos s.pipe.size 0).2 = 0
  · simp only [empty, if_true]
    rfl
  · simp only [empty, if_false]
    rfl

theorem freeCall_pipe : (s.freeCall h).pipe = (dataPipeItemFree s.pipe h.run).2 := by
  unfold freeCall dataPipeItemFree dataPipeRingHandle pipeCall
  by_cases empty : (dataPipeWindow s.pipe.fPos s.pipe.rPos s.pipe.size 0).2 = 0
  · simp only [empty, if_true]
    rfl
  · simp only [empty, if_false]
    rfl

variable {s}

theorem pushCall_reachable (reachable : PipeReachable s) (idle : s.producer = none) :
    PipeReachable (s.pushCall h) ∧ (s.pushCall h).producer = none ∧ (s.pushCall h).consumer = s.consumer := by
  have started := reachable.step (.pushStart s idle)
  unfold pushCall
  split
  · rename_i call made
    have busy : s.pushStart.producer = some (.push, call) := by
      simp only [pushStart, made, Option.map_some]
    exact ⟨started.step (.pushEnd s.pushStart call h busy), rfl, rfl⟩
  · rename_i made
    exact ⟨started, by simp only [pushStart, made, Option.map_none], rfl⟩

theorem popCall_reachable (reachable : PipeReachable s) (idle : s.consumer = none) :
    PipeReachable (s.popCall h) ∧ (s.popCall h).producer = s.producer ∧ (s.popCall h).consumer = none := by
  have started := reachable.step (.popStart s idle)
  unfold popCall
  split
  · rename_i call made
    have busy : s.popStart.consumer = some call := made
    exact ⟨started.step (.popEnd s.popStart call h busy), rfl, rfl⟩
  · rename_i made
    exact ⟨started, rfl, made⟩

theorem freeCall_reachable (reachable : PipeReachable s) (idle : s.producer = none) :
    PipeReachable (s.freeCall h) ∧ (s.freeCall h).producer = none ∧ (s.freeCall h).consumer = s.consumer := by
  have started := reachable.step (.freeStart s idle)
  unfold freeCall
  split
  · rename_i call made
    have busy : s.freeStart.producer = some (.free, call) := by
      simp only [freeStart, made, Option.map_some]
    exact ⟨started.step (.freeEnd s.freeStart call h busy), rfl, rfl⟩
  · rename_i made
    exact ⟨started, by simp only [freeStart, made, Option.map_none], rfl⟩

end PipeSystem

-- A callback that handles the first slot it is given, leaving `f` of its item there.
def PipeHandler.first (f : α → α) : PipeHandler α where
  run items := (UInt64.ofNat (min items.length 1), items.modifyHead f)
  handled_le items := by
    rw [UInt64.toNat_ofNat_of_lt' (Nat.lt_of_le_of_lt (Nat.min_le_right _ _) (by decide))]
    exact Nat.min_le_left _ _
  length_eq _ := List.length_modifyHead
  unhandled items := by
    cases items <;> simp

-- In a ring of two slots: one item pushed, its pop in flight, and a second push in flight.
def pushPopRun : PipeSystem Nat :=
  ((pipeSystemInit 1 (by decide) fun _ => 0).pushCall (PipeHandler.first fun _ => 7)).popStart.pushStart

theorem pushPopRun_reachable : PipeReachable pushPopRun := by
  obtain ⟨pushed, producer, consumer⟩ :=
    PipeSystem.pushCall_reachable (PipeHandler.first fun _ => 7) (.init 1 (by decide) fun _ => (0 : Nat)) rfl
  exact (pushed.step (.popStart _ consumer)).step (.pushStart _ producer)

section Reachable

variable {s : PipeSystem α}

theorem pipe_slots_disjoint (reachable : PipeReachable s) {op : ProducerCall} {producer consumer : PipeCall}
    (busy : s.producer = some (op, producer)) (busy' : s.consumer = some consumer) :
    List.Disjoint producer.slots consumer.slots :=
  (pipeInv_reachable reachable).slots_disjoint busy busy'

theorem pipe_slots_disjoint_pushPopRun :
    PipeReachable pushPopRun ∧ pushPopRun.producer = some (.push, ⟨1, 1, 1⟩) ∧ pushPopRun.consumer = some ⟨0, 0, 1⟩ ∧
      List.Disjoint (PipeCall.slots ⟨1, 1, 1⟩) (PipeCall.slots ⟨0, 0, 1⟩) :=
  ⟨pushPopRun_reachable, rfl, rfl, pipe_slots_disjoint pushPopRun_reachable rfl rfl⟩

theorem pipe_fifo (reachable : PipeReachable s) :
    s.popped <+: s.pushed ∧ s.freed <+: s.taken ∧
      (∀ call, s.consumer = some call →
        call.seen s.pipe.data = (s.pushed.drop s.popped.length).take call.available.toNat) ∧
      ∀ call, s.producer = some (.free, call) →
        call.seen s.pipe.data = (s.taken.drop s.freed.length).take call.available.toNat := by
  have inv := pipeInv_reachable reachable
  exact ⟨inv.popped_prefix, inv.freed_prefix, fun _ busy => inv.pop_seen busy, fun _ busy => inv.free_seen busy⟩

theorem pipe_fifo_pushPopRun :
    PipeReachable pushPopRun ∧ pushPopRun.consumer = some ⟨0, 0, 1⟩ ∧
      PipeCall.seen ⟨0, 0, 1⟩ pushPopRun.pipe.data = [7] :=
  ⟨pushPopRun_reachable, rfl, (pipe_fifo pushPopRun_reachable).2.2.1 _ rfl⟩

theorem pipe_call_none_iff (reachable : PipeReachable s) :
    (s.pushStart.producer = none ↔ s.pushed.length = s.freed.length + 2 ^ s.pipe.size.toNat) ∧
      (s.popStart.consumer = none ↔ s.popped.length = s.pushed.length) ∧
      (s.freeStart.producer = none ↔ s.freed.length = s.popped.length) := by
  have inv := pipeInv_reachable reachable
  have ring : s.pipe.ring = 2 ^ s.pipe.size.toNat := rfl
  have freed_le := inv.freed_le
  have popped_le := inv.popped_le
  have pushed_le := inv.pushed_le
  simp only [PipeSystem.pushStart, PipeSystem.popStart, PipeSystem.freeStart, Option.map_eq_none_iff]
  rw [inv.push_pipeCall.1, inv.pop_pipeCall.1, inv.free_pipeCall.1]
  omega

theorem pipe_call_none_iff_pushPopRun :
    PipeReachable pushPopRun ∧ ¬(pushPopRun.pushed.length = pushPopRun.freed.length + 2 ^ pushPopRun.pipe.size.toNat) ∧
      ¬(pushPopRun.popped.length = pushPopRun.pushed.length) ∧ pushPopRun.freed.length = pushPopRun.popped.length ∧
      pushPopRun.pushStart.producer ≠ none ∧ pushPopRun.popStart.consumer ≠ none ∧
      pushPopRun.freeStart.producer = none := by
  have none_iff := pipe_call_none_iff pushPopRun_reachable
  have full : ¬(pushPopRun.pushed.length = pushPopRun.freed.length + 2 ^ pushPopRun.pipe.size.toNat) := by decide
  have empty : ¬(pushPopRun.popped.length = pushPopRun.pushed.length) := by decide
  have freed : pushPopRun.freed.length = pushPopRun.popped.length := by decide
  exact ⟨pushPopRun_reachable, full, empty, freed, fun none_eq => full (none_iff.1.mp none_eq),
    fun none_eq => empty (none_iff.2.1.mp none_eq), none_iff.2.2.mpr freed⟩

-- The position invariant of the source, on the machine positions.
def DataPipe.PositionsOrdered (pipe : DataPipe α) : Prop :=
  (pipe.rPos - pipe.fPos).toNat + (pipe.wPos - pipe.rPos).toNat = (pipe.wPos - pipe.fPos).toNat ∧
    (pipe.wPos - pipe.fPos).toNat ≤ 2 ^ pipe.size.toNat

instance (pipe : DataPipe α) : Decidable pipe.PositionsOrdered :=
  inferInstanceAs (Decidable (_ ∧ _))

theorem PipeInv.positions {s : PipeSystem α} (inv : PipeInv s) :
    (s.pipe.wPos - s.pipe.rPos).toNat = s.pushed.length - s.popped.length ∧
      (s.pipe.rPos - s.pipe.fPos).toNat = s.popped.length - s.freed.length ∧
      (s.pipe.wPos - s.pipe.fPos).toNat = s.pushed.length - s.freed.length ∧ s.pipe.PositionsOrdered := by
  have freed_le := inv.freed_le
  have popped_le := inv.popped_le
  have pushed_le := inv.pushed_le
  -- a ring holds at most 2^30 items, so no distance wraps
  have small : s.pipe.ring ≤ 2 ^ 30 := Nat.pow_le_pow_right (by decide) s.pipe.size_le
  have ring : s.pipe.ring = 2 ^ s.pipe.size.toNat := rfl
  rw [DataPipe.PositionsOrdered, inv.wPos, inv.rPos, inv.fPos,
    RingIndex.toNat_ofNat_sub_ofNat popped_le (by omega), RingIndex.toNat_ofNat_sub_ofNat freed_le (by omega),
    RingIndex.toNat_ofNat_sub_ofNat (Nat.le_trans freed_le popped_le) (by omega)]
  omega

theorem pipe_positions (reachable : PipeReachable s) :
    (s.pipe.wPos - s.pipe.rPos).toNat = s.pushed.length - s.popped.length ∧
      (s.pipe.rPos - s.pipe.fPos).toNat = s.popped.length - s.freed.length ∧
      (s.pipe.wPos - s.pipe.fPos).toNat = s.pushed.length - s.freed.length ∧ s.pipe.PositionsOrdered :=
  (pipeInv_reachable reachable).positions

theorem pipe_positions_pushPopRun :
    PipeReachable pushPopRun ∧ (pushPopRun.pipe.wPos - pushPopRun.pipe.rPos).toNat = 1 ∧
      (pushPopRun.pipe.rPos - pushPopRun.pipe.fPos).toNat = 0 ∧ (pushPopRun.pipe.wPos - pushPopRun.pipe.fPos).toNat = 1 ∧
      pushPopRun.pipe.PositionsOrdered :=
  ⟨pushPopRun_reachable, pipe_positions pushPopRun_reachable⟩

end Reachable

-- A call of the code, with its callback.
inductive PipeOp (α : Type)
  | push (h : PipeHandler α)
  | pop (h : PipeHandler α)
  | free (h : PipeHandler α)

def PipeOp.apply : PipeOp α → DataPipe α → UInt64 × DataPipe α
  | .push h, pipe => dataPipeItemPush pipe h.run
  | .pop h, pipe => dataPipeItemPop pipe h.run
  | .free h, pipe => dataPipeItemFree pipe h.run

-- The code's pipe after a sequence of calls, each returning before the next starts.
def runPipe (pipe : DataPipe α) (ops : List (PipeOp α)) : DataPipe α :=
  ops.foldl (fun pipe op => (op.apply pipe).2) pipe

def PipeSystem.call (s : PipeSystem α) : PipeOp α → PipeSystem α
  | .push h => s.pushCall h
  | .pop h => s.popCall h
  | .free h => s.freeCall h

theorem PipeSystem.call_reachable {s : PipeSystem α} (reachable : PipeReachable s) (producerIdle : s.producer = none)
    (consumerIdle : s.consumer = none) (op : PipeOp α) :
    PipeReachable (s.call op) ∧ (s.call op).producer = none ∧ (s.call op).consumer = none ∧
      (s.call op).pipe = (op.apply s.pipe).2 := by
  cases op with
  | push h =>
    obtain ⟨reached, producer, consumer⟩ := s.pushCall_reachable h reachable producerIdle
    exact ⟨reached, producer, consumer.trans consumerIdle, s.pushCall_pipe h⟩
  | pop h =>
    obtain ⟨reached, producer, consumer⟩ := s.popCall_reachable h reachable consumerIdle
    exact ⟨reached, producer.trans producerIdle, consumer, s.popCall_pipe h⟩
  | free h =>
    obtain ⟨reached, producer, consumer⟩ := s.freeCall_reachable h reachable producerIdle
    exact ⟨reached, producer, consumer.trans consumerIdle, s.freeCall_pipe h⟩

-- From an idle state, the code's calls in sequence are a run of the system.
theorem PipeSystem.runPipe_run {s : PipeSystem α} (reachable : PipeReachable s) (producerIdle : s.producer = none)
    (consumerIdle : s.consumer = none) (ops : List (PipeOp α)) :
    ∃ s', PipeReachable s' ∧ s'.pipe = runPipe s.pipe ops := by
  -- induction on the calls, from the state the first one leaves
  induction ops generalizing s with
  | nil => exact ⟨s, reachable, rfl⟩
  | cons op ops ih =>
    obtain ⟨reached, producer, consumer, pipe⟩ := s.call_reachable reachable producerIdle consumerIdle op
    obtain ⟨s', reached', same⟩ := ih reached producer consumer
    refine ⟨s', reached', ?_⟩
    rw [same, pipe]
    rfl

theorem runPipe_reachable (size : UInt64) (small : size.toNat ≤ 30) (data : Nat → α) (ops : List (PipeOp α)) :
    ∃ s, PipeReachable s ∧ s.pipe = runPipe (dataPipeInit size small data) ops :=
  PipeSystem.runPipe_run (.init size small data) rfl rfl ops

theorem runPipe_reachable_pushPop :
    (1 : UInt64).toNat ≤ 30 ∧ ∃ s : PipeSystem Nat, PipeReachable s ∧
      s.pipe = runPipe (dataPipeInit 1 (by decide) fun _ => 0) [.push (.first fun _ => 7), .pop (.first id)] :=
  ⟨by decide, runPipe_reachable 1 (by decide) _ _⟩

theorem runPipe_positionsOrdered (size : UInt64) (small : size.toNat ≤ 30) (data : Nat → α)
    (ops : List (PipeOp α)) : (runPipe (dataPipeInit size small data) ops).PositionsOrdered := by
  obtain ⟨s, reachable, same⟩ : ∃ s, PipeReachable s ∧ s.pipe = runPipe (dataPipeInit size small data) ops :=
    PipeSystem.runPipe_run (.init size small data) rfl rfl ops
  rw [← same]
  exact (pipeInv_reachable reachable).positions.2.2.2

theorem runPipe_positionsOrdered_pushPopFree :
    (1 : UInt64).toNat ≤ 30 ∧ (runPipe (dataPipeInit 1 (by decide) fun _ => (0 : Nat))
      [.push (.first fun _ => 7), .pop (.first id), .free (.first id)]).PositionsOrdered :=
  ⟨by decide, runPipe_positionsOrdered 1 (by decide) _ _⟩

end Yanet
