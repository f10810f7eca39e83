import Yanet.Common.DataPipe

set_option autoImplicit false

-- The data pipe as the two workers run it. A call of `data_pipe_ring_handle` loads the positions and
-- fixes its window, runs the callback on the window and stores its own position; between the loads
-- and the store the other side may run any number of its own steps. So a call is two steps here,
-- and the producer (push and free, one at a time) and the consumer (pop) interleave freely.
--
-- Ghost histories record what the calls did: the items each push committed, the items each pop
-- handled as it found them and as it left them, and the items each free handled. Logical positions
-- are their lengths, and the machine positions are those mod 2^64.

namespace Yanet

variable {α : Type}

-- A call between its loads and its store: the position it loaded for its own side, and its window.
structure PipeCall where
  fromPos : UInt64
  start : UInt64
  available : UInt64
deriving DecidableEq, Repr

def PipeCall.window (call : PipeCall) : UInt64 × UInt64 := (call.start, call.available)

def PipeCall.seen (call : PipeCall) (data : Nat → α) : List α :=
  readSlots data call.start.toNat call.available.toNat

-- The loads of data_pipe_ring_handle; an empty window returns 0 at once, with no callback.
def pipeCall (fromPos toPos size space : UInt64) : Option PipeCall :=
  let window := dataPipeWindow fromPos toPos size space
  if window.2 = 0 then none else some ⟨fromPos, window.1, window.2⟩

-- A data_pipe_handle_func that keeps its contract: it handles at most the slots it is given and
-- leaves the ones it did not handle as they were.
structure PipeHandler (α : Type) where
  run : List α → UInt64 × List α
  handled_le : ∀ items, (run items).1.toNat ≤ items.length
  length_eq : ∀ items, (run items).2.length = items.length
  unhandled : ∀ items, (run items).2.drop (run items).1.toNat = items.drop (run items).1.toNat

inductive ProducerCall
  | push
  | free
deriving DecidableEq, Repr

structure PipeSystem (α : Type) where
  pipe : DataPipe α
  producer : Option (ProducerCall × PipeCall)
  consumer : Option PipeCall
  pushed : List α
  popped : List α
  taken : List α
  freed : List α

def pipeSystemInit (size : UInt64) (small : size.toNat ≤ 30) (data : Nat → α) : PipeSystem α :=
  ⟨dataPipeInit size small data, none, none, [], [], [], []⟩

namespace PipeSystem

-- data_pipe_item_push, data_pipe_item_free and data_pipe_item_pop up to their callbacks.
def pushStart (s : PipeSystem α) : PipeSystem α :=
  { s with producer := (pipeCall s.pipe.wPos s.pipe.fPos s.pipe.size (1 <<< s.pipe.size)).map fun call => (.push, call) }

def freeStart (s : PipeSystem α) : PipeSystem α :=
  { s with producer := (pipeCall s.pipe.fPos s.pipe.rPos s.pipe.size 0).map fun call => (.free, call) }

def popStart (s : PipeSystem α) : PipeSystem α :=
  { s with consumer := pipeCall s.pipe.rPos s.pipe.wPos s.pipe.size 0 }

-- The rest of each call, once its callback returned `result` (handled count, slots as it left
-- them): the slots written back, the side's position stored, and the ghost record of what it handled.
def pushEnd (s : PipeSystem α) (call : PipeCall) (result : UInt64 × List α) : PipeSystem α :=
  { s with
    pipe := { s.pipe with data := writeSlots s.pipe.data call.start.toNat result.2, wPos := call.fromPos + result.1 }
    producer := none
    pushed := s.pushed ++ result.2.take result.1.toNat }

def freeEnd (s : PipeSystem α) (call : PipeCall) (result : UInt64 × List α) : PipeSystem α :=
  { s with
    pipe := { s.pipe with data := writeSlots s.pipe.data call.start.toNat result.2, fPos := call.fromPos + result.1 }
    producer := none
    freed := s.freed ++ (call.seen s.pipe.data).take result.1.toNat }

def popEnd (s : PipeSystem α) (call : PipeCall) (result : UInt64 × List α) : PipeSystem α :=
  { s with
    pipe := { s.pipe with data := writeSlots s.pipe.data call.start.toNat result.2, rPos := call.fromPos + result.1 }
    consumer := none
    popped := s.popped ++ (call.seen s.pipe.data).take result.1.toNat
    taken := s.taken ++ result.2.take result.1.toNat }

-- Everything pushed, with the consumer's changes on what it popped: the item at each position.
def history (s : PipeSystem α) : List α := s.taken ++ s.pushed.drop s.popped.length

end PipeSystem

-- The interleavings: the producer starts a push or a free when idle and ends it later, the
-- consumer likewise with its pops.
inductive PipeStep : PipeSystem α → PipeSystem α → Prop
  | pushStart (s : PipeSystem α) (idle : s.producer = none) : PipeStep s s.pushStart
  | freeStart (s : PipeSystem α) (idle : s.producer = none) : PipeStep s s.freeStart
  | popStart (s : PipeSystem α) (idle : s.consumer = none) : PipeStep s s.popStart
  | pushEnd (s : PipeSystem α) (call : PipeCall) (h : PipeHandler α) (busy : s.producer = some (.push, call)) :
      PipeStep s (s.pushEnd call (h.run (call.seen s.pipe.data)))
  | freeEnd (s : PipeSystem α) (call : PipeCall) (h : PipeHandler α) (busy : s.producer = some (.free, call)) :
      PipeStep s (s.freeEnd call (h.run (call.seen s.pipe.data)))
  | popEnd (s : PipeSystem α) (call : PipeCall) (h : PipeHandler α) (busy : s.consumer = some call) :
      PipeStep s (s.popEnd call (h.run (call.seen s.pipe.data)))

inductive PipeReachable : PipeSystem α → Prop
  | init (size : UInt64) (small : size.toNat ≤ 30) (data : Nat → α) : PipeReachable (pipeSystemInit size small data)
  | step {s s' : PipeSystem α} : PipeReachable s → PipeStep s s' → PipeReachable s'

def DataPipe.ring (pipe : DataPipe α) : Nat := 2 ^ pipe.size.toNat

-- A call as the invariant knows it: loaded at position `pos`, its window starts at that position's
-- slot, takes at most `room` slots and stops at the ring's end.
structure PipeCall.Fits (call : PipeCall) (ring pos room : Nat) : Prop where
  fromPos : call.fromPos = UInt64.ofNat pos
  start : call.start.toNat = pos % ring
  available_le : call.available.toNat ≤ room
  within : pos % ring + call.available.toNat ≤ ring

namespace PipeSystem

-- A push works on the free slots after the pushed ones, a free on the popped slots not yet freed.
def ProducerFits (s : PipeSystem α) : ProducerCall → PipeCall → Prop
  | .push, call => call.Fits s.pipe.ring s.pushed.length (s.freed.length + s.pipe.ring - s.pushed.length)
  | .free, call => call.Fits s.pipe.ring s.freed.length (s.popped.length - s.freed.length)

end PipeSystem

-- The invariant of every reachable state: positions in the order free, pop, push within one
-- revolution, the machine positions their values mod 2^64, the histories prefixes of each other,
-- every slot between the free and the push position holding its item, and each call's window where
-- its side may work.
structure PipeInv (s : PipeSystem α) : Prop where
  taken_length : s.taken.length = s.popped.length
  freed_le : s.freed.length ≤ s.popped.length
  popped_le : s.popped.length ≤ s.pushed.length
  pushed_le : s.pushed.length ≤ s.freed.length + s.pipe.ring
  popped_prefix : s.popped <+: s.pushed
  freed_prefix : s.freed <+: s.taken
  wPos : s.pipe.wPos = UInt64.ofNat s.pushed.length
  rPos : s.pipe.rPos = UInt64.ofNat s.popped.length
  fPos : s.pipe.fPos = UInt64.ofNat s.freed.length
  slots : ∀ p, s.freed.length ≤ p → p < s.pushed.length → s.history[p]? = some (s.pipe.data (p % s.pipe.ring))
  producer : ∀ op call, s.producer = some (op, call) → s.ProducerFits op call
  consumer : ∀ call, s.consumer = some call →
    call.Fits s.pipe.ring s.popped.length (s.pushed.length - s.popped.length)

theorem pipeInv_init (size : UInt64) (small : size.toNat ≤ 30) (data : Nat → α) :
    PipeInv (pipeSystemInit size small data) := by
  refine ⟨rfl, le_rfl, le_rfl, Nat.zero_le _, List.nil_prefix, List.nil_prefix, rfl, rfl, rfl, ?_, ?_, ?_⟩
  · intro p _ beyond
    cases beyond
  · intro op call busy
    cases busy
  · intro call busy
    cases busy

theorem pipeCall_spec {size : UInt64} (small : size.toNat ≤ 30) {a b space total : Nat}
    (total_eq : b + space = a + total) (fits : total ≤ 2 ^ size.toNat) :
    (pipeCall (UInt64.ofNat a) (UInt64.ofNat b) size (UInt64.ofNat space) = none ↔ total = 0) ∧
      ∀ call, pipeCall (UInt64.ofNat a) (UInt64.ofNat b) size (UInt64.ofNat space) = some call →
        call.Fits (2 ^ size.toNat) a total := by
  obtain ⟨start, available⟩ := dataPipeWindow_spec small total_eq fits
  have slot : a % 2 ^ size.toNat < 2 ^ size.toNat := Nat.mod_lt _ (Nat.two_pow_pos _)
  unfold pipeCall
  dsimp only
  split
  · rename_i empty
    rw [empty, UInt64.toNat_zero] at available
    exact ⟨iff_of_true rfl (by omega), fun call none_eq => by cases none_eq⟩
  · rename_i nonempty
    have positive : 0 < (dataPipeWindow (UInt64.ofNat a) (UInt64.ofNat b) size (UInt64.ofNat space)).2.toNat := by
      rw [Nat.pos_iff_ne_zero]
      exact fun zero => nonempty (UInt64.toNat_inj.mp (by rw [zero, UInt64.toNat_zero]))
    refine ⟨iff_of_false (fun none_eq => by cases none_eq) (by omega), ?_⟩
    rintro call ⟨⟩
    exact ⟨rfl, start, by dsimp only; omega, by dsimp only; omega⟩

theorem one_shiftLeft_eq_ring (pipe : DataPipe α) : (1 : UInt64) <<< pipe.size = UInt64.ofNat pipe.ring := by
  apply UInt64.toNat_inj.mp
  rw [RingIndex.toNat_one_shiftLeft (by have := pipe.size_le; omega), UInt64.toNat_ofNat', DataPipe.ring,
    Nat.mod_eq_of_lt (Nat.pow_lt_pow_right (by decide) (by have := pipe.size_le; omega))]

theorem PipeCall.Fits.mono {call : PipeCall} {ring pos room room' : Nat} (fits : call.Fits ring pos room)
    (le : room ≤ room') : call.Fits ring pos room' :=
  { fits with available_le := Nat.le_trans fits.available_le le }

theorem ofNat_add_toNat (a : Nat) (b : UInt64) : UInt64.ofNat a + b = UInt64.ofNat (a + b.toNat) := by
  rw [UInt64.ofNat_add, UInt64.ofNat_toNat]

theorem getElem?_eq_of_drop_eq {l l' : List α} {n i : Nat} (same : l.drop n = l'.drop n) (le : n ≤ i) :
    l[i]? = l'[i]? := by
  obtain ⟨k, rfl⟩ := Nat.exists_eq_add_of_le le
  rw [← List.getElem?_drop, same, List.getElem?_drop]

namespace PipeSystem

variable (s : PipeSystem α)

theorem length_history (inv : s.taken.length = s.popped.length) (le : s.popped.length ≤ s.pushed.length) :
    s.history.length = s.pushed.length := by
  rw [history, List.length_append, List.length_drop]
  omega

theorem history_drop (inv : s.taken.length = s.popped.length) : s.history.drop s.popped.length = s.pushed.drop s.popped.length := by
  rw [history, ← inv, List.drop_left]

-- A pop moves its handled items from `pushed` to `taken` as the callback left them: the history
-- changes at their positions only.
theorem popEnd_history (inv : s.taken.length = s.popped.length) {call : PipeCall} {result : UInt64 × List α}
    (handled : result.1.toNat ≤ call.available.toNat) (length : result.2.length = call.available.toNat) (p : Nat) :
    (s.popEnd call result).history[p]? =
      if s.popped.length ≤ p ∧ p < s.popped.length + result.1.toNat then result.2[p - s.popped.length]?
      else s.history[p]? := by
  have seenLength : (call.seen s.pipe.data).length = call.available.toNat := length_readSlots _ _ _
  have takeLength : (result.2.take result.1.toNat).length = result.1.toNat := by
    rw [List.length_take]
    omega
  simp only [history, popEnd, List.append_assoc, List.length_append, List.length_take, seenLength,
    Nat.min_eq_left handled, ← inv]
  by_cases before : p < s.taken.length
  · rw [if_neg (by omega), List.getElem?_append_left before, List.getElem?_append_left before]
  by_cases inside : p < s.taken.length + result.1.toNat
  · rw [if_pos ⟨by omega, inside⟩, List.getElem?_append_right (by omega), List.getElem?_append_left (by omega),
      List.getElem?_take_of_lt (by omega)]
  · rw [if_neg (by omega), List.getElem?_append_right (by omega), List.getElem?_append_right (by omega),
      List.getElem?_append_right (by omega), List.getElem?_drop, List.getElem?_drop, takeLength]
    congr 1
    omega

end PipeSystem

namespace PipeInv

variable {s : PipeSystem α}

theorem seen_eq (inv : PipeInv s) {call : PipeCall} {pos room : Nat} (fits : call.Fits s.pipe.ring pos room)
    (lo : s.freed.length ≤ pos) (hi : pos + call.available.toNat ≤ s.pushed.length) :
    call.seen s.pipe.data = (s.history.drop pos).take call.available.toNat := by
  apply List.ext_getElem?
  intro k
  rw [PipeCall.seen, getElem?_readSlots, List.getElem?_take, List.getElem?_drop]
  split
  · rw [inv.slots (pos + k) (by omega) (by omega), fits.start, RingIndex.mod_add_of_lt (by have := fits.within; omega)]
  · rfl

theorem push_pipeCall (inv : PipeInv s) :
    (pipeCall s.pipe.wPos s.pipe.fPos s.pipe.size (1 <<< s.pipe.size) = none ↔
        s.freed.length + s.pipe.ring - s.pushed.length = 0) ∧
      ∀ call, pipeCall s.pipe.wPos s.pipe.fPos s.pipe.size (1 <<< s.pipe.size) = some call →
        call.Fits s.pipe.ring s.pushed.length (s.freed.length + s.pipe.ring - s.pushed.length) := by
  have ring : s.pipe.ring = 2 ^ s.pipe.size.toNat := rfl
  rw [inv.wPos, inv.fPos, one_shiftLeft_eq_ring]
  exact pipeCall_spec s.pipe.size_le (by have := inv.pushed_le; omega)
    (by have := inv.freed_le; have := inv.popped_le; omega)

theorem free_pipeCall (inv : PipeInv s) :
    (pipeCall s.pipe.fPos s.pipe.rPos s.pipe.size 0 = none ↔ s.popped.length - s.freed.length = 0) ∧
      ∀ call, pipeCall s.pipe.fPos s.pipe.rPos s.pipe.size 0 = some call →
        call.Fits s.pipe.ring s.freed.length (s.popped.length - s.freed.length) := by
  have ring : s.pipe.ring = 2 ^ s.pipe.size.toNat := rfl
  rw [inv.fPos, inv.rPos]
  exact @pipeCall_spec s.pipe.size s.pipe.size_le s.freed.length s.popped.length 0 _ (by have := inv.freed_le; omega)
    (by have := inv.popped_le; have := inv.pushed_le; omega)

theorem pop_pipeCall (inv : PipeInv s) :
    (pipeCall s.pipe.rPos s.pipe.wPos s.pipe.size 0 = none ↔ s.pushed.length - s.popped.length = 0) ∧
      ∀ call, pipeCall s.pipe.rPos s.pipe.wPos s.pipe.size 0 = some call →
        call.Fits s.pipe.ring s.popped.length (s.pushed.length - s.popped.length) := by
  have ring : s.pipe.ring = 2 ^ s.pipe.size.toNat := rfl
  rw [inv.rPos, inv.wPos]
  exact @pipeCall_spec s.pipe.size s.pipe.size_le s.popped.length s.pushed.length 0 _ (by have := inv.popped_le; omega)
    (by have := inv.freed_le; have := inv.pushed_le; omega)

theorem pushStart (inv : PipeInv s) : PipeInv s.pushStart := by
  refine { inv with producer := ?_ }
  intro op call busy
  simp only [PipeSystem.pushStart, Option.map_eq_some_iff] at busy
  obtain ⟨call', made, same⟩ := busy
  cases same
  exact inv.push_pipeCall.2 call made

theorem freeStart (inv : PipeInv s) : PipeInv s.freeStart := by
  refine { inv with producer := ?_ }
  intro op call busy
  simp only [PipeSystem.freeStart, Option.map_eq_some_iff] at busy
  obtain ⟨call', made, same⟩ := busy
  cases same
  exact inv.free_pipeCall.2 call made

theorem popStart (inv : PipeInv s) : PipeInv s.popStart :=
  { inv with consumer := inv.pop_pipeCall.2 }

theorem unhandled_slot (inv : PipeInv s) {call : PipeCall} {pos room : Nat} (fits : call.Fits s.pipe.ring pos room)
    (lo : s.freed.length ≤ pos) (hi : pos + call.available.toNat ≤ s.pushed.length) {result : UInt64 × List α}
    (unhandled : result.2.drop result.1.toNat = (call.seen s.pipe.data).drop result.1.toNat) {p : Nat}
    (skipped : pos + result.1.toNat ≤ p) (inside : p < pos + call.available.toNat) :
    result.2[p - pos]? = s.history[p]? := by
  rw [getElem?_eq_of_drop_eq unhandled (by omega), inv.seen_eq fits lo hi, List.getElem?_take_of_lt (by omega),
    List.getElem?_drop, Nat.add_sub_cancel' (by omega)]

theorem pushEnd (inv : PipeInv s) {call : PipeCall} (busy : s.producer = some (.push, call)) {result : UInt64 × List α}
    (handled : result.1.toNat ≤ call.available.toNat) (length : result.2.length = call.available.toNat) :
    PipeInv (s.pushEnd call result) := by
  have fits : call.Fits s.pipe.ring s.pushed.length (s.freed.length + s.pipe.ring - s.pushed.length) :=
    inv.producer _ _ busy
  have within := fits.within
  have room := fits.available_le
  have history := s.length_history inv.taken_length inv.popped_le
  have pushed_le := inv.pushed_le
  have pushed_le' : s.freed.length ≤ s.pushed.length := Nat.le_trans inv.freed_le inv.popped_le
  have extended : (s.pushEnd call result).history = s.history ++ result.2.take result.1.toNat := by
    simp only [PipeSystem.history, PipeSystem.pushEnd]
    rw [List.drop_append_of_le_length inv.popped_le, List.append_assoc]
  refine ⟨inv.taken_length, inv.freed_le, ?_, ?_, inv.popped_prefix.trans (List.prefix_append _ _), inv.freed_prefix,
    ?_, inv.rPos, inv.fPos, ?_, ?_, ?_⟩
  · simp only [PipeSystem.pushEnd, List.length_append, List.length_take]
    exact Nat.le_trans inv.popped_le (Nat.le_add_right _ _)
  · simp only [PipeSystem.pushEnd, List.length_append, List.length_take]
    show _ ≤ s.freed.length + s.pipe.ring
    omega
  · simp only [PipeSystem.pushEnd, List.length_append, List.length_take]
    rw [fits.fromPos, ofNat_add_toNat]
    congr 2
    omega
  · intro p lo hi
    simp only [PipeSystem.pushEnd, List.length_append, List.length_take] at lo hi
    rw [extended]
    show _ = some (writeSlots s.pipe.data call.start.toNat result.2 (p % s.pipe.ring))
    rw [fits.start, @writeSlots_run α s.pipe.data s.pipe.ring s.freed.length s.pushed.length p result.2 (by omega)
      pushed_le' (by omega) lo (by omega)]
    by_cases old : p < s.pushed.length
    · rw [List.getElem?_append_left (by omega), inv.slots p lo old, if_neg (by omega)]
    · rw [List.getElem?_append_right (by omega), history, List.getElem?_take_of_lt (by omega), if_pos (by omega)]
  · intro op call' none_eq
    cases none_eq
  · intro call' busy'
    exact (inv.consumer call' busy').mono (by simp only [PipeSystem.pushEnd, List.length_append]; omega)

theorem freeEnd (inv : PipeInv s) {call : PipeCall} (busy : s.producer = some (.free, call)) {result : UInt64 × List α}
    (handled : result.1.toNat ≤ call.available.toNat) (length : result.2.length = call.available.toNat)
    (unhandled : result.2.drop result.1.toNat = (call.seen s.pipe.data).drop result.1.toNat) :
    PipeInv (s.freeEnd call result) := by
  have fits : call.Fits s.pipe.ring s.freed.length (s.popped.length - s.freed.length) := inv.producer _ _ busy
  have within := fits.within
  have room := fits.available_le
  have freed_le := inv.freed_le
  have popped_le := inv.popped_le
  have pushed_le := inv.pushed_le
  have seenLength : (call.seen s.pipe.data).length = call.available.toNat := length_readSlots _ _ _
  refine ⟨inv.taken_length, ?_, inv.popped_le, ?_, inv.popped_prefix, ?_, inv.wPos, inv.rPos, ?_, ?_, ?_, inv.consumer⟩
  · simp only [PipeSystem.freeEnd, List.length_append, List.length_take, seenLength]
    omega
  · simp only [PipeSystem.freeEnd, List.length_append, List.length_take, seenLength]
    show _ ≤ _ + s.pipe.ring
    omega
  · -- the window starts at the first taken item not freed
    obtain ⟨rest, taken_eq⟩ := inv.freed_prefix
    have rest_length : rest.length = s.popped.length - s.freed.length := by
      have := congrArg List.length taken_eq
      rw [List.length_append, inv.taken_length] at this
      omega
    simp only [PipeSystem.freeEnd]
    rw [inv.seen_eq fits le_rfl (by omega), List.take_take, PipeSystem.history, ← taken_eq, List.append_assoc,
      List.drop_left, List.take_append_of_le_length (by omega)]
    exact (List.prefix_append_right_inj _).mpr (List.take_prefix _ _)
  · simp only [PipeSystem.freeEnd, List.length_append, List.length_take, seenLength]
    rw [fits.fromPos, ofNat_add_toNat]
    congr 2
    omega
  · intro p lo hi
    simp only [PipeSystem.freeEnd, List.length_append, List.length_take, seenLength] at lo hi
    show s.history[p]? = some (writeSlots s.pipe.data call.start.toNat result.2 (p % s.pipe.ring))
    rw [fits.start, @writeSlots_run α s.pipe.data s.pipe.ring s.freed.length s.freed.length p result.2 (by omega)
      le_rfl (by omega) (by omega) (by omega)]
    split
    · rw [inv.unhandled_slot fits le_rfl (by omega) unhandled (by omega) (by omega)]
    · exact inv.slots p (by omega) hi
  · intro op call' none_eq
    cases none_eq

-- The end of a pop: the popped items are the next pushed ones, and they are taken as the callback
-- left them.
theorem popEnd (inv : PipeInv s) {call : PipeCall} (busy : s.consumer = some call) {result : UInt64 × List α}
    (handled : result.1.toNat ≤ call.available.toNat) (length : result.2.length = call.available.toNat)
    (unhandled : result.2.drop result.1.toNat = (call.seen s.pipe.data).drop result.1.toNat) :
    PipeInv (s.popEnd call result) := by
  have fits : call.Fits s.pipe.ring s.popped.length (s.pushed.length - s.popped.length) := inv.consumer _ busy
  have within := fits.within
  have room := fits.available_le
  have freed_le := inv.freed_le
  have popped_le := inv.popped_le
  have pushed_le := inv.pushed_le
  have taken_length := inv.taken_length
  have seenLength : (call.seen s.pipe.data).length = call.available.toNat := length_readSlots _ _ _
  refine ⟨?_, ?_, ?_, inv.pushed_le, ?_, inv.freed_prefix.trans (List.prefix_append _ _), inv.wPos, ?_, inv.fPos, ?_,
    ?_, ?_⟩
  · simp only [PipeSystem.popEnd, List.length_append, List.length_take, seenLength]
    omega
  · simp only [PipeSystem.popEnd, List.length_append, List.length_take, seenLength]
    omega
  · simp only [PipeSystem.popEnd, List.length_append, List.length_take, seenLength]
    omega
  · -- the window starts at the first pushed item not popped
    obtain ⟨rest, pushed_eq⟩ := inv.popped_prefix
    simp only [PipeSystem.popEnd]
    rw [inv.seen_eq fits freed_le (by omega), List.take_take, s.history_drop taken_length, ← pushed_eq,
      List.drop_left]
    exact (List.prefix_append_right_inj _).mpr (List.take_prefix _ _)
  · simp only [PipeSystem.popEnd, List.length_append, List.length_take, seenLength]
    rw [fits.fromPos, ofNat_add_toNat]
    congr 2
    omega
  · intro p lo hi
    simp only [PipeSystem.popEnd] at lo hi
    rw [s.popEnd_history taken_length handled length]
    show _ = some (writeSlots s.pipe.data call.start.toNat result.2 (p % s.pipe.ring))
    rw [fits.start, @writeSlots_run α s.pipe.data s.pipe.ring s.freed.length s.popped.length p result.2 (by omega)
      freed_le (by omega) lo (by omega)]
    split_ifs with taken window window
    · rfl
    · omega
    · rw [inv.unhandled_slot fits freed_le (by omega) unhandled (by omega) (by omega)]
    · exact inv.slots p lo hi
  · -- a free in flight may now reach the items this pop added
    intro op call' busy'
    cases op
    · exact inv.producer .push call' busy'
    · exact (inv.producer .free call' busy').mono (by simp only [PipeSystem.popEnd, List.length_append]; omega)
  · intro call' none_eq
    cases none_eq

theorem handler_result (h : PipeHandler α) (call : PipeCall) (data : Nat → α) :
    (h.run (call.seen data)).1.toNat ≤ call.available.toNat ∧
      (h.run (call.seen data)).2.length = call.available.toNat := by
  have seenLength : (call.seen data).length = call.available.toNat := length_readSlots _ _ _
  exact ⟨seenLength ▸ h.handled_le _, seenLength ▸ h.length_eq _⟩

theorem step (inv : PipeInv s) {s' : PipeSystem α} (next : PipeStep s s') : PipeInv s' := by
  cases next with
  | pushStart _ => exact inv.pushStart
  | freeStart _ => exact inv.freeStart
  | popStart _ => exact inv.popStart
  | pushEnd call h busy =>
    obtain ⟨handled, length⟩ := handler_result h call s.pipe.data
    exact inv.pushEnd busy handled length
  | freeEnd call h busy =>
    obtain ⟨handled, length⟩ := handler_result h call s.pipe.data
    exact inv.freeEnd busy handled length (h.unhandled _)
  | popEnd call h busy =>
    obtain ⟨handled, length⟩ := handler_result h call s.pipe.data
    exact inv.popEnd busy handled length (h.unhandled _)

end PipeInv

theorem pipeInv_reachable {s : PipeSystem α} (reachable : PipeReachable s) : PipeInv s := by
  induction reachable with
  | init size small data => exact pipeInv_init size small data
  | step _ next inv => exact inv.step next

end Yanet
