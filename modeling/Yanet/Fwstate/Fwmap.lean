import Mathlib.Logic.Function.Basic

set_option autoImplicit false

-- fwmap (lib/fwstate/fwmap.h): a hash table of 64-byte buckets with four slots
-- each. A bucket's chain goes on through extra buckets linked from a shared pool;
-- the chain of bucket `b` is modelled as the list of its slots, four per bucket,
-- in the order fwmap_entry and fwmap_get_value_and_deadline visit them, and
-- linking an extra bucket appends four empty slots. Keys and values live in
-- stores indexed by a slot's `idx`. The registry functions a map is created with
-- are passed as `FwmapFuncs`.

namespace Yanet

def FWMAP_BUCKET_ENTRIES : Nat := 4
def FWMAP_CHUNK_MAX_SIZE : UInt32 := 0x4000000
def FWMAP_CHUNK_INDEX_MAX_SIZE : UInt32 := FWMAP_CHUNK_MAX_SIZE / 64

structure FwmapSlot where
  sig : UInt16
  deadline : UInt64
  idx : UInt32
deriving DecidableEq, Repr

def FwmapSlot.empty : FwmapSlot := ⟨0, 0, 0⟩

-- The slots of a zeroed bucket.
def fwmapEmptyBucket : List FwmapSlot := List.replicate FWMAP_BUCKET_ENTRIES FwmapSlot.empty

structure FwmapCounter where
  maxChain : Nat
  totalElements : Nat
  maxDeadline : UInt64

def FwmapCounter.zero : FwmapCounter := ⟨0, 0, 0⟩

-- The hash, key comparison and value update a map is created with; copy_key is always a plain copy.
structure FwmapFuncs (K V : Type) where
  hash : K → UInt32 → UInt64
  keyEqual : K → K → Bool
  -- update_value(dst, src, dst_empty) and promote_value(dst, value, old_value), as the new contents of dst
  updateValue : V → V → Bool → V
  promoteValue : V → V → V → V

structure Fwmap (K V : Type) where
  chains : Nat → List FwmapSlot
  keyStore : Nat → K
  valueStore : Nat → V
  indexSize : Nat
  indexMask : UInt32
  extraSize : Nat
  extraFreeIdx : Nat
  keyCursor : Nat
  hashSeed : UInt32
  workerCount : Nat
  counters : Nat → FwmapCounter

structure FwmapConfig where
  keySize : UInt16
  valueSize : UInt16
  hashSeed : UInt32
  workerCount : UInt16
  indexSize : UInt32
  extraBucketCount : UInt32

-- align_up_pow2 (common/numutils.h).
def alignUpPow2 (x : UInt64) : UInt64 :=
  let x := x - 1
  let x := x ||| (x >>> 1)
  let x := x ||| (x >>> 2)
  let x := x ||| (x >>> 4)
  let x := x ||| (x >>> 8)
  let x := x ||| (x >>> 16)
  let x := x ||| (x >>> 32)
  x + 1

-- Whether `count` items of `itemSize` bytes fit the chunk layout fwmap_new checks.
def fwmapChunksFit (indexSize : UInt32) (itemSize : UInt16) : Bool :=
  let perChunk := FWMAP_CHUNK_MAX_SIZE / itemSize.toUInt32
  let chunks := (indexSize + perChunk - 1) / perChunk
  !(perChunk * chunks < indexSize)

variable {K V : Type}

-- fwmap_new with `rand` the value rand_fn() returns; allocation failures are not modelled, and the
-- stores start out as the zeroed key and value.
def fwmapNew (config : FwmapConfig) (rand : UInt64) (zeroKey : K) (zeroValue : V) : Option (Fwmap K V) :=
  let indexSize := (alignUpPow2 (max config.indexSize 16).toUInt64).toUInt32
  if indexSize = 0 then none
  else if 0xFFFFFFFF / 2 < indexSize then none
  else if config.extraBucketCount ≠ 0 ∧ FWMAP_CHUNK_INDEX_MAX_SIZE < config.extraBucketCount then none
  else if !(fwmapChunksFit indexSize config.keySize && fwmapChunksFit indexSize config.valueSize) then none
  else
    let extraSize :=
      if config.extraBucketCount = 0 then 0 else (alignUpPow2 config.extraBucketCount.toUInt64).toUInt32
    some {
      chains := fun _ => fwmapEmptyBucket
      keyStore := fun _ => zeroKey
      valueStore := fun _ => zeroValue
      indexSize := indexSize.toNat
      indexMask := indexSize / 4 - 1
      extraSize := extraSize.toNat
      extraFreeIdx := 1
      keyCursor := 0
      hashSeed := if config.hashSeed ≠ 0 then config.hashSeed else rand.toUInt32
      workerCount := config.workerCount.toNat
      counters := fun _ => FwmapCounter.zero }

-- fwmap_hash_fnv1a: four bytes at a time, then the remaining zero to three bytes last to first.
def fwmapHashFnv1a (key : List UInt8) (seed : UInt32) : UInt64 :=
  let step (hash : UInt64) (byte : UInt8) : UInt64 := (hash ^^^ byte.toUInt64) * 1099511628211
  let body := key.length / 4 * 4
  ((key.drop body).reverse).foldl step ((key.take body).foldl step (14695981039346656037 ^^^ seed.toUInt64))

namespace Fwmap

def hash32 (funcs : FwmapFuncs K V) (m : Fwmap K V) (key : K) : UInt32 := (funcs.hash key m.hashSeed).toUInt32

-- `sig = hash >> 16`, with 0 reserved for empty slots.
def sigOf (hash : UInt32) : UInt16 :=
  let sig := (hash >>> 16).toUInt16
  if sig = 0 then 1 else sig

-- The bucket `hash & index_mask`, which the code splits into a chunk and a bucket within it.
def bucketOf (funcs : FwmapFuncs K V) (m : Fwmap K V) (key : K) : Nat := (m.hash32 funcs key &&& m.indexMask).toNat

def keySig (funcs : FwmapFuncs K V) (m : Fwmap K V) (key : K) : UInt16 := sigOf (m.hash32 funcs key)

end Fwmap

-- The chain walk of fwmap_get_value_and_deadline.
def getScan (funcs : FwmapFuncs K V) (m : Fwmap K V) (now : UInt64) (key : K) (sig : UInt16) :
    List FwmapSlot → Option (Nat × UInt64)
  | [] => none
  | slot :: rest =>
    if slot.sig = sig ∧ now < slot.deadline then
      if funcs.keyEqual key (m.keyStore slot.idx.toNat) then some (slot.idx.toNat, slot.deadline)
      else getScan funcs m now key sig rest
    -- no entries should exist after an empty slot
    else if slot.sig = 0 then none
    else getScan funcs m now key sig rest

-- fwmap_get_value_and_deadline: the key's index and deadline when it is live at `now`.
def fwmapGetValueAndDeadline (funcs : FwmapFuncs K V) (m : Fwmap K V) (now : UInt64) (key : K) :
    Option (Nat × UInt64) :=
  getScan funcs m now key (m.keySig funcs key) (m.chains (m.bucketOf funcs key))

def fwmapGet (funcs : FwmapFuncs K V) (m : Fwmap K V) (now : UInt64) (key : K) : Option Nat :=
  (fwmapGetValueAndDeadline funcs m now key).map Prod.fst

inductive EntryScan where
  | found (pos visited : Nat)
  | vacant (candidate : Option Nat) (visited : Nat)

-- The chain walk of fwmap_entry: the key's slot, or else the first slot expired before `now` or,
-- failing that, the first never-used slot. `visited` counts the buckets walked.
def entryScan (funcs : FwmapFuncs K V) (m : Fwmap K V) (now : UInt64) (key : K) (sig : UInt16) :
    List FwmapSlot → Nat → Option Nat → EntryScan
  | [], pos, candidate => .vacant candidate (pos / FWMAP_BUCKET_ENTRIES)
  | slot :: rest, pos, candidate =>
    let candidate := if slot.deadline < now ∧ candidate = none then some pos else candidate
    if slot.sig = sig ∧ funcs.keyEqual key (m.keyStore slot.idx.toNat) then
      .found pos (pos / FWMAP_BUCKET_ENTRIES + 1)
    else if slot.deadline = 0 then
      .vacant (if candidate = none then some pos else candidate) (pos / FWMAP_BUCKET_ENTRIES + 1)
    else entryScan funcs m now key sig rest (pos + 1) candidate

def fwmapUpdateCounters (m : Fwmap K V) (worker chainLength increment : Nat) (deadline : UInt64) : Fwmap K V :=
  let counter := m.counters worker
  let counter : FwmapCounter :=
    { totalElements := counter.totalElements + increment
      maxChain := max counter.maxChain chainLength
      maxDeadline := max counter.maxDeadline deadline }
  { m with counters := Function.update m.counters worker counter }

def fwmapNextFreeKey (m : Fwmap K V) : Option (Fwmap K V × Nat) :=
  if m.indexSize ≤ m.keyCursor then none else some ({ m with keyCursor := m.keyCursor + 1 }, m.keyCursor)

def Fwmap.setChain (m : Fwmap K V) (b : Nat) (chain : List FwmapSlot) : Fwmap K V :=
  { m with chains := Function.update m.chains b chain }

def Fwmap.setKey (m : Fwmap K V) (idx : Nat) (key : K) : Fwmap K V :=
  { m with keyStore := Function.update m.keyStore idx key }

def Fwmap.setValue (m : Fwmap K V) (idx : Nat) (value : V) : Fwmap K V :=
  { m with valueStore := Function.update m.valueStore idx value }

-- An index into the key and value stores, and whether the slot held no live entry.
structure FwmapEntry where
  idx : Nat
  empty : Bool

-- Links an extra bucket when the walk found no vacant slot; the slot to use and the chain length.
def fwmapVacancy (m : Fwmap K V) (b : Nat) : Option Nat → Nat → Option (Fwmap K V × Nat × Nat)
  | some pos, visited => some (m, pos, visited)
  | none, visited =>
    if m.extraSize ≤ m.extraFreeIdx then none
    else some ({ (m.setChain b (m.chains b ++ fwmapEmptyBucket)) with extraFreeIdx := m.extraFreeIdx + 1 },
      (m.chains b).length, visited + 1)

-- The slot's key index: reused when the slot was used before, else a fresh one.
def fwmapSlotKey (m : Fwmap K V) (worker chainLength : Nat) (deadline : UInt64) (slot : FwmapSlot) :
    Option (Fwmap K V × Nat) :=
  if 0 < slot.deadline then some (fwmapUpdateCounters m worker chainLength 0 deadline, slot.idx.toNat)
  else (fwmapNextFreeKey m).map fun (m, idx) => (fwmapUpdateCounters m worker chainLength 1 deadline, idx)

-- The end of fwmap_entry once a slot was chosen: the slot gets a key index and the key's signature
-- and deadline.
def fwmapTakeSlot (m : Fwmap K V) (b pos : Nat) (sig : UInt16) (deadline : UInt64) (worker chainLength : Nat) :
    Fwmap K V × Option FwmapEntry :=
  match fwmapSlotKey m worker chainLength deadline ((m.chains b).getD pos FwmapSlot.empty) with
  | none => (m, none)
  | some (m, idx) => (m.setChain b ((m.chains b).set pos ⟨sig, deadline, UInt32.ofNat idx⟩), some ⟨idx, true⟩)

-- fwmap_entry; `none` is the zeroed entry the code returns on failure.
def fwmapEntry (funcs : FwmapFuncs K V) (m : Fwmap K V) (worker : Nat) (now ttl : UInt64) (key : K) :
    Fwmap K V × Option FwmapEntry :=
  let sig := m.keySig funcs key
  let b := m.bucketOf funcs key
  let chain := m.chains b
  let deadline := now + ttl
  match entryScan funcs m now key sig chain 0 none with
  | .found pos visited =>
    let slot := chain.getD pos FwmapSlot.empty
    (fwmapUpdateCounters (m.setChain b (chain.set pos { slot with deadline := deadline })) worker visited 0 deadline,
      some ⟨slot.idx.toNat, decide (slot.deadline ≤ now)⟩)
  | .vacant candidate visited =>
    match fwmapVacancy m b candidate visited with
    | none => (m, none)
    | some (m, pos, chainLength) => fwmapTakeSlot m b pos sig deadline worker chainLength

-- fwmap_put: the key index, or -1.
def fwmapPut (funcs : FwmapFuncs K V) (m : Fwmap K V) (worker : Nat) (now ttl : UInt64) (key : K) (value : V) :
    Fwmap K V × Int :=
  match fwmapEntry funcs m worker now ttl key with
  | (m, none) => (m, -1)
  | (m, some entry) =>
    let m := if entry.empty then m.setKey entry.idx key else m
    (m.setValue entry.idx (funcs.updateValue (m.valueStore entry.idx) value entry.empty), entry.idx)

-- fwmap_max_deadline.
def fwmapMaxDeadline (m : Fwmap K V) : UInt64 :=
  ((List.range' 1 (m.workerCount - 1)).map fun worker => (m.counters worker).maxDeadline).foldl max
    (m.counters 0).maxDeadline

-- The default registry functions over byte-string keys: FNV-1a, memcmp, memcpy, and a promote that
-- does nothing.
def fwmapDefaultFuncs (V : Type) : FwmapFuncs (List UInt8) V where
  hash := fwmapHashFnv1a
  keyEqual := fun a b => decide (a = b)
  updateValue := fun _ src _ => src
  promoteValue := fun dst _ _ => dst

end Yanet
