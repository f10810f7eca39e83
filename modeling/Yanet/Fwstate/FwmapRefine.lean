import Mathlib
import Yanet.Fwstate.FwmapInv

set_option autoImplicit false

-- A client's calls on one fwmap, puts and gets at times that never go back:
-- the map answers as the TTL map of its successful puts, a failed put changes no
-- answer, and no key ever has two used slots.

namespace Yanet

open TtlMap

variable {K V : Type}

inductive FwmapCall (K V : Type) where
  | put (worker : Nat) (now ttl : UInt64) (key : K) (value : V)
  | get (now : UInt64) (key : K)

namespace FwmapCall

def now : FwmapCall K V → UInt64
  | put _ now _ _ _ => now
  | get now _ => now

-- A put's deadline `now + ttl` fits in 64 bits.
def Fits : FwmapCall K V → Prop
  | put _ now ttl _ _ => now.toNat + ttl.toNat < 2 ^ 64
  | get _ _ => True

-- Each call comes at a positive time no earlier than the one before, and its deadline fits.
def Admissible : Nat → List (FwmapCall K V) → Prop
  | _, [] => True
  | since, call :: calls => since ≤ call.now.toNat ∧ 0 < call.now.toNat ∧ call.Fits ∧ Admissible call.now.toNat calls

-- The time of the last call, `since` when there is none.
def lastNow : Nat → List (FwmapCall K V) → Nat
  | since, [] => since
  | _, call :: calls => lastNow call.now.toNat calls

theorem le_lastNow : ∀ {since : Nat} {calls : List (FwmapCall K V)}, Admissible since calls → since ≤ lastNow since calls
  | _, [], _ => Nat.le_refl _
  | _, _ :: _, ⟨ordered, _, _, rest⟩ => Nat.le_trans ordered (le_lastNow rest)

end FwmapCall

-- The map after a client's calls, beside the TTL map of the puts that succeeded; a get changes
-- neither.
def fwmapTrack [DecidableEq K] (funcs : FwmapFuncs K V) : Fwmap K V × Store K V → List (FwmapCall K V) →
    Fwmap K V × Store K V
  | state, [] => state
  | (m, A), .put worker now ttl key value :: calls =>
    let (m', result) := fwmapPut funcs m worker now ttl key value
    fwmapTrack funcs
      (m', if result = -1 then A else write (fwmapMerge funcs) A now.toNat key (now + ttl).toNat value) calls
  | state, .get _ _ :: calls => fwmapTrack funcs state calls

-- What a client sees of a map `m` that stands for the TTL map `A` after time `t`: gets read `A`,
-- a failed put changes no later get, and a key holds at most one slot of a chain.
structure FwmapObserved (funcs : FwmapFuncs K V) (m : Fwmap K V) (A : Store K V) (t : Nat) : Prop where
  get : ∀ (now : UInt64) (key : K), t ≤ now.toNat → (fwmapGet funcs m now key).map m.valueStore = lookup A now.toNat key
  put_fail : ∀ (worker : Nat) (now ttl : UInt64) (key : K) (value : V), t ≤ now.toNat →
    (fwmapPut funcs m worker now ttl key value).2 = -1 →
    ∀ (later : UInt64) (other : K), now.toNat ≤ later.toNat →
      (fwmapGet funcs (fwmapPut funcs m worker now ttl key value).1 later other).map
          (fwmapPut funcs m worker now ttl key value).1.valueStore =
        (fwmapGet funcs m later other).map m.valueStore
  single_slot : ∀ {b p p' : Nat} {s s' : FwmapSlot}, m.UsedSlot b p s → m.UsedSlot b p' s' →
    m.slotKey s = m.slotKey s' → p = p'

variable {funcs : FwmapFuncs K V}

theorem fwmapTrack_inv [DecidableEq K] (lawful : funcs.Lawful) :
    ∀ (calls : List (FwmapCall K V)) {m : Fwmap K V} {A : Store K V} {t : Nat}, FwmapInv funcs m A t →
      FwmapCall.Admissible t calls →
      FwmapInv funcs (fwmapTrack funcs (m, A) calls).1 (fwmapTrack funcs (m, A) calls).2 (FwmapCall.lastNow t calls)
  | [], _, _, _, inv, _ => inv
  | .get now _ :: calls, _, _, _, inv, ⟨ordered, _, _, rest⟩ =>
    fwmapTrack_inv lawful calls (inv.mono ordered) rest
  | .put worker now ttl key value :: calls, m, A, _, inv, ⟨ordered, positive, fits, rest⟩ => by
    simp only [fwmapTrack]
    by_cases failed : (fwmapPut funcs m worker now ttl key value).2 = -1
    · rw [if_pos failed]
      exact fwmapTrack_inv lawful calls (inv.put_fail ordered failed) rest
    · rw [if_neg failed]
      exact fwmapTrack_inv lawful calls
        (inv.put_ok lawful ordered fits (Nat.lt_of_lt_of_le positive (Nat.le_add_right _ _)) failed) rest

theorem FwmapInv.observed (lawful : funcs.Lawful) {m : Fwmap K V} {A : Store K V} {t : Nat}
    (inv : FwmapInv funcs m A t) : FwmapObserved funcs m A t where
  get now key ht := inv.get lawful ht key
  put_fail worker now ttl key value ht failed later other hl := by
    rw [(inv.put_fail ht failed).get lawful hl other, inv.get lawful (Nat.le_trans ht hl) other]
  single_slot hs hs' hkey := (inv.unique hs hs' hkey).2

theorem fwmapDefaultFuncs_lawful (V : Type) : (fwmapDefaultFuncs V).Lawful where
  keyEqual_iff a b := by simp [fwmapDefaultFuncs]
  updateValue_empty _ _ := rfl

theorem fwmap_get_last_put {V : Type} (config : FwmapConfig) (rand : UInt64) (zeroKey : List UInt8) (zeroValue : V)
    (m0 : Fwmap (List UInt8) V) (created : fwmapNew config rand zeroKey zeroValue = some m0)
    (calls : List (FwmapCall (List UInt8) V)) (admissible : FwmapCall.Admissible 0 calls) :
    FwmapObserved (fwmapDefaultFuncs V) (fwmapTrack (fwmapDefaultFuncs V) (m0, TtlMap.empty) calls).1
      (fwmapTrack (fwmapDefaultFuncs V) (m0, TtlMap.empty) calls).2 (FwmapCall.lastNow 0 calls) :=
  (fwmapTrack_inv (fwmapDefaultFuncs_lawful V) calls (fwmapInv_new _ created) admissible).observed
    (fwmapDefaultFuncs_lawful V)

theorem fwmap_get_last_put_small :
    ∃ m0, fwmapNew ⟨4, 1, 1, 1, 16, 0⟩ 0 [0, 0, 0, 0] (0 : UInt8) = some m0 ∧
      FwmapObserved (fwmapDefaultFuncs UInt8)
        (fwmapTrack (fwmapDefaultFuncs UInt8) (m0, TtlMap.empty) [.put 0 1 10 [1, 2, 3, 4] 7, .get 5 [1, 2, 3, 4]]).1
        (fwmapTrack (fwmapDefaultFuncs UInt8) (m0, TtlMap.empty) [.put 0 1 10 [1, 2, 3, 4] 7, .get 5 [1, 2, 3, 4]]).2 5 :=
  ⟨_, rfl, fwmap_get_last_put ⟨4, 1, 1, 1, 16, 0⟩ 0 [0, 0, 0, 0] 0 _ rfl _
    ⟨by decide, by decide, (by decide : (1 : UInt64).toNat + (10 : UInt64).toNat < 2 ^ 64), by decide, by decide,
      trivial, trivial⟩⟩

end Yanet
