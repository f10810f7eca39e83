import Mathlib
import Yanet.Fwstate.FwmapRefine
import Yanet.Fwstate.Layermap

set_option autoImplicit false

-- The layered map against a stack of TTL maps, one per layer, newest first. A
-- put writes the active layer's map; a get reads the stack. A put of a key that
-- is live only in an older layer promotes it, and the value it leaves is up to
-- promote_value, so the stack records it as unknown.

namespace Yanet

open TtlMap

variable {K V : Type}

-- A successful put at `now` as the stack sees it: the active map takes the key with the new
-- deadline; the value is merged with a live one (known or not), given when the key is new to every
-- layer, and unknown after a promotion.
def layeredPut [DecidableEq K] (merge : Option V → V → Option V) (stack : List (Store K (Option V)))
    (now deadline : Nat) (key : K) (value : V) : List (Store K (Option V)) :=
  match stack with
  | [] => []
  | active :: older =>
    let known := match lookup active now key with
      | some old => merge old value
      | none => if (lookupStack older now key).isSome then none else some value
    Function.update active key (some (deadline, known)) :: older

-- The stack's merge knows no more than update_value gives.
def MergeSound (funcs : FwmapFuncs K V) (merge : Option V → V → Option V) : Prop :=
  ∀ known old value merged, (∀ v, known = some v → v = old) → merge known value = some merged →
    merged = fwmapMerge funcs old value

-- Each layer keeps the fwmap invariant against an exact TTL map, which the stack approximates.
def LayermapInv (funcs : FwmapFuncs K V) (lm : Layermap K V) (stack : List (Store K (Option V))) (t : Nat) : Prop :=
  ∃ exact, List.Forall₂ (fun layer m => FwmapInv funcs layer m t) lm.layers exact ∧ List.Forall₂ Approx stack exact

theorem layermapGetInternal_fst (funcs : FwmapFuncs K V) (lm : Layermap K V) (now : UInt64) (key : K) :
    (layermapGetInternal funcs lm now key).1 = layersGet funcs now key lm.layers := by
  simp only [layermapGetInternal, Layermap.layers, layersGet]
  cases fwmapGetValueAndDeadline funcs lm.active now key <;> rfl

variable {funcs : FwmapFuncs K V}

theorem layersGet_exact (lawful : funcs.Lawful) {t : Nat} {now : UInt64} (ht : t ≤ now.toNat) (key : K) :
    ∀ {layers : List (Fwmap K V)} {exact : List (Store K V)},
      List.Forall₂ (fun layer m => FwmapInv funcs layer m t) layers exact →
      (layersGet funcs now key layers).map Prod.fst = lookupStack exact now.toNat key := by
  intro layers exact related
  -- induction on the layers paired with their maps, newest first
  induction related with
  | nil => rfl
  | @cons layer m layers exact inv rest ih =>
    have get := inv.get lawful ht key
    simp only [fwmapGet] at get
    cases found : fwmapGetValueAndDeadline funcs layer now key with
    | some r =>
      rw [found] at get
      simp only [layersGet, found, lookupStack, ← get]
      rfl
    | none =>
      rw [found] at get
      simp only [layersGet, found, lookupStack, ← get]
      exact ih

theorem LayermapInv.get (lawful : funcs.Lawful) {lm : Layermap K V} {stack : List (Store K (Option V))} {t : Nat}
    (inv : LayermapInv funcs lm stack t) {now : UInt64} (ht : t ≤ now.toNat) (key : K) :
    (layermapGet funcs lm now key).isSome = (lookupStack stack now.toNat key).isSome ∧
      ∀ value, lookupStack stack now.toNat key = some (some value) → layermapGet funcs lm now key = some value := by
  obtain ⟨exact, layers, approx⟩ := inv
  have reads : layermapGet funcs lm now key = lookupStack exact now.toNat key := by
    rw [layermapGet, layermapGetInternal_fst]
    exact layersGet_exact lawful ht key layers
  obtain ⟨same, known⟩ := lookupStack_approx approx now.toNat key
  rw [reads]
  exact ⟨same.symm, known⟩

theorem LayermapInv.mono {lm : Layermap K V} {stack : List (Store K (Option V))} {t t' : Nat}
    (inv : LayermapInv funcs lm stack t) (ht : t ≤ t') : LayermapInv funcs lm stack t' := by
  obtain ⟨exact, layers, approx⟩ := inv
  exact ⟨exact, layers.imp fun _ _ h => h.mono ht, approx⟩

theorem LayermapInv.rotate {lm : Layermap K V} {stack : List (Store K (Option V))} {t : Nat}
    (inv : LayermapInv funcs lm stack t) {config : FwmapConfig} {rand : UInt64} {zeroKey : K} {zeroValue : V}
    {lm' : Layermap K V} (h : layermapInsertNewLayerCp config rand zeroKey zeroValue lm = some lm') :
    LayermapInv funcs lm' (TtlMap.empty :: stack) t := by
  obtain ⟨exact, layers, approx⟩ := inv
  obtain ⟨layer, created, rfl⟩ := Option.map_eq_some_iff.mp h
  exact ⟨TtlMap.empty :: exact, .cons ((fwmapInv_new funcs created).mono (Nat.zero_le t)) layers,
    .cons Approx.empty approx⟩

theorem layermapPut_of_none {lm : Layermap K V} {worker : Nat} {now ttl : UInt64} {key : K} (value : V)
    {active : Fwmap K V} (h : fwmapEntry funcs lm.active worker now ttl key = (active, none)) :
    layermapPut funcs lm worker now ttl key value = ({ lm with active }, -1) := by
  simp [layermapPut, h]

theorem layermapPut_of_some {lm : Layermap K V} {worker : Nat} {now ttl : UInt64} {key : K} (value : V)
    {active : Fwmap K V} {e : FwmapEntry} (h : fwmapEntry funcs lm.active worker now ttl key = (active, some e)) :
    layermapPut funcs lm worker now ttl key value =
      (⟨(if e.empty then active.setKey e.idx key else active).setValue e.idx
          (layermapStoredValue funcs lm.older now key value (active.valueStore e.idx) e.empty), lm.older⟩,
        (e.idx : Int)) := by
  simp only [layermapPut, h]
  split <;> rfl

theorem layermapStoredValue_live (older : List (Fwmap K V)) (now : UInt64) (key : K) (value current : V) :
    layermapStoredValue funcs older now key value current false = funcs.updateValue current value false := rfl

theorem layermapStoredValue_new {older : List (Fwmap K V)} {now : UInt64} {key : K} (value current : V)
    (fresh : layersGet funcs now key older = none) :
    layermapStoredValue funcs older now key value current true = funcs.updateValue current value true := by
  simp [layermapStoredValue, fresh]

theorem LayermapInv.put_fail {lm : Layermap K V} {stack : List (Store K (Option V))} {t : Nat}
    (inv : LayermapInv funcs lm stack t) {worker : Nat} {now ttl : UInt64} {key : K} {value : V}
    (ht : t ≤ now.toNat) (failed : (layermapPut funcs lm worker now ttl key value).2 = -1) :
    LayermapInv funcs (layermapPut funcs lm worker now ttl key value).1 stack now.toNat := by
  obtain ⟨exact, layers, approx⟩ := inv
  cases layers with
  | cons active older =>
    rcases hentry : fwmapEntry funcs lm.active worker now ttl key with ⟨m1, _ | e⟩
    · rw [layermapPut_of_none value hentry]
      exact ⟨_, .cons (active.entry_none ht hentry) (older.imp fun _ _ h => h.mono ht), approx⟩
    · rw [layermapPut_of_some value hentry] at failed
      omega

theorem LayermapInv.put_ok [DecidableEq K] (lawful : funcs.Lawful) {merge : Option V → V → Option V}
    (sound : MergeSound funcs merge) {lm : Layermap K V}
    {stack : List (Store K (Option V))} {t : Nat} (inv : LayermapInv funcs lm stack t) {worker : Nat}
    {now ttl : UInt64} {key : K} {value : V} (ht : t ≤ now.toNat) (fits : now.toNat + ttl.toNat < 2 ^ 64)
    (hpos : 0 < now.toNat + ttl.toNat) (succeeded : (layermapPut funcs lm worker now ttl key value).2 ≠ -1) :
    LayermapInv funcs (layermapPut funcs lm worker now ttl key value).1
      (layeredPut merge stack now.toNat (now + ttl).toNat key value) now.toNat := by
  obtain ⟨exact, layers, approx⟩ := inv
  cases layers with
  | @cons _ activeExact _ olderExact activeInv olderInv =>
    cases approx with
    | @cons activeStore _ olderStack _ activeApprox olderApprox =>
      rcases hentry : fwmapEntry funcs lm.active worker now ttl key with ⟨m1, _ | e⟩
      · rw [layermapPut_of_none value hentry] at succeeded
        exact absurd rfl succeeded
      rw [layermapPut_of_some value hentry]
      have keyed : (if e.empty then m1.setKey e.idx key else m1) = m1.setKey e.idx key := by
        cases full : e.empty
        · rw [if_neg Bool.false_ne_true, Fwmap.setKey_self m1 (activeInv.entry_key lawful hentry full)]
        · rw [if_pos rfl]
      have live := activeInv.entry_lookup lawful ht hentry
      have older := lookupStack_approx olderApprox now.toNat key
      have olderGet : (layersGet funcs now key lm.older).map Prod.fst = lookupStack olderExact now.toNat key :=
        layersGet_exact lawful ht key (olderInv.imp fun _ _ h => h)
      rw [keyed]
      refine ⟨_, .cons (activeInv.entry_some lawful ht fits hpos hentry _) (olderInv.imp fun _ _ h => h.mono ht),
        .cons (activeApprox.update key _ _ _ ?_) olderApprox⟩
      -- the value the stack records, when known, is the one the slot takes
      intro v hv
      have sameLive := activeApprox.lookup_isSome now.toNat key
      cases full : e.empty
      · -- the key was live in the active layer: update_value merges with its value
        simp only [full, Bool.false_eq_true, if_false] at live
        rw [layermapStoredValue_live]
        cases hla : lookup activeStore now.toNat key with
        | none => rw [hla, live] at sameLive; cases sameLive
        | some known =>
          simp only [hla] at hv
          refine sound known _ value v (fun o ho => ?_) hv
          have hold := activeApprox.lookup_known (ho ▸ hla)
          rw [live, Option.some.injEq] at hold
          exact hold.symm
      · simp only [full, if_true] at live
        have hla : lookup activeStore now.toNat key = none := by
          rw [live] at sameLive
          cases h : lookup activeStore now.toNat key with
          | none => rfl
          | some _ => rw [h] at sameLive; cases sameLive
        simp only [hla] at hv
        cases promoted : layersGet funcs now key lm.older with
        | some found =>
          -- promote_value: the stack no longer knows the value
          have : (lookupStack olderStack now.toNat key).isSome = true := by
            rw [older.1, ← olderGet, promoted]
            rfl
          simp only [this, if_true] at hv
          cases hv
        | none =>
          -- a key new to every layer takes the value given
          have : (lookupStack olderStack now.toNat key).isSome = false := by
            rw [older.1, ← olderGet, promoted]
            rfl
          simp only [this, Bool.false_eq_true, if_false, Option.some.injEq] at hv
          rw [layermapStoredValue_new _ _ promoted, lawful.updateValue_empty, hv]

inductive LayermapCall (K V : Type) where
  | rotate (config : FwmapConfig) (rand : UInt64)
  | map (call : FwmapCall K V)

-- A put's deadline is not 0, which fwmap_entry reads as the end of the chain.
def FwmapCall.Dated : FwmapCall K V → Prop
  | .put _ now ttl _ _ => 0 < now.toNat + ttl.toNat
  | .get _ _ => True

namespace LayermapCall

-- Rotations come at any time; puts and gets as on a single map.
def Admissible : Nat → List (LayermapCall K V) → Prop
  | _, [] => True
  | since, rotate _ _ :: calls => Admissible since calls
  | since, map call :: calls => since ≤ call.now.toNat ∧ call.Fits ∧ call.Dated ∧ Admissible call.now.toNat calls

def lastNow : Nat → List (LayermapCall K V) → Nat
  | since, [] => since
  | since, rotate _ _ :: calls => lastNow since calls
  | _, map call :: calls => lastNow call.now.toNat calls

end LayermapCall

-- The layered map after a client's calls, beside the stack of TTL maps of its successful puts; a
-- rotation that fwmap_new fails changes neither.
def layermapTrack [DecidableEq K] (funcs : FwmapFuncs K V) (merge : Option V → V → Option V) (zeroKey : K)
    (zeroValue : V) :
    Layermap K V × List (Store K (Option V)) → List (LayermapCall K V) → Layermap K V × List (Store K (Option V))
  | state, [] => state
  | (lm, stack), .rotate config rand :: calls =>
    match layermapInsertNewLayerCp config rand zeroKey zeroValue lm with
    | some lm' => layermapTrack funcs merge zeroKey zeroValue (lm', TtlMap.empty :: stack) calls
    | none => layermapTrack funcs merge zeroKey zeroValue (lm, stack) calls
  | (lm, stack), .map (.put worker now ttl key value) :: calls =>
    let (lm', result) := layermapPut funcs lm worker now ttl key value
    layermapTrack funcs merge zeroKey zeroValue
      (lm', if result = -1 then stack else layeredPut merge stack now.toNat (now + ttl).toNat key value)
      calls
  | state, .map (.get _ _) :: calls => layermapTrack funcs merge zeroKey zeroValue state calls

theorem layermapTrack_inv [DecidableEq K] (lawful : funcs.Lawful) {merge : Option V → V → Option V}
    (sound : MergeSound funcs merge) (zeroKey : K) (zeroValue : V) :
    ∀ (calls : List (LayermapCall K V)) {lm : Layermap K V} {stack : List (Store K (Option V))} {t : Nat},
      LayermapInv funcs lm stack t → LayermapCall.Admissible t calls →
      LayermapInv funcs (layermapTrack funcs merge zeroKey zeroValue (lm, stack) calls).1
        (layermapTrack funcs merge zeroKey zeroValue (lm, stack) calls).2 (LayermapCall.lastNow t calls)
  | [], _, _, _, inv, _ => inv
  | .rotate config rand :: calls, lm, _, _, inv, rest => by
    simp only [layermapTrack]
    cases created : layermapInsertNewLayerCp config rand zeroKey zeroValue lm with
    | some lm' => exact layermapTrack_inv lawful sound zeroKey zeroValue calls (inv.rotate created) rest
    | none => exact layermapTrack_inv lawful sound zeroKey zeroValue calls inv rest
  | .map (.get now _) :: calls, _, _, _, inv, ⟨ordered, _, _, rest⟩ =>
    layermapTrack_inv lawful sound zeroKey zeroValue calls (inv.mono ordered) rest
  | .map (.put worker now ttl key value) :: calls, lm, stack, _, inv, ⟨ordered, fits, dated, rest⟩ => by
    simp only [layermapTrack]
    by_cases failed : (layermapPut funcs lm worker now ttl key value).2 = -1
    · rw [if_pos failed]
      exact layermapTrack_inv lawful sound zeroKey zeroValue calls (inv.put_fail ordered failed) rest
    · rw [if_neg failed]
      exact layermapTrack_inv lawful sound zeroKey zeroValue calls
        (inv.put_ok lawful sound ordered fits dated failed) rest

-- What a client sees of the layered map against the stack: the key is found exactly when some
-- layer's map has it live, and with the value the stack knows.
structure LayermapObserved (funcs : FwmapFuncs K V) (lm : Layermap K V) (stack : List (Store K (Option V)))
    (t : Nat) : Prop where
  found_iff : ∀ (now : UInt64) (key : K), t ≤ now.toNat →
    ((layermapGet funcs lm now key).isSome ↔ ∃ layer ∈ stack, (lookup layer now.toNat key).isSome)
  value : ∀ (now : UInt64) (key : K) (value : V), t ≤ now.toNat →
    lookupStack stack now.toNat key = some (some value) → layermapGet funcs lm now key = some value

theorem LayermapInv.observed (lawful : funcs.Lawful) {lm : Layermap K V} {stack : List (Store K (Option V))}
    {t : Nat} (inv : LayermapInv funcs lm stack t) : LayermapObserved funcs lm stack t where
  found_iff now key ht := by
    rw [(inv.get lawful ht key).1, ← lookupStack_isSome_iff]
  value now key _ ht := (inv.get lawful ht key).2 _

-- The stack's merge for memcpy updates: the value put.
def replaceMerge (_old : Option V) (value : V) : Option V := some value

theorem replaceMerge_sound : MergeSound (fwmapDefaultFuncs V) replaceMerge := by
  intro known old value merged _ h
  cases h
  rfl

theorem layermap_get_older_copy :
    ((fwmapNew (K := List UInt8) ⟨4, 1, 1, 1, 16, 0⟩ 0 [0, 0, 0, 0] (0 : UInt8)).bind fun m0 =>
      let first := layermapPut (fwmapDefaultFuncs UInt8) ⟨m0, []⟩ 0 1 100 [1, 2, 3, 4] 7
      (layermapInsertNewLayerCp ⟨4, 1, 1, 1, 16, 0⟩ 0 [0, 0, 0, 0] 0 first.1).map fun rotated =>
        let second := layermapPut (fwmapDefaultFuncs UInt8) rotated 0 2 1 [1, 2, 3, 4] 9
        (first.2, second.2, layermapGet (fwmapDefaultFuncs UInt8) second.1 2 [1, 2, 3, 4],
          layermapGet (fwmapDefaultFuncs UInt8) second.1 5 [1, 2, 3, 4])) =
      some (0, 0, some 0, some 7) ∧
    -- a put at now 0 with ttl 0 leaves deadline 0 and hides the slots behind it from fwmap_entry
    (fwmapNew (K := List UInt8) ⟨4, 1, 1, 1, 16, 0⟩ 0 [0, 0, 0, 0] (0 : UInt8)).map (fun m0 =>
      let a := layermapPut (fwmapDefaultFuncs UInt8) ⟨m0, []⟩ 0 0 100 [1, 2, 3, 4] 1
      let b := layermapPut (fwmapDefaultFuncs UInt8) a.1 0 0 100 [5, 6, 7, 8] 2
      let c := layermapPut (fwmapDefaultFuncs UInt8) b.1 0 0 0 [1, 2, 3, 4] 3
      let d := layermapPut (fwmapDefaultFuncs UInt8) c.1 0 0 1 [5, 6, 7, 8] 4
      (a.2, b.2, c.2, d.2, layermapGet (fwmapDefaultFuncs UInt8) d.1 5 [5, 6, 7, 8])) =
      some (0, 1, 0, 2, some 2) :=
  ⟨by decide, by decide⟩

theorem layermap_get_newest_live_layer [DecidableEq K] (funcs : FwmapFuncs K V) (lawful : funcs.Lawful)
    (merge : Option V → V → Option V) (sound : MergeSound funcs merge) (config : FwmapConfig) (rand : UInt64)
    (zeroKey : K) (zeroValue : V) (m0 : Fwmap K V) (created : fwmapNew config rand zeroKey zeroValue = some m0)
    (calls : List (LayermapCall K V)) (admissible : LayermapCall.Admissible 0 calls) :
    LayermapObserved funcs (layermapTrack funcs merge zeroKey zeroValue (⟨m0, []⟩, [TtlMap.empty]) calls).1
      (layermapTrack funcs merge zeroKey zeroValue (⟨m0, []⟩, [TtlMap.empty]) calls).2
      (LayermapCall.lastNow 0 calls) := by
  have start : LayermapInv funcs ⟨m0, []⟩ [TtlMap.empty] 0 :=
    ⟨[TtlMap.empty], .cons (fwmapInv_new _ created) .nil, .cons Approx.empty .nil⟩
  exact (layermapTrack_inv lawful sound zeroKey zeroValue calls start admissible).observed lawful

theorem layermap_get_newest_live_layer_small :
    ∃ m0, fwmapNew ⟨4, 1, 1, 1, 16, 0⟩ 0 [0, 0, 0, 0] (0 : UInt8) = some m0 ∧
      LayermapObserved (fwmapDefaultFuncs UInt8)
        (layermapTrack (fwmapDefaultFuncs UInt8) replaceMerge [0, 0, 0, 0] 0 (⟨m0, []⟩, [TtlMap.empty])
          [.map (.put 0 0 60 [1, 2, 3, 4] 7), .rotate ⟨4, 1, 1, 1, 16, 0⟩ 0, .map (.put 0 2 1 [1, 2, 3, 4] 9)]).1
        (layermapTrack (fwmapDefaultFuncs UInt8) replaceMerge [0, 0, 0, 0] 0 (⟨m0, []⟩, [TtlMap.empty])
          [.map (.put 0 0 60 [1, 2, 3, 4] 7), .rotate ⟨4, 1, 1, 1, 16, 0⟩ 0, .map (.put 0 2 1 [1, 2, 3, 4] 9)]).2 2 :=
  ⟨_, rfl, layermap_get_newest_live_layer (fwmapDefaultFuncs UInt8) (fwmapDefaultFuncs_lawful UInt8) replaceMerge
    replaceMerge_sound ⟨4, 1, 1, 1, 16, 0⟩ 0 [0, 0, 0, 0] 0 _ rfl _
    ⟨by decide, (by decide : (0 : UInt64).toNat + (60 : UInt64).toNat < 2 ^ 64),
      (by decide : 0 < (0 : UInt64).toNat + (60 : UInt64).toNat),
      by decide, (by decide : (2 : UInt64).toNat + (1 : UInt64).toNat < 2 ^ 64),
      (by decide : 0 < (2 : UInt64).toNat + (1 : UInt64).toNat), trivial⟩⟩

end Yanet
