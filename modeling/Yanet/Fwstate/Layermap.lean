import Yanet.Fwstate.Fwmap

set_option autoImplicit false

-- layermap (lib/fwstate/layermap.h): a stack of fwmap layers linked through
-- their `next` offsets, the active layer first. Puts go to the active layer; gets
-- read the layers newest first. The `next` chain is the list of older layers.

namespace Yanet

variable {K V : Type}

structure Layermap (K V : Type) where
  active : Fwmap K V
  older : List (Fwmap K V)

def Layermap.layers (lm : Layermap K V) : List (Fwmap K V) := lm.active :: lm.older

-- layermap_is_layer_outdated
def layermapIsLayerOutdated (layer : Fwmap K V) (now : UInt64) : Bool := decide (fwmapMaxDeadline layer ≤ now)

-- layermap_trim_stale_layers_cp, with every list node allocated: the kept layers, and the unlinked
-- ones, last unlinked first.
def layermapTrimStaleLayersCp (lm : Layermap K V) (now : UInt64) : Layermap K V × List (Fwmap K V) :=
  let step := fun (acc : List (Fwmap K V) × List (Fwmap K V)) (layer : Fwmap K V) =>
    if layermapIsLayerOutdated layer now then (acc.1, layer :: acc.2) else (acc.1 ++ [layer], acc.2)
  let (kept, outdated) := lm.older.foldl step ([], [])
  ({ lm with older := kept }, outdated)

-- layermap_insert_new_layer_cp: a new layer from fwmap_new becomes the active one.
def layermapInsertNewLayerCp (config : FwmapConfig) (rand : UInt64) (zeroKey : K) (zeroValue : V)
    (lm : Layermap K V) : Option (Layermap K V) :=
  (fwmapNew config rand zeroKey zeroValue).map fun layer => ⟨layer, lm.layers⟩

-- The walk of layermap_get_internal over the layers after the active one.
def layersGet (funcs : FwmapFuncs K V) (now : UInt64) (key : K) : List (Fwmap K V) → Option (V × UInt64)
  | [] => none
  | layer :: layers =>
    match fwmapGetValueAndDeadline funcs layer now key with
    | some (idx, deadline) => some (layer.valueStore idx, deadline)
    | none => layersGet funcs now key layers

-- layermap_get_internal: the value and deadline found, and `value_from_stale_layer`.
def layermapGetInternal (funcs : FwmapFuncs K V) (lm : Layermap K V) (now : UInt64) (key : K) :
    Option (V × UInt64) × Bool :=
  match fwmapGetValueAndDeadline funcs lm.active now key with
  | some (idx, deadline) => (some (lm.active.valueStore idx, deadline), false)
  | none => (layersGet funcs now key lm.older, true)

def layermapGet (funcs : FwmapFuncs K V) (lm : Layermap K V) (now : UInt64) (key : K) : Option V :=
  (layermapGetInternal funcs lm now key).1.map Prod.fst

-- What layermap_put leaves in the slot holding `current`: a key new to the active layer but live in
-- an older one is promoted, any other key updated.
def layermapStoredValue (funcs : FwmapFuncs K V) (older : List (Fwmap K V)) (now : UInt64) (key : K) (value : V)
    (current : V) (empty : Bool) : V :=
  match (if empty then layersGet funcs now key older else none) with
  | some (oldValue, _) => funcs.promoteValue current value oldValue
  | none => funcs.updateValue current value empty

def layermapPut (funcs : FwmapFuncs K V) (lm : Layermap K V) (worker : Nat) (now ttl : UInt64) (key : K)
    (value : V) : Layermap K V × Int :=
  match fwmapEntry funcs lm.active worker now ttl key with
  | (active, none) => ({ lm with active }, -1)
  | (active, some entry) =>
    let active := if entry.empty then active.setKey entry.idx key else active
    let stored := layermapStoredValue funcs lm.older now key value (active.valueStore entry.idx) entry.empty
    ({ lm with active := active.setValue entry.idx stored }, entry.idx)

end Yanet
