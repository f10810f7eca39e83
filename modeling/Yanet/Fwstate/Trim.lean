import Mathlib.Data.UInt
import Yanet.Fwstate.Layermap

set_option autoImplicit false

-- Trimming stale layers (layermap_trim_stale_layers_cp). A layer is outdated
-- once `fwmap_max_deadline`, the largest deadline the workers' counters hold,
-- has passed. Every slot deadline fwmap_entry writes also goes into the putting
-- worker's counter, so no slot of an outdated layer is live then or later, and
-- unlinking the layer changes no get from that time on.

namespace Yanet

variable {K V : Type}

-- `fwmap_max_deadline` is a fold of `max` over the counted workers' counters.

theorem le_foldl_max (l : List UInt64) (init : UInt64) :
    init.toNat ≤ (l.foldl max init).toNat ∧ ∀ x ∈ l, x.toNat ≤ (l.foldl max init).toNat := by
  induction l generalizing init with
  | nil => simp
  | cons x xs ih =>
    obtain ⟨first, rest⟩ := ih (max init x)
    have step := UInt64.toNat_max init x
    simp only [List.foldl_cons, List.mem_cons, forall_eq_or_imp]
    exact ⟨by omega, by omega, rest⟩

theorem foldl_max_mono {l : List Nat} {f g : Nat → UInt64} (le : ∀ w ∈ l, (f w).toNat ≤ (g w).toNat)
    {init init' : UInt64} (start : init.toNat ≤ init'.toNat) :
    ((l.map f).foldl max init).toNat ≤ ((l.map g).foldl max init').toNat := by
  induction l generalizing init init' with
  | nil => simpa
  | cons w ws ih =>
    simp only [List.map_cons, List.foldl_cons]
    apply ih fun v mem => le v (List.mem_cons_of_mem w mem)
    have head := le w List.mem_cons_self
    rw [UInt64.toNat_max, UInt64.toNat_max]
    omega

theorem counter_le_fwmapMaxDeadline (m : Fwmap K V) {worker : Nat} (counted : worker < m.workerCount) :
    (m.counters worker).maxDeadline.toNat ≤ (fwmapMaxDeadline m).toNat := by
  obtain ⟨first, rest⟩ := le_foldl_max ((List.range' 1 (m.workerCount - 1)).map fun w => (m.counters w).maxDeadline)
    (m.counters 0).maxDeadline
  -- worker 0 starts the fold; the others are the list
  rcases Nat.eq_zero_or_pos worker with rfl | pos
  · exact first
  · exact rest _ (List.mem_map.mpr ⟨worker, List.mem_range'_1.mpr ⟨pos, by omega⟩, rfl⟩)

theorem fwmapMaxDeadline_mono {m m' : Fwmap K V} (workers : m'.workerCount = m.workerCount)
    (grow : ∀ w, (m.counters w).maxDeadline.toNat ≤ (m'.counters w).maxDeadline.toNat) :
    (fwmapMaxDeadline m).toNat ≤ (fwmapMaxDeadline m').toNat := by
  unfold fwmapMaxDeadline
  rw [workers]
  exact foldl_max_mono (fun w _ => grow w) (grow 0)

section Counters

variable {m : Fwmap K V} {worker chainLength increment : Nat} {deadline : UInt64}

theorem fwmapUpdateCounters_grow (w : Nat) :
    (m.counters w).maxDeadline.toNat ≤
      ((fwmapUpdateCounters m worker chainLength increment deadline).counters w).maxDeadline.toNat := by
  unfold fwmapUpdateCounters
  by_cases same : w = worker
  · subst same
    simp [UInt64.toNat_max]
  · simp [Function.update_of_ne same]

theorem deadline_le_fwmapUpdateCounters (counted : worker < m.workerCount) :
    deadline.toNat ≤ (fwmapMaxDeadline (fwmapUpdateCounters m worker chainLength increment deadline)).toNat := by
  have own : deadline.toNat ≤
      ((fwmapUpdateCounters m worker chainLength increment deadline).counters worker).maxDeadline.toNat := by
    simp [fwmapUpdateCounters, UInt64.toNat_max]
  exact Nat.le_trans own (counter_le_fwmapMaxDeadline _ counted)

theorem fwmapMaxDeadline_le_updateCounters :
    (fwmapMaxDeadline m).toNat ≤ (fwmapMaxDeadline (fwmapUpdateCounters m worker chainLength increment deadline)).toNat :=
  fwmapMaxDeadline_mono rfl fwmapUpdateCounters_grow

end Counters

-- The deadline bound a layer keeps.

-- Every slot of every chain expires by `bound`.
def SlotsBelow (m : Fwmap K V) (bound : Nat) : Prop := ∀ b, ∀ s ∈ m.chains b, s.deadline.toNat ≤ bound

-- What trimming relies on: the workers' counters bound every slot deadline of the layer.
def DeadlinesCounted (m : Fwmap K V) : Prop := SlotsBelow m (fwmapMaxDeadline m).toNat

namespace SlotsBelow

variable {m : Fwmap K V} {bound : Nat}

theorem mono (below : SlotsBelow m bound) {bound' : Nat} (le : bound ≤ bound') : SlotsBelow m bound' :=
  fun b s mem => Nat.le_trans (below b s mem) le

theorem set (below : SlotsBelow m bound) (b pos : Nat) {slot : FwmapSlot} (slotBelow : slot.deadline.toNat ≤ bound) :
    SlotsBelow (m.setChain b ((m.chains b).set pos slot)) bound := by
  intro b' s mem
  by_cases same : b' = b
  · subst same
    simp only [Fwmap.setChain, Function.update_self] at mem
    rcases List.mem_or_eq_of_mem_set mem with old | rfl
    · exact below b' s old
    · exact slotBelow
  · simp only [Fwmap.setChain, Function.update_of_ne same] at mem
    exact below b' s mem

theorem extend (below : SlotsBelow m bound) (b : Nat) :
    SlotsBelow (m.setChain b (m.chains b ++ fwmapEmptyBucket)) bound := by
  intro b' s mem
  by_cases same : b' = b
  · subst same
    simp only [Fwmap.setChain, Function.update_self, List.mem_append] at mem
    rcases mem with old | fresh
    · exact below b' s old
    · simp only [fwmapEmptyBucket, List.mem_replicate] at fresh
      rw [fresh.2]
      exact Nat.zero_le _
  · simp only [Fwmap.setChain, Function.update_of_ne same] at mem
    exact below b' s mem

end SlotsBelow

namespace DeadlinesCounted

variable {m : Fwmap K V} {worker : Nat}

theorem congr (counted : DeadlinesCounted m) {m' : Fwmap K V} (chains : m'.chains = m.chains)
    (counters : m'.counters = m.counters) (workers : m'.workerCount = m.workerCount) : DeadlinesCounted m' := by
  unfold DeadlinesCounted SlotsBelow fwmapMaxDeadline at *
  rw [chains, counters, workers]
  exact counted

theorem updateCounters (counted : DeadlinesCounted m) {chainLength increment : Nat} {deadline : UInt64} :
    DeadlinesCounted (fwmapUpdateCounters m worker chainLength increment deadline) :=
  SlotsBelow.mono counted fwmapMaxDeadline_le_updateCounters

theorem vacancy (counted : DeadlinesCounted m) {b visited pos chainLength : Nat} {candidate : Option Nat}
    {m' : Fwmap K V} (h : fwmapVacancy m b candidate visited = some (m', pos, chainLength)) :
    DeadlinesCounted m' ∧ m'.workerCount = m.workerCount := by
  cases candidate with
  | some p =>
    cases h
    exact ⟨counted, rfl⟩
  | none =>
    simp only [fwmapVacancy] at h
    split at h
    · cases h
    · cases h
      exact ⟨SlotsBelow.extend counted b, rfl⟩

theorem slotKey (counted : DeadlinesCounted m) (workerCounted : worker < m.workerCount) {chainLength idx : Nat}
    {deadline : UInt64} {slot : FwmapSlot} {m' : Fwmap K V}
    (h : fwmapSlotKey m worker chainLength deadline slot = some (m', idx)) :
    DeadlinesCounted m' ∧ deadline.toNat ≤ (fwmapMaxDeadline m').toNat := by
  unfold fwmapSlotKey at h
  split at h
  · -- a slot used before keeps its key index
    cases h
    exact ⟨counted.updateCounters, deadline_le_fwmapUpdateCounters workerCounted⟩
  · -- a fresh key index from the cursor
    obtain ⟨⟨m1, i⟩, next, same⟩ := Option.map_eq_some_iff.mp h
    simp only [fwmapNextFreeKey] at next
    split at next
    · cases next
    · cases next
      cases same
      have cursor : DeadlinesCounted { m with keyCursor := m.keyCursor + 1 } := counted.congr rfl rfl rfl
      exact ⟨cursor.updateCounters, deadline_le_fwmapUpdateCounters workerCounted⟩

theorem takeSlot (counted : DeadlinesCounted m) (workerCounted : worker < m.workerCount) {b pos chainLength : Nat}
    {sig : UInt16} {deadline : UInt64} :
    DeadlinesCounted (fwmapTakeSlot m b pos sig deadline worker chainLength).1 := by
  unfold fwmapTakeSlot
  split
  · exact counted
  · rename_i m' idx taken
    obtain ⟨counted', le⟩ := counted.slotKey workerCounted taken
    exact SlotsBelow.set counted' b pos le

theorem entry (counted : DeadlinesCounted m) (workerCounted : worker < m.workerCount) (funcs : FwmapFuncs K V)
    (now ttl : UInt64) (key : K) : DeadlinesCounted (fwmapEntry funcs m worker now ttl key).1 := by
  unfold fwmapEntry
  dsimp only
  split
  · -- the key's own slot gets the new deadline
    rename_i pos visited _
    have slotBelow := @deadline_le_fwmapUpdateCounters K V
      (m.setChain (m.bucketOf funcs key) ((m.chains (m.bucketOf funcs key)).set pos
        { (m.chains (m.bucketOf funcs key)).getD pos FwmapSlot.empty with deadline := now + ttl }))
      worker visited 0 (now + ttl) workerCounted
    have raised : (fwmapMaxDeadline m).toNat ≤ (fwmapMaxDeadline (fwmapUpdateCounters
        (m.setChain (m.bucketOf funcs key) ((m.chains (m.bucketOf funcs key)).set pos
          { (m.chains (m.bucketOf funcs key)).getD pos FwmapSlot.empty with deadline := now + ttl }))
        worker visited 0 (now + ttl))).toNat :=
      fwmapMaxDeadline_le_updateCounters
    exact SlotsBelow.set (counted.mono raised) _ pos slotBelow
  · split
    · exact counted
    · rename_i m' pos chainLength vacant
      obtain ⟨counted', workers⟩ := counted.vacancy vacant
      exact counted'.takeSlot (workers ▸ workerCounted)

end DeadlinesCounted

-- Layers whose counters bound their slots, and the layered maps reachable from fwmap_new.

def LayersCounted (lm : Layermap K V) : Prop := ∀ layer ∈ lm.layers, DeadlinesCounted layer

theorem fwmapNew_counted {config : FwmapConfig} {rand : UInt64} {zeroKey : K} {zeroValue : V} {m : Fwmap K V}
    (created : fwmapNew config rand zeroKey zeroValue = some m) : DeadlinesCounted m := by
  unfold fwmapNew at created
  dsimp only at created
  split at created
  · cases created
  split at created
  · cases created
  split at created
  · cases created
  split at created
  · cases created
  cases created
  intro b s mem
  simp only [fwmapEmptyBucket, List.mem_replicate] at mem
  rw [mem.2]
  exact Nat.zero_le _

theorem LayersCounted.put {funcs : FwmapFuncs K V} {lm : Layermap K V} (counted : LayersCounted lm) {worker : Nat}
    (workerCounted : worker < lm.active.workerCount) (now ttl : UInt64) (key : K) (value : V) :
    LayersCounted (layermapPut funcs lm worker now ttl key value).1 := by
  have active := counted lm.active List.mem_cons_self
  have older : ∀ layer ∈ lm.older, DeadlinesCounted layer := fun layer mem => counted layer (List.mem_cons_of_mem _ mem)
  have entered := active.entry workerCounted funcs now ttl key
  unfold layermapPut
  split
  · rename_i m1 _ h
    rw [h] at entered
    exact List.forall_mem_cons.mpr ⟨entered, older⟩
  · rename_i m1 e h
    rw [h] at entered
    -- the key and value writes leave the chains and the counters
    have keyed : DeadlinesCounted (if e.empty then m1.setKey e.idx key else m1) := by
      split
      · exact entered.congr rfl rfl rfl
      · exact entered
    exact List.forall_mem_cons.mpr ⟨keyed.congr rfl rfl rfl, older⟩

theorem LayersCounted.rotate {lm lm' : Layermap K V} (counted : LayersCounted lm) {config : FwmapConfig}
    {rand : UInt64} {zeroKey : K} {zeroValue : V}
    (created : layermapInsertNewLayerCp config rand zeroKey zeroValue lm = some lm') : LayersCounted lm' := by
  obtain ⟨layer, fresh, rfl⟩ := Option.map_eq_some_iff.mp created
  exact List.forall_mem_cons.mpr ⟨fwmapNew_counted fresh, counted⟩

theorem layermapTrimStaleLayersCp_fst (lm : Layermap K V) (now : UInt64) :
    (layermapTrimStaleLayersCp lm now).1 =
      { lm with older := lm.older.filter fun layer => !layermapIsLayerOutdated layer now } := by
  -- the walk appends each kept layer to those kept before it
  have walk : ∀ (layers : List (Fwmap K V)) (acc : List (Fwmap K V) × List (Fwmap K V)),
      (layers.foldl (fun (acc : List (Fwmap K V) × List (Fwmap K V)) (layer : Fwmap K V) =>
        if layermapIsLayerOutdated layer now then (acc.1, layer :: acc.2) else (acc.1 ++ [layer], acc.2)) acc).1 =
        acc.1 ++ layers.filter fun layer => !layermapIsLayerOutdated layer now := by
    intro layers
    induction layers with
    | nil => simp
    | cons layer layers ih =>
      intro acc
      rw [List.foldl_cons, ih, List.filter_cons]
      cases layermapIsLayerOutdated layer now <;> simp
  unfold layermapTrimStaleLayersCp
  dsimp only
  rw [walk, List.nil_append]

theorem LayersCounted.trim {lm : Layermap K V} (counted : LayersCounted lm) (now : UInt64) :
    LayersCounted (layermapTrimStaleLayersCp lm now).1 := by
  rw [layermapTrimStaleLayersCp_fst]
  intro layer mem
  rcases List.mem_cons.mp mem with rfl | kept
  · exact counted _ List.mem_cons_self
  · exact counted layer (List.mem_cons_of_mem _ (List.mem_filter.mp kept).1)

-- The layered maps the control and data planes build: a first layer from fwmap_new, then puts by
-- a worker the counters count, rotations and trims.
inductive LayermapReachable (funcs : FwmapFuncs K V) : Layermap K V → Prop
  | init {config : FwmapConfig} {rand : UInt64} {zeroKey : K} {zeroValue : V} {m : Fwmap K V}
      (created : fwmapNew config rand zeroKey zeroValue = some m) : LayermapReachable funcs ⟨m, []⟩
  | put {lm : Layermap K V} {worker : Nat} (reach : LayermapReachable funcs lm)
      (workerCounted : worker < lm.active.workerCount) (now ttl : UInt64) (key : K) (value : V) :
      LayermapReachable funcs (layermapPut funcs lm worker now ttl key value).1
  | rotate {lm lm' : Layermap K V} {config : FwmapConfig} {rand : UInt64} {zeroKey : K} {zeroValue : V}
      (reach : LayermapReachable funcs lm) (created : layermapInsertNewLayerCp config rand zeroKey zeroValue lm = some lm') :
      LayermapReachable funcs lm'
  | trim {lm : Layermap K V} (reach : LayermapReachable funcs lm) (now : UInt64) :
      LayermapReachable funcs (layermapTrimStaleLayersCp lm now).1

theorem LayermapReachable.counted {funcs : FwmapFuncs K V} {lm : Layermap K V} (reach : LayermapReachable funcs lm) :
    LayersCounted lm := by
  induction reach with
  | init created => exact List.forall_mem_cons.mpr ⟨fwmapNew_counted created, fun _ mem => nomatch mem⟩
  | put _ workerCounted now ttl key value ih => exact ih.put workerCounted now ttl key value
  | rotate _ created ih => exact ih.rotate created
  | trim _ now ih => exact ih.trim now

-- Gets through an outdated layer.

section Get

variable (funcs : FwmapFuncs K V)

theorem getScan_expired (m : Fwmap K V) {t : UInt64} (key : K) (sig : UInt16) :
    ∀ {chain : List FwmapSlot}, (∀ s ∈ chain, s.deadline.toNat ≤ t.toNat) → getScan funcs m t key sig chain = none
  | [], _ => rfl
  | slot :: rest, expired => by
    have dead : ¬ t < slot.deadline := by
      rw [UInt64.lt_iff_toNat_lt]
      exact Nat.not_lt.mpr (expired slot List.mem_cons_self)
    have tail := getScan_expired m key sig fun s mem => expired s (List.mem_cons_of_mem slot mem)
    simp only [getScan, dead, and_false, if_false, tail, ite_self]

theorem fwmapGetValueAndDeadline_outdated {layer : Fwmap K V} (counted : DeadlinesCounted layer) {now t : UInt64}
    (outdated : layermapIsLayerOutdated layer now = true) (later : now ≤ t) (key : K) :
    fwmapGetValueAndDeadline funcs layer t key = none := by
  have passed : (fwmapMaxDeadline layer).toNat ≤ t.toNat := by
    simp only [layermapIsLayerOutdated, decide_eq_true_eq] at outdated
    rw [UInt64.le_iff_toNat_le] at outdated later
    omega
  exact getScan_expired funcs layer key _ fun s mem => Nat.le_trans (counted _ s mem) passed

theorem layersGet_filter {t : UInt64} (key : K) (keep : Fwmap K V → Bool) :
    ∀ {layers : List (Fwmap K V)}, (∀ layer ∈ layers, keep layer = false → fwmapGetValueAndDeadline funcs layer t key = none) →
      layersGet funcs t key (layers.filter keep) = layersGet funcs t key layers
  | [], _ => rfl
  | layer :: layers, silent => by
    have rest := layersGet_filter key keep fun l mem => silent l (List.mem_cons_of_mem layer mem)
    rw [List.filter_cons]
    cases kept : keep layer
    · rw [if_neg Bool.false_ne_true, rest, layersGet, silent layer List.mem_cons_self kept]
    · rw [if_pos rfl, layersGet, layersGet, rest]

theorem layermapGetInternal_trim {lm : Layermap K V} (counted : LayersCounted lm) {now t : UInt64} (later : now ≤ t)
    (key : K) :
    layermapGetInternal funcs (layermapTrimStaleLayersCp lm now).1 t key = layermapGetInternal funcs lm t key := by
  have older : layersGet funcs t key (lm.older.filter fun layer => !layermapIsLayerOutdated layer now) =
      layersGet funcs t key lm.older := by
    apply layersGet_filter
    intro layer mem dropped
    have outdated : layermapIsLayerOutdated layer now = true := by simpa using dropped
    exact fwmapGetValueAndDeadline_outdated funcs (counted layer (List.mem_cons_of_mem _ mem)) outdated later key
  rw [layermapTrimStaleLayersCp_fst]
  simp only [layermapGetInternal, older]

end Get

theorem layermap_trim_keeps_gets {funcs : FwmapFuncs K V} {lm : Layermap K V} (reach : LayermapReachable funcs lm)
    (now : UInt64) :
    (layermapTrimStaleLayersCp lm now).1.active = lm.active ∧
      ∀ (key : K) (t : UInt64), now ≤ t →
        layermapGet funcs (layermapTrimStaleLayersCp lm now).1 t key = layermapGet funcs lm t key := by
  refine ⟨by rw [layermapTrimStaleLayersCp_fst], fun key t later => ?_⟩
  rw [layermapGet, layermapGet, layermapGetInternal_trim funcs reach.counted later key]

theorem layermap_trim_keeps_gets_rotated :
    ∃ m0 lm, fwmapNew ⟨4, 1, 1, 1, 16, 0⟩ 0 [0, 0, 0, 0] (0 : UInt8) = some m0 ∧
      layermapInsertNewLayerCp ⟨4, 1, 1, 1, 16, 0⟩ 0 [0, 0, 0, 0] 0
        (layermapPut (fwmapDefaultFuncs UInt8) ⟨m0, []⟩ 0 1 100 [1, 2, 3, 4] 7).1 = some lm ∧
      LayermapReachable (fwmapDefaultFuncs UInt8) lm ∧
      (layermapTrimStaleLayersCp lm 200).1.active = lm.active ∧
      ∀ (key : List UInt8) (t : UInt64), 200 ≤ t →
        layermapGet (fwmapDefaultFuncs UInt8) (layermapTrimStaleLayersCp lm 200).1 t key =
          layermapGet (fwmapDefaultFuncs UInt8) lm t key := by
  refine ⟨_, _, rfl, rfl, ?_⟩
  have first := @LayermapReachable.init _ _ (fwmapDefaultFuncs UInt8) ⟨4, 1, 1, 1, 16, 0⟩ 0 [0, 0, 0, 0] 0 _ rfl
  have put := @LayermapReachable.put _ _ (fwmapDefaultFuncs UInt8) _ 0 first (by decide) 1 100 [1, 2, 3, 4] 7
  have reach := @LayermapReachable.rotate _ _ (fwmapDefaultFuncs UInt8) _ _ ⟨4, 1, 1, 1, 16, 0⟩ 0 [0, 0, 0, 0] 0 put rfl
  exact ⟨reach, layermap_trim_keeps_gets reach 200⟩

end Yanet
