import Mathlib
import Yanet.Fwstate.LayermapRefine

set_option autoImplicit false

namespace Yanet

variable {K V : Type}

-- What a get right after a put needs of a map. FwmapInv asks for key comparisons that are equality;
-- the fwstate ones skip the padding of the key header, so a put of a fwstate key is read back here.
def SignedChain (chain : List FwmapSlot) : Prop :=
  ∃ used n, chain = used ++ List.replicate n FwmapSlot.empty ∧ ∀ s ∈ used, s.deadline ≠ 0 ∧ s.sig ≠ 0

structure FwmapShape (m : Fwmap K V) : Prop where
  signed : ∀ b, SignedChain (m.chains b)
  indexSize_lt : m.indexSize < 2 ^ 32

-- The slot a put took, after it: the key written when the slot was new to it, then the value.
def Fwmap.fill (m : Fwmap K V) (e : FwmapEntry) (key : K) (w : V) : Fwmap K V :=
  (if e.empty then m.setKey e.idx key else m).setValue e.idx w

namespace Fwmap

variable (m : Fwmap K V) (e : FwmapEntry) (key : K) (w : V)

@[simp] theorem fill_chains : (m.fill e key w).chains = m.chains := by
  unfold fill
  split <;> rfl

@[simp] theorem fill_indexSize : (m.fill e key w).indexSize = m.indexSize := by
  unfold fill
  split <;> rfl

@[simp] theorem fill_bucketOf (funcs : FwmapFuncs K V) : (m.fill e key w).bucketOf funcs = m.bucketOf funcs := by
  unfold fill
  split <;> rfl

@[simp] theorem fill_keySig (funcs : FwmapFuncs K V) : (m.fill e key w).keySig funcs = m.keySig funcs := by
  unfold fill
  split <;> rfl

@[simp] theorem fill_valueStore_self : (m.fill e key w).valueStore e.idx = w := by
  unfold fill
  split <;> simp

theorem fill_keyStore_of_ne {i : Nat} (hi : i ≠ e.idx) : (m.fill e key w).keyStore i = m.keyStore i := by
  unfold fill
  split <;> simp [hi]

theorem fill_keyStore_of_empty (he : e.empty = true) : (m.fill e key w).keyStore e.idx = key := by
  simp [fill, he]

theorem fill_keyStore_of_full (he : e.empty = false) : (m.fill e key w).keyStore e.idx = m.keyStore e.idx := by
  simp [fill, he]

end Fwmap

theorem find?_map_eq_of_first {α β : Type} {l : List α} {pred : α → Bool} {f : α → β} {c : β} {p : Nat} {y : α}
    (hy : l[p]? = some y) (py : pred y = true) (fy : f y = c)
    (before : ∀ q < p, ∀ x, l[q]? = some x → pred x = true → f x = c) : (l.find? pred).map f = some c := by
  obtain ⟨x, hx⟩ := Option.isSome_iff_exists.mp (List.find?_isSome.mpr ⟨y, List.mem_of_getElem? hy, py⟩)
  obtain ⟨px, i, hi, hxi, first⟩ := List.find?_eq_some_iff_getElem.mp hx
  have hxq : l[i]? = some x := by rw [List.getElem?_eq_getElem hi, hxi]
  rw [hx, Option.map_some, Option.some.injEq]
  rcases Nat.lt_trichotomy i p with lt | rfl | gt
  · exact before i lt x hxq px
  · rw [hxq, Option.some.injEq] at hy
    rw [hy, fy]
  · -- `y` comes before the first match
    have hp : p < l.length := (List.getElem?_eq_some_iff.mp hy).1
    have skipped := first p gt
    rw [List.getElem?_eq_getElem hp, Option.some.injEq] at hy
    rw [hy, py] at skipped
    cases skipped

theorem FwmapShape.of_same {m m' : Fwmap K V} (shape : FwmapShape m) (chains : m'.chains = m.chains)
    (size : m'.indexSize = m.indexSize) : FwmapShape m' :=
  ⟨fun b => chains ▸ shape.signed b, size ▸ shape.indexSize_lt⟩

theorem fwmapShape_new {config : FwmapConfig} {rand : UInt64} {zeroKey : K} {zeroValue : V} {m : Fwmap K V}
    (h : fwmapNew config rand zeroKey zeroValue = some m) : FwmapShape m := by
  obtain ⟨chains, -, size⟩ := fwmapNew_fields h
  exact ⟨fun b => ⟨[], FWMAP_BUCKET_ENTRIES, by rw [chains]; rfl, by simp⟩, size⟩

section Entry

variable {funcs : FwmapFuncs K V} {m m1 : Fwmap K V} {worker : Nat} {now ttl : UInt64} {key : K}

theorem FwmapShape.entry (shape : FwmapShape m) (dated : now + ttl ≠ 0) {r : Option FwmapEntry}
    (h : fwmapEntry funcs m worker now ttl key = (m1, r)) : FwmapShape m1 := by
  obtain ⟨used, n, hchain, hsigned⟩ := shape.signed (m.bucketOf funcs key)
  have hused : ∀ s ∈ used, s.deadline ≠ 0 := fun s hs => (hsigned s hs).1
  -- every outcome leaves the key's chain a signed prefix followed by never-used slots
  have keep : ∀ {used' : List FwmapSlot} {j cursor : Nat}, (∀ s ∈ used', s.deadline ≠ 0 ∧ s.sig ≠ 0) →
      ChainEffect m m1 (m.bucketOf funcs key) (used' ++ List.replicate j FwmapSlot.empty) cursor → FwmapShape m1 := by
    intro used' j cursor signed effect
    refine ⟨fun b => ?_, effect.indexSize ▸ shape.indexSize_lt⟩
    rw [effect.chains]
    by_cases hb : b = m.bucketOf funcs key
    · subst hb
      rw [Function.update_self]
      exact ⟨used', j, rfl, signed⟩
    · rw [Function.update_of_ne hb]
      exact shape.signed b
  have setSigned : ∀ {p : Nat} {new : FwmapSlot}, new.deadline ≠ 0 ∧ new.sig ≠ 0 →
      ∀ s ∈ used.set p new, s.deadline ≠ 0 ∧ s.sig ≠ 0 := by
    intro p new hnew s hs
    rcases List.mem_or_eq_of_mem_set hs with hs | rfl
    · exact hsigned s hs
    · exact hnew
  cases fwmapEntry_outcome funcs m worker now ttl key hchain hused h with
  | @found p s hs _ _ effect =>
    exact keep (@setSigned p { s with deadline := now + ttl } ⟨dated, (hsigned s (List.mem_of_getElem? hs)).2⟩) effect
  | @reuse p s _ _ _ effect =>
    exact keep (@setSigned p ⟨m.keySig funcs key, now + ttl, s.idx⟩ ⟨dated, Fwmap.keySig_ne_zero funcs m key⟩) effect
  | fresh _ _ effect =>
    rw [← List.singleton_append, ← List.append_assoc] at effect
    refine keep (fun s hs => ?_) effect
    rcases List.mem_append.mp hs with hs | hs
    · exact hsigned s hs
    · rw [List.mem_singleton.mp hs]
      exact ⟨dated, Fwmap.keySig_ne_zero funcs m key⟩
  | fail effect => exact keep hsigned effect

theorem FwmapShape.get_fill (shape : FwmapShape m) (refl : ∀ k, funcs.keyEqual k k = true) (live : now < now + ttl)
    {e : FwmapEntry} (h : fwmapEntry funcs m worker now ttl key = (m1, some e)) (w : V) :
    fwmapGet funcs (m1.fill e key w) now key = some e.idx := by
  obtain ⟨used, n, hchain, hsigned⟩ := shape.signed (m.bucketOf funcs key)
  have hused : ∀ s ∈ used, s.deadline ≠ 0 := fun s hs => (hsigned s hs).1
  have got : ∀ {used' : List FwmapSlot} {j cursor p : Nat} {new : FwmapSlot},
      ChainEffect m m1 (m.bucketOf funcs key) (used' ++ List.replicate j FwmapSlot.empty) cursor →
      (∀ s ∈ used', s.sig ≠ 0) → used'[p]? = some new → new.sig = m.keySig funcs key → now < new.deadline →
      new.idx.toNat = e.idx → funcs.keyEqual key ((m1.fill e key w).keyStore e.idx) = true →
      (∀ q < p, ∀ x, used'[q]? = some x → x.idx.toNat ≠ e.idx → ¬EntryHit funcs m key x) →
      fwmapGet funcs (m1.fill e key w) now key = some e.idx := by
    intro used' j cursor p new effect sigs hnew hsig hlive hidx hkey hbefore
    have chain : (m1.fill e key w).chains ((m1.fill e key w).bucketOf funcs key) =
        used' ++ List.replicate j FwmapSlot.empty := by
      rw [Fwmap.fill_chains, Fwmap.fill_bucketOf, effect.bucketOf, effect.chains, Function.update_self]
    have sig : (m1.fill e key w).keySig funcs key = m.keySig funcs key := by
      rw [Fwmap.fill_keySig, effect.keySig]
    simp only [fwmapGet, fwmapGetValueAndDeadline, chain,
      getScan_used funcs _ now key (Fwmap.keySig_ne_zero funcs _ key) j used' sigs, Option.map_map, sig]
    refine find?_map_eq_of_first hnew ?_ hidx ?_
    · simp only [Bool.and_eq_true, decide_eq_true_eq, hidx]
      exact ⟨⟨hsig, hlive⟩, hkey⟩
    · intro q hq x hx px
      by_contra hne
      change x.idx.toNat ≠ e.idx at hne
      simp only [Bool.and_eq_true, decide_eq_true_eq] at px
      rw [Fwmap.fill_keyStore_of_ne m1 e key w hne, effect.keyStore] at px
      exact hbefore q hq x hx hne ⟨px.1.1, px.2⟩
  have sigs : ∀ s ∈ used, s.sig ≠ 0 := fun s hs => (hsigned s hs).2
  -- a slot new to the key is given the key; any other already holds it
  have keyed : (e.empty = false → funcs.keyEqual key (m1.keyStore e.idx) = true) →
      funcs.keyEqual key ((m1.fill e key w).keyStore e.idx) = true := by
    intro full
    cases he : e.empty
    · rw [Fwmap.fill_keyStore_of_full m1 e key w he]
      exact full he
    · rw [Fwmap.fill_keyStore_of_empty m1 e key w he]
      exact refl key
  cases fwmapEntry_outcome funcs m worker now ttl key hchain hused h with
  | @found p s hs hit before effect =>
    have hp : p < used.length := (List.getElem?_eq_some_iff.mp hs).1
    refine got effect (fun x hx => ?_) (List.getElem?_set_self hp) hit.1 live rfl ?_ fun q hq x hx _ => ?_
    · rcases List.mem_or_eq_of_mem_set hx with hx | rfl
      · exact sigs x hx
      · exact sigs s (List.mem_of_getElem? hs)
    · refine keyed fun _ => ?_
      rw [effect.keyStore]
      exact hit.2
    · rw [List.getElem?_set_ne (Nat.ne_of_lt hq).symm] at hx
      exact before q hq x hx
  | @reuse p s miss hs _ effect =>
    have hp : p < used.length := (List.getElem?_eq_some_iff.mp hs).1
    refine got effect (fun x hx => ?_) (List.getElem?_set_self hp) rfl live rfl (keyed fun he => by cases he) fun q hq x hx _ => ?_
    · rcases List.mem_or_eq_of_mem_set hx with hx | rfl
      · exact sigs x hx
      · exact Fwmap.keySig_ne_zero funcs m key
    · rw [List.getElem?_set_ne (Nat.ne_of_lt hq).symm] at hx
      exact miss x (List.mem_of_getElem? hx)
  | @fresh j miss room effect =>
    rw [← List.singleton_append, ← List.append_assoc] at effect
    have fitsIdx : (UInt32.ofNat m.keyCursor).toNat = m.keyCursor :=
      UInt32.toNat_ofNat_of_lt' (Nat.lt_of_lt_of_le room (Nat.le_of_lt shape.indexSize_lt))
    refine got effect (fun x hx => ?_) List.getElem?_concat_length rfl live fitsIdx (keyed fun he => by cases he)
      fun q hq x hx _ => ?_
    · rcases List.mem_append.mp hx with hx | hx
      · exact sigs x hx
      · rw [List.mem_singleton.mp hx]
        exact Fwmap.keySig_ne_zero funcs m key
    · rw [List.getElem?_append_left hq] at hx
      exact miss x (List.mem_of_getElem? hx)

theorem FwmapShape.entry_empty (shape : FwmapShape m) {e : FwmapEntry}
    (h : fwmapEntry funcs m worker now ttl key = (m1, some e)) (absent : fwmapGet funcs m now key = none) :
    e.empty = true := by
  obtain ⟨used, n, hchain, hsigned⟩ := shape.signed (m.bucketOf funcs key)
  have hused : ∀ s ∈ used, s.deadline ≠ 0 := fun s hs => (hsigned s hs).1
  have sigs : ∀ s ∈ used, s.sig ≠ 0 := fun s hs => (hsigned s hs).2
  cases fwmapEntry_outcome funcs m worker now ttl key hchain hused h with
  | @found p s hs hit _ _ =>
    refine decide_eq_true (UInt64.not_lt.mp fun live => ?_)
    simp only [fwmapGet, fwmapGetValueAndDeadline, hchain,
      getScan_used funcs m now key (Fwmap.keySig_ne_zero funcs m key) n used sigs, Option.map_map,
      Option.map_eq_none_iff, List.find?_eq_none] at absent
    have := absent s (List.mem_of_getElem? hs)
    simp only [Bool.and_eq_true, decide_eq_true_eq] at this
    exact this ⟨⟨hit.1, live⟩, hit.2⟩
  | reuse => rfl
  | fresh => rfl

end Entry

section Layermap

variable {funcs : FwmapFuncs K V} {lm : Layermap K V} {worker : Nat} {now ttl : UInt64} {key : K} {value : V}

theorem layermapPut_of_some_fill {active : Fwmap K V} {e : FwmapEntry}
    (h : fwmapEntry funcs lm.active worker now ttl key = (active, some e)) :
    layermapPut funcs lm worker now ttl key value =
      (⟨active.fill e key (layermapStoredValue funcs lm.older now key value (active.valueStore e.idx) e.empty),
        lm.older⟩, (e.idx : Int)) :=
  layermapPut_of_some value h

theorem FwmapShape.put_active (shape : FwmapShape lm.active) (dated : now + ttl ≠ 0) :
    FwmapShape (layermapPut funcs lm worker now ttl key value).1.active := by
  rcases hentry : fwmapEntry funcs lm.active worker now ttl key with ⟨m1, _ | e⟩
  · rw [layermapPut_of_none value hentry]
    exact shape.entry dated hentry
  · rw [layermapPut_of_some_fill hentry]
    exact (shape.entry dated hentry).of_same (Fwmap.fill_chains _ _ _ _) (Fwmap.fill_indexSize _ _ _ _)

theorem FwmapShape.rotate {config : FwmapConfig} {rand : UInt64} {zeroKey : K} {zeroValue : V} {lm' : Layermap K V}
    (h : layermapInsertNewLayerCp config rand zeroKey zeroValue lm = some lm') : FwmapShape lm'.active := by
  obtain ⟨layer, created, rfl⟩ := Option.map_eq_some_iff.mp h
  exact fwmapShape_new created

theorem layermapGet_of_active {i : Nat} (h : fwmapGet funcs lm.active now key = some i) :
    layermapGet funcs lm now key = some (lm.active.valueStore i) := by
  obtain ⟨⟨i', d⟩, hget, rfl⟩ := Option.map_eq_some_iff.mp h
  simp [layermapGet, layermapGetInternal, hget]

theorem layermapGet_eq_none (h : layermapGet funcs lm now key = none) :
    fwmapGet funcs lm.active now key = none ∧ layersGet funcs now key lm.older = none := by
  simp only [layermapGet, layermapGetInternal, Option.map_eq_none_iff] at h
  cases hget : fwmapGetValueAndDeadline funcs lm.active now key with
  | some r => simp [hget] at h
  | none =>
    rw [hget] at h
    exact ⟨by simp [fwmapGet, hget], h⟩

theorem FwmapShape.layermapGet_put (shape : FwmapShape lm.active) (refl : ∀ k, funcs.keyEqual k k = true)
    (live : now < now + ttl) (succeeded : (layermapPut funcs lm worker now ttl key value).2 ≠ -1) :
    (layermapGet funcs (layermapPut funcs lm worker now ttl key value).1 now key).isSome ∧
      ((∀ dst src, funcs.updateValue dst src true = src) → layermapGet funcs lm now key = none →
        layermapGet funcs (layermapPut funcs lm worker now ttl key value).1 now key = some value) := by
  rcases hentry : fwmapEntry funcs lm.active worker now ttl key with ⟨m1, _ | e⟩
  · rw [layermapPut_of_none value hentry] at succeeded
    exact absurd rfl succeeded
  rw [layermapPut_of_some_fill hentry]
  have found : layermapGet funcs ⟨m1.fill e key (layermapStoredValue funcs lm.older now key value (m1.valueStore e.idx)
      e.empty), lm.older⟩ now key = some _ := layermapGet_of_active (shape.get_fill refl live hentry _)
  refine ⟨by rw [found]; rfl, fun empty absent => ?_⟩
  obtain ⟨activeMiss, olderMiss⟩ := layermapGet_eq_none absent
  have fresh := shape.entry_empty hentry activeMiss
  rw [found, Fwmap.fill_valueStore_self, fresh, layermapStoredValue_new _ _ olderMiss, empty]

end Layermap

end Yanet
