import Mathlib
import Yanet.Lib.TtlMap
import Yanet.Fwstate.FwmapChain

set_option autoImplicit false

-- The invariant fwmap keeps, and the TTL map it implements. A used slot sits in
-- the chain of its key's bucket, carries the key's signature and an index below
-- the key cursor, and no key has two used slots; the used slots live after `t`
-- are exactly the entries of the TTL map live after `t`. fwmap_entry keeps the
-- invariant, and fwmap_get reads the TTL map.

namespace Yanet

open TtlMap

variable {K V : Type}

-- The registry functions behave as fwmap_entry assumes: keys compare equal exactly when they
-- are, and a value written into an empty slot is the value given.
structure FwmapFuncs.Lawful (funcs : FwmapFuncs K V) : Prop where
  keyEqual_iff : ∀ a b, funcs.keyEqual a b = true ↔ a = b
  updateValue_empty : ∀ dst src, funcs.updateValue dst src true = src

namespace Fwmap

def slotKey (m : Fwmap K V) (s : FwmapSlot) : K := m.keyStore s.idx.toNat

def slotValue (m : Fwmap K V) (s : FwmapSlot) : V := m.valueStore s.idx.toNat

def UsedSlot (m : Fwmap K V) (b p : Nat) (s : FwmapSlot) : Prop := (m.chains b)[p]? = some s ∧ s.deadline ≠ 0

theorem sigOf_ne_zero (hash : UInt32) : sigOf hash ≠ 0 := by
  simp only [sigOf]
  split
  · decide
  · assumption

theorem keySig_ne_zero (funcs : FwmapFuncs K V) (m : Fwmap K V) (key : K) : m.keySig funcs key ≠ 0 :=
  sigOf_ne_zero _

@[simp] theorem setKey_chains (m : Fwmap K V) (i : Nat) (k : K) : (m.setKey i k).chains = m.chains := rfl
@[simp] theorem setKey_valueStore (m : Fwmap K V) (i : Nat) (k : K) : (m.setKey i k).valueStore = m.valueStore := rfl
@[simp] theorem setKey_keyStore (m : Fwmap K V) (i : Nat) (k : K) :
    (m.setKey i k).keyStore = Function.update m.keyStore i k := rfl
@[simp] theorem setValue_chains (m : Fwmap K V) (i : Nat) (v : V) : (m.setValue i v).chains = m.chains := rfl
@[simp] theorem setValue_keyStore (m : Fwmap K V) (i : Nat) (v : V) : (m.setValue i v).keyStore = m.keyStore := rfl
@[simp] theorem setValue_valueStore (m : Fwmap K V) (i : Nat) (v : V) :
    (m.setValue i v).valueStore = Function.update m.valueStore i v := rfl

@[simp] theorem setKey_keyCursor (m : Fwmap K V) (i : Nat) (k : K) : (m.setKey i k).keyCursor = m.keyCursor := rfl
@[simp] theorem setValue_keyCursor (m : Fwmap K V) (i : Nat) (v : V) : (m.setValue i v).keyCursor = m.keyCursor := rfl
@[simp] theorem setKey_indexSize (m : Fwmap K V) (i : Nat) (k : K) : (m.setKey i k).indexSize = m.indexSize := rfl
@[simp] theorem setValue_indexSize (m : Fwmap K V) (i : Nat) (v : V) : (m.setValue i v).indexSize = m.indexSize := rfl
@[simp] theorem setKey_bucketOf (funcs : FwmapFuncs K V) (m : Fwmap K V) (i : Nat) (k : K) :
    (m.setKey i k).bucketOf funcs = m.bucketOf funcs := rfl
@[simp] theorem setValue_bucketOf (funcs : FwmapFuncs K V) (m : Fwmap K V) (i : Nat) (v : V) :
    (m.setValue i v).bucketOf funcs = m.bucketOf funcs := rfl
@[simp] theorem setKey_keySig (funcs : FwmapFuncs K V) (m : Fwmap K V) (i : Nat) (k : K) :
    (m.setKey i k).keySig funcs = m.keySig funcs := rfl
@[simp] theorem setValue_keySig (funcs : FwmapFuncs K V) (m : Fwmap K V) (i : Nat) (v : V) :
    (m.setValue i v).keySig funcs = m.keySig funcs := rfl

theorem setKey_self (m : Fwmap K V) {i : Nat} {k : K} (h : m.keyStore i = k) : m.setKey i k = m := by
  subst h
  simp [setKey]

end Fwmap

-- fwmap_entry's effect on what the lookups read: chain `b` became `chain`, the key cursor moved to
-- `cursor`, and the stores and the hashing stayed.
structure ChainEffect (m m1 : Fwmap K V) (b : Nat) (chain : List FwmapSlot) (cursor : Nat) : Prop where
  chains : m1.chains = Function.update m.chains b chain
  keyStore : m1.keyStore = m.keyStore
  valueStore : m1.valueStore = m.valueStore
  keyCursor : m1.keyCursor = cursor
  indexSize : m1.indexSize = m.indexSize
  hashSeed : m1.hashSeed = m.hashSeed
  indexMask : m1.indexMask = m.indexMask

theorem ChainEffect.bucketOf {m m1 : Fwmap K V} {b : Nat} {chain : List FwmapSlot} {cursor : Nat}
    (effect : ChainEffect m m1 b chain cursor) (funcs : FwmapFuncs K V) : m1.bucketOf funcs = m.bucketOf funcs := by
  funext key
  simp [Fwmap.bucketOf, Fwmap.hash32, effect.hashSeed, effect.indexMask]

theorem ChainEffect.keySig {m m1 : Fwmap K V} {b : Nat} {chain : List FwmapSlot} {cursor : Nat}
    (effect : ChainEffect m m1 b chain cursor) (funcs : FwmapFuncs K V) : m1.keySig funcs = m.keySig funcs := by
  funext key
  simp [Fwmap.keySig, Fwmap.hash32, effect.hashSeed]

section Entry

variable (funcs : FwmapFuncs K V) (m : Fwmap K V) (now ttl : UInt64) (key : K) (used : List FwmapSlot) (n : Nat)

def EntryHit (s : FwmapSlot) : Prop := s.sig = m.keySig funcs key ∧ funcs.keyEqual key (m.slotKey s) = true

-- How fwmap_entry can end on a chain `used ++ replicate n empty`: the key's slot gets the new
-- deadline, or an expired used slot or a never-used one (the chain's own or in a linked extra bucket)
-- is taken for the key; or it fails, having linked at most an empty bucket.
inductive EntryOutcome (m1 : Fwmap K V) : Option FwmapEntry → Prop
  | found {p : Nat} {s : FwmapSlot} : used[p]? = some s → EntryHit funcs m key s →
      (∀ q < p, ∀ x, used[q]? = some x → ¬EntryHit funcs m key x) →
      ChainEffect m m1 (m.bucketOf funcs key)
        (used.set p { s with deadline := now + ttl } ++ List.replicate n FwmapSlot.empty) m.keyCursor →
      EntryOutcome m1 (some ⟨s.idx.toNat, decide (s.deadline ≤ now)⟩)
  | reuse {p : Nat} {s : FwmapSlot} : (∀ x ∈ used, ¬EntryHit funcs m key x) → used[p]? = some s → s.deadline < now →
      ChainEffect m m1 (m.bucketOf funcs key)
        (used.set p ⟨m.keySig funcs key, now + ttl, s.idx⟩ ++ List.replicate n FwmapSlot.empty) m.keyCursor →
      EntryOutcome m1 (some ⟨s.idx.toNat, true⟩)
  | fresh {j : Nat} : (∀ x ∈ used, ¬EntryHit funcs m key x) → m.keyCursor < m.indexSize →
      ChainEffect m m1 (m.bucketOf funcs key)
        (used ++ ⟨m.keySig funcs key, now + ttl, UInt32.ofNat m.keyCursor⟩ :: List.replicate j FwmapSlot.empty)
        (m.keyCursor + 1) →
      EntryOutcome m1 (some ⟨m.keyCursor, true⟩)
  | fail {j : Nat} :
      ChainEffect m m1 (m.bucketOf funcs key) (used ++ List.replicate j FwmapSlot.empty) m.keyCursor →
      EntryOutcome m1 none

end Entry

theorem getD_used {used : List FwmapSlot} {n p : Nat} {s : FwmapSlot} (h : used[p]? = some s) :
    (used ++ List.replicate n FwmapSlot.empty).getD p FwmapSlot.empty = s := by
  rw [List.getD_eq_getElem?_getD, List.getElem?_append_left (List.getElem?_eq_some_iff.mp h).1, h]
  rfl

theorem getD_after_used (used : List FwmapSlot) {n : Nat} (hn : 0 < n) :
    (used ++ List.replicate n FwmapSlot.empty).getD used.length FwmapSlot.empty = FwmapSlot.empty := by
  rw [List.getD_eq_getElem?_getD, List.getElem?_append_right (Nat.le_refl _), Nat.sub_self,
    List.getElem?_replicate, if_pos hn]
  rfl

theorem fwmapSlotKey_fresh (m : Fwmap K V) (worker chainLength : Nat) (deadline : UInt64) :
    fwmapSlotKey m worker chainLength deadline FwmapSlot.empty =
      if m.indexSize ≤ m.keyCursor then none
      else some (fwmapUpdateCounters { m with keyCursor := m.keyCursor + 1 } worker chainLength 1 deadline, m.keyCursor) := by
  have never : ¬(0 : UInt64) < 0 := by decide
  simp only [fwmapSlotKey, FwmapSlot.empty, never, if_false, fwmapNextFreeKey]
  split <;> rfl

theorem fwmapSlotKey_used (m : Fwmap K V) (worker chainLength : Nat) (deadline : UInt64) {s : FwmapSlot}
    (hs : s.deadline ≠ 0) :
    fwmapSlotKey m worker chainLength deadline s = some (fwmapUpdateCounters m worker chainLength 0 deadline, s.idx.toNat) := by
  have : 0 < s.deadline := by
    rw [UInt64.lt_iff_toNat_lt]
    have : s.deadline.toNat ≠ 0 := fun h => hs (UInt64.toNat_inj.mp h)
    exact Nat.pos_of_ne_zero this
  simp [fwmapSlotKey, this]

theorem fresh_outcome (funcs : FwmapFuncs K V) (m m' : Fwmap K V) (now ttl : UInt64) (key : K)
    {used : List FwmapSlot} {n j : Nat} (worker chainLength : Nat) {m1 : Fwmap K V} {r : Option FwmapEntry}
    (miss : ∀ x ∈ used, ¬EntryHit funcs m key x)
    (effect : ChainEffect m m' (m.bucketOf funcs key) (used ++ List.replicate (j + 1) FwmapSlot.empty) m.keyCursor)
    (h : fwmapTakeSlot m' (m.bucketOf funcs key) used.length (m.keySig funcs key) (now + ttl) worker chainLength =
      (m1, r)) :
    EntryOutcome funcs m now ttl key used n m1 r := by
  have tail : (m'.chains (m.bucketOf funcs key)).getD used.length FwmapSlot.empty = FwmapSlot.empty := by
    rw [effect.chains, Function.update_self]
    exact getD_after_used used (Nat.succ_pos j)
  rw [fwmapTakeSlot, tail, fwmapSlotKey_fresh, effect.keyCursor, effect.indexSize] at h
  by_cases full : m.indexSize ≤ m.keyCursor
  · rw [if_pos full] at h
    cases h
    exact .fail effect
  · rw [if_neg full] at h
    cases h
    refine .fresh miss (Nat.lt_of_not_le full) (j := j) ⟨?_, ?_, ?_, ?_, ?_, ?_, ?_⟩ <;>
      simp [Fwmap.setChain, fwmapUpdateCounters, effect.chains, effect.keyStore, effect.valueStore,
        effect.hashSeed, effect.indexMask, List.replicate_succ]

theorem fwmapEntry_outcome (funcs : FwmapFuncs K V) (m : Fwmap K V) (worker : Nat) (now ttl : UInt64) (key : K)
    {used : List FwmapSlot} {n : Nat}
    (hchain : m.chains (m.bucketOf funcs key) = used ++ List.replicate n FwmapSlot.empty)
    (hused : ∀ s ∈ used, s.deadline ≠ 0) {m1 : Fwmap K V} {r : Option FwmapEntry}
    (h : fwmapEntry funcs m worker now ttl key = (m1, r)) : EntryOutcome funcs m now ttl key used n m1 r := by
  have spec := entryScan_spec funcs m now key (Fwmap.keySig_ne_zero funcs m key) n used hused 0 none
  rw [← hchain] at spec
  simp only [fwmapEntry] at h
  generalize entryScan funcs m now key (m.keySig funcs key) (m.chains (m.bucketOf funcs key)) 0 none = res at spec h
  have same : ChainEffect m m (m.bucketOf funcs key) (used ++ List.replicate n FwmapSlot.empty) m.keyCursor :=
    ⟨by rw [← hchain, Function.update_eq_self], rfl, rfl, rfl, rfl, rfl, rfl⟩
  match res, spec with
  | .found p _, ⟨i, s, hp, hs, hit, before⟩ =>
    -- the key's slot keeps its index and signature and takes the new deadline
    rw [Nat.zero_add] at hp
    subst hp
    dsimp only at h
    rw [hchain, getD_used hs] at h
    cases h
    refine .found hs hit before ⟨?_, ?_, ?_, ?_, ?_, ?_, ?_⟩ <;>
      simp [Fwmap.setChain, fwmapUpdateCounters, (List.getElem?_eq_some_iff.mp hs).1]
  | .vacant none _, ⟨miss, _, hn⟩ =>
    -- no vacancy in the chain: link an extra bucket and take its first slot
    subst hn
    dsimp only at h
    simp only [fwmapVacancy] at h
    by_cases exhausted : m.extraSize ≤ m.extraFreeIdx
    · rw [if_pos exhausted] at h
      cases h
      exact .fail same
    · rw [if_neg exhausted] at h
      simp only [hchain, List.replicate_zero, List.append_nil] at h
      refine fresh_outcome funcs m _ now ttl key worker _ miss (j := 3) ?_ h
      refine ⟨?_, rfl, rfl, rfl, rfl, rfl, rfl⟩
      simp [Fwmap.setChain, fwmapEmptyBucket, FWMAP_BUCKET_ENTRIES]
  | .vacant (some p) _, ⟨miss, where_⟩ =>
    dsimp only at h
    simp only [fwmapVacancy] at h
    rcases where_ with hnone | ⟨i, s, hp, hs, expired⟩ | ⟨hp, hn⟩
    · cases hnone
    · -- an expired used slot: its key index is reused
      rw [Nat.zero_add] at hp
      subst hp
      have live : s.deadline ≠ 0 := hused s (List.mem_of_getElem? hs)
      rw [fwmapTakeSlot, hchain, getD_used hs, fwmapSlotKey_used _ _ _ _ live] at h
      cases h
      refine .reuse miss hs expired ⟨?_, ?_, ?_, ?_, ?_, ?_, ?_⟩ <;>
        simp [Fwmap.setChain, fwmapUpdateCounters, hchain, (List.getElem?_eq_some_iff.mp hs).1]
    · -- the first never-used slot of the chain
      rw [Nat.zero_add] at hp
      subst hp
      obtain ⟨j, rfl⟩ : ∃ j, n = j + 1 := ⟨n - 1, by omega⟩
      exact fresh_outcome funcs m m now ttl key worker _ miss same h

-- What the map holds against the TTL map `A` after time `t`: each used slot sits in its key's
-- chain under the key's signature with an index below the key cursor, no key has two used slots,
-- and the used slots live after `t` are the live entries of `A`.
structure FwmapInv (funcs : FwmapFuncs K V) (m : Fwmap K V) (A : Store K V) (t : Nat) : Prop where
  chainWF : ∀ b, ChainWF (m.chains b)
  placed : ∀ {b p s}, m.UsedSlot b p s → m.bucketOf funcs (m.slotKey s) = b ∧ s.sig = m.keySig funcs (m.slotKey s)
  unique : ∀ {b p s b' p' s'}, m.UsedSlot b p s → m.UsedSlot b' p' s' → m.slotKey s = m.slotKey s' → b = b' ∧ p = p'
  idx_lt : ∀ {b p s}, m.UsedSlot b p s → s.idx.toNat < m.keyCursor
  cursor_le : m.keyCursor ≤ m.indexSize
  indexSize_lt : m.indexSize < 2 ^ 32
  complete : ∀ {k d v}, A k = some (d, v) → t < d →
    ∃ b p s, m.UsedSlot b p s ∧ m.slotKey s = k ∧ s.deadline.toNat = d ∧ m.slotValue s = v
  sound : ∀ {b p s}, m.UsedSlot b p s → t < s.deadline.toNat → A (m.slotKey s) = some (s.deadline.toNat, m.slotValue s)

theorem usedSlot_iff {m : Fwmap K V} {b p : Nat} {s : FwmapSlot} {used : List FwmapSlot} {n : Nat}
    (hchain : m.chains b = used ++ List.replicate n FwmapSlot.empty) (hused : ∀ s ∈ used, s.deadline ≠ 0) :
    m.UsedSlot b p s ↔ used[p]? = some s := by
  unfold Fwmap.UsedSlot
  rw [hchain]
  exact used_getElem?_iff hused

namespace FwmapInv

variable {funcs : FwmapFuncs K V} {m : Fwmap K V} {A : Store K V} {t : Nat}

theorem mono (inv : FwmapInv funcs m A t) {t' : Nat} (ht : t ≤ t') : FwmapInv funcs m A t' :=
  { inv with
    complete := fun hk hd => inv.complete hk (Nat.lt_of_le_of_lt ht hd)
    sound := fun hs hd => inv.sound hs (Nat.lt_of_le_of_lt ht hd) }

theorem hit_iff (lawful : funcs.Lawful) (inv : FwmapInv funcs m A t) {key : K} {b p : Nat} {s : FwmapSlot}
    (hs : m.UsedSlot b p s) : EntryHit funcs m key s ↔ m.slotKey s = key := by
  constructor
  · rintro ⟨-, heq⟩
    exact ((lawful.keyEqual_iff _ _).mp heq).symm
  · rintro rfl
    exact ⟨(inv.placed hs).2, (lawful.keyEqual_iff _ _).mpr rfl⟩

theorem key_absent (lawful : funcs.Lawful) (inv : FwmapInv funcs m A t) {key : K} {used : List FwmapSlot} {n : Nat}
    (hchain : m.chains (m.bucketOf funcs key) = used ++ List.replicate n FwmapSlot.empty)
    (hused : ∀ s ∈ used, s.deadline ≠ 0) (miss : ∀ x ∈ used, ¬EntryHit funcs m key x) {b p : Nat} {s : FwmapSlot}
    (hs : m.UsedSlot b p s) : m.slotKey s ≠ key := by
  intro hkey
  have hb : b = m.bucketOf funcs key := by rw [← hkey, (inv.placed hs).1]
  subst hb
  have hmem : s ∈ used := List.mem_of_getElem? ((usedSlot_iff hchain hused).mp hs)
  exact miss s hmem ((inv.hit_iff lawful hs).mpr hkey)

theorem complete_used (inv : FwmapInv funcs m A t) {key : K} {used : List FwmapSlot} {n : Nat}
    (hchain : m.chains (m.bucketOf funcs key) = used ++ List.replicate n FwmapSlot.empty)
    (hused : ∀ s ∈ used, s.deadline ≠ 0) {d : Nat} {v : V} (hk : A key = some (d, v)) (hd : t < d) :
    ∃ (p : Nat) (s : FwmapSlot), used[p]? = some s ∧ m.slotKey s = key ∧ s.deadline.toNat = d ∧ m.slotValue s = v := by
  obtain ⟨b, p, s, hs, hkey, hdl, hval⟩ := inv.complete hk hd
  have hb : b = m.bucketOf funcs key := by rw [← hkey, (inv.placed hs).1]
  subst hb
  exact ⟨p, s, (usedSlot_iff hchain hused).mp hs, hkey, hdl, hval⟩

theorem fill [DecidableEq K] (inv : FwmapInv funcs m A t) {T : Nat} (ht : t ≤ T) {m1 : Fwmap K V} {key : K} {w : V}
    {used used' : List FwmapSlot} {n j p idx cursor : Nat} {new : FwmapSlot}
    (hchain : m.chains (m.bucketOf funcs key) = used ++ List.replicate n FwmapSlot.empty)
    (hused : ∀ s ∈ used, s.deadline ≠ 0)
    (effect : ChainEffect m m1 (m.bucketOf funcs key) (used' ++ List.replicate j FwmapSlot.empty) cursor)
    (hset : ∀ q s, used'[q]? = some s ↔ (q = p ∧ s = new) ∨ (q ≠ p ∧ used[q]? = some s))
    (hsig : new.sig = m.keySig funcs key) (hdl : new.deadline ≠ 0) (hidx : new.idx.toNat = idx)
    (hcursor : idx < cursor) (hgrow : m.keyCursor ≤ cursor) (hbound : cursor ≤ m.indexSize)
    (replaced : ∀ s, used[p]? = some s → m.slotKey s = key ∨ s.deadline.toNat ≤ T)
    (otherIdx : ∀ {b' p' x}, m.UsedSlot b' p' x → ¬(b' = m.bucketOf funcs key ∧ p' = p) → x.idx.toNat ≠ idx)
    (otherKey : ∀ {b' p' x}, m.UsedSlot b' p' x → ¬(b' = m.bucketOf funcs key ∧ p' = p) → m.slotKey x ≠ key) :
    FwmapInv funcs ((m1.setKey idx key).setValue idx w) (Function.update A key (some (new.deadline.toNat, w))) T := by
  set b := m.bucketOf funcs key with hb
  set m2 := (m1.setKey idx key).setValue idx w
  have hused' : ∀ s ∈ used', s.deadline ≠ 0 := by
    intro s hs
    obtain ⟨q, hq⟩ := List.mem_iff_getElem?.mp hs
    rcases (hset q s).mp hq with ⟨-, rfl⟩ | ⟨-, hq⟩
    · exact hdl
    · exact hused s (List.mem_of_getElem? hq)
  -- the used slots after the write: the new slot at (b, p), and the old ones elsewhere
  have used2 : ∀ {b' p' x}, m2.UsedSlot b' p' x ↔
      (b' = b ∧ p' = p ∧ x = new) ∨ (¬(b' = b ∧ p' = p) ∧ m.UsedSlot b' p' x) := by
    intro b' p' x
    by_cases hb' : b' = b
    · subst hb'
      have h2 : m2.chains b = used' ++ List.replicate j FwmapSlot.empty := by
        simp [m2, effect.chains]
      rw [usedSlot_iff h2 hused', usedSlot_iff hchain hused, hset]
      by_cases hp : p' = p <;> simp [hp]
    · have h2 : m2.chains b' = m.chains b' := by simp [m2, effect.chains, hb']
      simp only [Fwmap.UsedSlot, h2, hb', false_and, false_or, not_false_eq_true, true_and]
  have keyNew : m2.slotKey new = key := by simp [m2, Fwmap.slotKey, hidx]
  have valueNew : m2.slotValue new = w := by simp [m2, Fwmap.slotValue, hidx]
  have keyOld : ∀ {x : FwmapSlot}, x.idx.toNat ≠ idx → m2.slotKey x = m.slotKey x := by
    intro x hx
    simp [m2, Fwmap.slotKey, hx, effect.keyStore]
  have valueOld : ∀ {x : FwmapSlot}, x.idx.toNat ≠ idx → m2.slotValue x = m.slotValue x := by
    intro x hx
    simp [m2, Fwmap.slotValue, hx, effect.valueStore]
  have bucket2 : m2.bucketOf funcs = m.bucketOf funcs := by simp [m2, effect.bucketOf]
  have sig2 : m2.keySig funcs = m.keySig funcs := by simp [m2, effect.keySig]
  refine ⟨?chainWF, ?placed, ?unique, ?idx_lt, ?cursor_le, ?indexSize_lt, ?complete, ?sound⟩
  case chainWF =>
    intro b'
    by_cases hb' : b' = b
    · subst hb'
      exact ⟨used', j, by simp [m2, effect.chains], hused'⟩
    · simpa [m2, effect.chains, hb'] using inv.chainWF b'
  case placed =>
    intro b' p' x hx
    rcases used2.mp hx with ⟨rfl, rfl, rfl⟩ | ⟨hne, hx⟩
    · rw [keyNew, bucket2, sig2]
      exact ⟨rfl, hsig⟩
    · rw [keyOld (otherIdx hx hne), bucket2, sig2]
      exact inv.placed hx
  case unique =>
    intro b₁ p₁ x₁ b₂ p₂ x₂ hx₁ hx₂ hkey
    rcases used2.mp hx₁ with ⟨rfl, rfl, rfl⟩ | ⟨hne₁, hx₁⟩ <;>
      rcases used2.mp hx₂ with ⟨rfl, rfl, rfl⟩ | ⟨hne₂, hx₂⟩
    · exact ⟨rfl, rfl⟩
    · rw [keyNew, keyOld (otherIdx hx₂ hne₂)] at hkey
      exact absurd hkey.symm (otherKey hx₂ hne₂)
    · rw [keyNew, keyOld (otherIdx hx₁ hne₁)] at hkey
      exact absurd hkey (otherKey hx₁ hne₁)
    · rw [keyOld (otherIdx hx₁ hne₁), keyOld (otherIdx hx₂ hne₂)] at hkey
      exact inv.unique hx₁ hx₂ hkey
  case idx_lt =>
    intro b' p' x hx
    rcases used2.mp hx with ⟨rfl, rfl, rfl⟩ | ⟨-, hx⟩
    · simpa [m2, effect.keyCursor, hidx] using hcursor
    · simpa [m2, effect.keyCursor] using Nat.lt_of_lt_of_le (inv.idx_lt hx) hgrow
  case cursor_le => simpa [m2, effect.keyCursor, effect.indexSize] using hbound
  case indexSize_lt => simpa [m2, effect.indexSize] using inv.indexSize_lt
  case complete =>
    intro k d v hk hd
    by_cases hkey : k = key
    · subst hkey
      simp only [Function.update_self, Option.some.injEq, Prod.mk.injEq] at hk
      obtain ⟨rfl, rfl⟩ := hk
      exact ⟨b, p, new, used2.mpr (.inl ⟨rfl, rfl, rfl⟩), keyNew, rfl, valueNew⟩
    · rw [Function.update_of_ne hkey] at hk
      obtain ⟨b', p', x, hx, hxkey, hxd, hxv⟩ := inv.complete hk (Nat.lt_of_le_of_lt ht hd)
      -- the slot replaced held `key` or had expired by `T`, so it is not `k`'s live slot
      have hne : ¬(b' = b ∧ p' = p) := by
        rintro ⟨rfl, rfl⟩
        rcases replaced x ((usedSlot_iff hchain hused).mp hx) with hx' | hx'
        · exact hkey (hxkey.symm.trans hx')
        · omega
      exact ⟨b', p', x, used2.mpr (.inr ⟨hne, hx⟩), by rw [keyOld (otherIdx hx hne), hxkey], hxd,
        by rw [valueOld (otherIdx hx hne), hxv]⟩
  case sound =>
    intro b' p' x hx hd
    rcases used2.mp hx with ⟨rfl, rfl, rfl⟩ | ⟨hne, hx⟩
    · rw [keyNew, valueNew, Function.update_self]
    · rw [keyOld (otherIdx hx hne), valueOld (otherIdx hx hne), Function.update_of_ne (otherKey hx hne)]
      exact inv.sound hx (Nat.lt_of_le_of_lt ht hd)

theorem grow (inv : FwmapInv funcs m A t) {T : Nat} (ht : t ≤ T) {m1 : Fwmap K V} {b : Nat}
    {used : List FwmapSlot} {n j : Nat} (hchain : m.chains b = used ++ List.replicate n FwmapSlot.empty)
    (hused : ∀ s ∈ used, s.deadline ≠ 0)
    (effect : ChainEffect m m1 b (used ++ List.replicate j FwmapSlot.empty) m.keyCursor) : FwmapInv funcs m1 A T := by
  have same : ∀ {b' p' x}, m1.UsedSlot b' p' x ↔ m.UsedSlot b' p' x := by
    intro b' p' x
    by_cases hb : b' = b
    · subst hb
      have h1 : m1.chains b' = used ++ List.replicate j FwmapSlot.empty := by simp [effect.chains]
      rw [usedSlot_iff h1 hused, usedSlot_iff hchain hused]
    · simp [Fwmap.UsedSlot, effect.chains, hb]
  have key1 : m1.slotKey = m.slotKey := by funext x; simp [Fwmap.slotKey, effect.keyStore]
  have value1 : m1.slotValue = m.slotValue := by funext x; simp [Fwmap.slotValue, effect.valueStore]
  have inv' := inv.mono ht
  refine ⟨?chainWF, ?placed, ?unique, ?idx_lt, ?cursor_le, ?indexSize_lt, ?complete, ?sound⟩
  case chainWF =>
    intro b'
    by_cases hb : b' = b
    · subst hb
      exact ⟨used, j, by simp [effect.chains], hused⟩
    · simpa [effect.chains, hb] using inv.chainWF b'
  case placed =>
    intro b' p' x hx
    rw [key1, effect.bucketOf, effect.keySig]
    exact inv.placed (same.mp hx)
  case unique =>
    intro b₁ p₁ x₁ b₂ p₂ x₂ hx₁ hx₂ hkey
    rw [key1] at hkey
    exact inv.unique (same.mp hx₁) (same.mp hx₂) hkey
  case idx_lt =>
    intro b' p' x hx
    rw [effect.keyCursor]
    exact inv.idx_lt (same.mp hx)
  case cursor_le => rw [effect.keyCursor, effect.indexSize]; exact inv.cursor_le
  case indexSize_lt => rw [effect.indexSize]; exact inv.indexSize_lt
  case complete =>
    intro k d v hk hd
    obtain ⟨b', p', x, hx, rest⟩ := inv'.complete hk hd
    exact ⟨b', p', x, same.mpr hx, by rwa [key1, value1]⟩
  case sound =>
    intro b' p' x hx hd
    rw [key1, value1]
    exact inv'.sound (same.mp hx) hd

section Entry

variable {worker : Nat} {now ttl : UInt64} {key : K} {m1 : Fwmap K V}

theorem entry_none (inv : FwmapInv funcs m A t) (ht : t ≤ now.toNat)
    (h : fwmapEntry funcs m worker now ttl key = (m1, none)) : FwmapInv funcs m1 A now.toNat := by
  obtain ⟨used, n, hchain, hused⟩ := inv.chainWF (m.bucketOf funcs key)
  cases fwmapEntry_outcome funcs m worker now ttl key hchain hused h with
  | fail effect => exact inv.grow ht hchain hused effect

theorem entry_lookup (lawful : funcs.Lawful) (inv : FwmapInv funcs m A t) (ht : t ≤ now.toNat) {e : FwmapEntry}
    (h : fwmapEntry funcs m worker now ttl key = (m1, some e)) :
    lookup A now.toNat key = if e.empty then none else some (m1.valueStore e.idx) := by
  obtain ⟨used, n, hchain, hused⟩ := inv.chainWF (m.bucketOf funcs key)
  -- no key with a live entry was missed by the walk
  have missed : (∀ x ∈ used, ¬EntryHit funcs m key x) → lookup A now.toNat key = none := by
    intro miss
    refine lookup_eq_none.mpr fun d v hk => Nat.le_of_not_lt fun hd => ?_
    obtain ⟨p, s, hs, hkey, -⟩ := inv.complete_used hchain hused hk (by omega)
    exact inv.key_absent lawful hchain hused miss ((usedSlot_iff hchain hused).mpr hs) hkey
  cases fwmapEntry_outcome funcs m worker now ttl key hchain hused h with
  | @found p s hs hit _ effect =>
    have used_s : m.UsedSlot (m.bucketOf funcs key) p s := (usedSlot_iff hchain hused).mpr hs
    have hkey : m.slotKey s = key := (inv.hit_iff lawful used_s).mp hit
    by_cases expired : s.deadline ≤ now
    · simp only [expired, decide_true, if_true]
      refine lookup_eq_none.mpr fun d v hk => Nat.le_of_not_lt fun hd => ?_
      obtain ⟨q, x, hx, hxkey, hxd, -⟩ := inv.complete_used hchain hused hk (by omega)
      have hpq := (inv.unique used_s ((usedSlot_iff hchain hused).mpr hx) (hkey.trans hxkey.symm)).2
      subst hpq
      rw [hs] at hx
      cases hx
      rw [UInt64.le_iff_toNat_le] at expired
      omega
    · simp only [decide_eq_false expired, Bool.false_eq_true, if_false, effect.valueStore]
      rw [UInt64.le_iff_toNat_le, Nat.not_le] at expired
      have hA := inv.sound used_s (by omega)
      rw [hkey] at hA
      exact lookup_eq_some.mpr ⟨_, hA, expired⟩
  | reuse miss _ _ _ => exact missed miss
  | fresh miss _ _ => exact missed miss

theorem entry_key (lawful : funcs.Lawful) (inv : FwmapInv funcs m A t) {e : FwmapEntry}
    (h : fwmapEntry funcs m worker now ttl key = (m1, some e)) (full : e.empty = false) : m1.keyStore e.idx = key := by
  obtain ⟨used, n, hchain, hused⟩ := inv.chainWF (m.bucketOf funcs key)
  cases fwmapEntry_outcome funcs m worker now ttl key hchain hused h with
  | @found p s hs hit _ effect =>
    rw [effect.keyStore]
    exact (inv.hit_iff lawful ((usedSlot_iff hchain hused).mpr hs)).mp hit
  | reuse => cases full
  | fresh => cases full

theorem entry_some [DecidableEq K] (lawful : funcs.Lawful) (inv : FwmapInv funcs m A t) (ht : t ≤ now.toNat)
    (fits : now.toNat + ttl.toNat < 2 ^ 64) (hpos : 0 < now.toNat + ttl.toNat) {e : FwmapEntry}
    (h : fwmapEntry funcs m worker now ttl key = (m1, some e)) (w : V) :
    FwmapInv funcs ((m1.setKey e.idx key).setValue e.idx w) (Function.update A key (some ((now + ttl).toNat, w)))
      now.toNat := by
  obtain ⟨used, n, hchain, hused⟩ := inv.chainWF (m.bucketOf funcs key)
  have hdl : now + ttl ≠ 0 := by
    intro h0
    have := congrArg UInt64.toNat h0
    rw [UInt64.toNat_add, Nat.mod_eq_of_lt fits] at this
    simp only [UInt64.toNat_zero] at this
    omega
  -- the positions a `set` at `p < used.length` changes
  have setAt : ∀ {p : Nat} {x s : FwmapSlot}, used[p]? = some x → ∀ q y,
      (used.set p s)[q]? = some y ↔ (q = p ∧ y = s) ∨ (q ≠ p ∧ used[q]? = some y) := by
    intro p x s hx q y
    have hp := (List.getElem?_eq_some_iff.mp hx).1
    rw [List.getElem?_set]
    by_cases hq : p = q
    · subst hq
      simp [hp, eq_comm]
    · simp [hq, Ne.symm hq]
  -- a slot holding another key's index would hold the same key as the slot at `(b, p)`
  have sameIdx : ∀ {p : Nat} {s : FwmapSlot}, m.UsedSlot (m.bucketOf funcs key) p s →
      ∀ {b' p' x}, m.UsedSlot b' p' x → ¬(b' = m.bucketOf funcs key ∧ p' = p) → x.idx.toNat ≠ s.idx.toNat := by
    intro p s hs b' p' x hx hne heq
    exact hne (inv.unique hx hs (by simp only [Fwmap.slotKey, heq]))
  cases fwmapEntry_outcome funcs m worker now ttl key hchain hused h with
  | @found p s hs hit _ effect =>
    have used_s := (usedSlot_iff hchain hused).mpr hs
    have hkey : m.slotKey s = key := (inv.hit_iff lawful used_s).mp hit
    exact inv.fill ht hchain hused effect (setAt hs) hit.1 hdl rfl (inv.idx_lt used_s) (Nat.le_refl _) inv.cursor_le
      (fun x hx => .inl (by rw [hs] at hx; cases hx; exact hkey)) (sameIdx used_s)
      (fun hx hne hk => hne (inv.unique hx used_s (hk.trans hkey.symm)))
  | @reuse p s miss hs expired effect =>
    have used_s := (usedSlot_iff hchain hused).mpr hs
    exact inv.fill ht hchain hused effect (setAt hs) rfl hdl rfl (inv.idx_lt used_s) (Nat.le_refl _) inv.cursor_le
      (fun x hx => .inr (by rw [hs] at hx; cases hx; exact Nat.le_of_lt (UInt64.lt_iff_toNat_lt.mp expired)))
      (sameIdx used_s) (fun hx _ => inv.key_absent lawful hchain hused miss hx)
  | @fresh j miss room effect =>
    have fitsIdx : (UInt32.ofNat m.keyCursor).toNat = m.keyCursor :=
      UInt32.toNat_ofNat_of_lt' (Nat.lt_of_lt_of_le room (Nat.le_of_lt inv.indexSize_lt))
    rw [← List.singleton_append, ← List.append_assoc] at effect
    -- the new slot goes right after the used prefix
    have appendAt : ∀ q y, (used ++ [⟨m.keySig funcs key, now + ttl, UInt32.ofNat m.keyCursor⟩])[q]? = some y ↔
        (q = used.length ∧ y = ⟨m.keySig funcs key, now + ttl, UInt32.ofNat m.keyCursor⟩) ∨
          (q ≠ used.length ∧ used[q]? = some y) := by
      intro q y
      rw [List.getElem?_append]
      by_cases hq : q < used.length
      · simp [hq, Nat.ne_of_lt hq]
      · by_cases he : q = used.length
        · subst he
          simp [eq_comm]
        · have beyond : q - used.length ≠ 0 := by omega
          simp [hq, he, beyond]
    exact inv.fill ht hchain hused effect appendAt rfl hdl fitsIdx (Nat.lt_succ_self _) (Nat.le_succ _) room
      (fun x hx => by simp at hx) (fun hx _ => Nat.ne_of_lt (inv.idx_lt hx))
      (fun hx _ => inv.key_absent lawful hchain hused miss hx)

end Entry

end FwmapInv

theorem fwmapPut_of_none (funcs : FwmapFuncs K V) {m m1 : Fwmap K V} {worker : Nat} {now ttl : UInt64} {key : K}
    (value : V) (h : fwmapEntry funcs m worker now ttl key = (m1, none)) :
    fwmapPut funcs m worker now ttl key value = (m1, -1) := by
  simp [fwmapPut, h]

theorem fwmapPut_of_some (funcs : FwmapFuncs K V) {m m1 : Fwmap K V} {worker : Nat} {now ttl : UInt64} {key : K}
    (value : V) {e : FwmapEntry} (h : fwmapEntry funcs m worker now ttl key = (m1, some e)) :
    fwmapPut funcs m worker now ttl key value =
      ((if e.empty then m1.setKey e.idx key else m1).setValue e.idx (funcs.updateValue (m1.valueStore e.idx) value e.empty),
        (e.idx : Int)) := by
  simp only [fwmapPut, h]
  split <;> rfl

-- The merge a successful fwmap_put makes with a live value, as a TTL-map write.
def fwmapMerge (funcs : FwmapFuncs K V) (old value : V) : V := funcs.updateValue old value false

namespace FwmapInv

variable {funcs : FwmapFuncs K V} {m : Fwmap K V} {A : Store K V} {t : Nat}
variable {worker : Nat} {now ttl : UInt64} {key : K} {value : V}

theorem put_fail (inv : FwmapInv funcs m A t) (ht : t ≤ now.toNat)
    (h : (fwmapPut funcs m worker now ttl key value).2 = -1) :
    FwmapInv funcs (fwmapPut funcs m worker now ttl key value).1 A now.toNat := by
  rcases hentry : fwmapEntry funcs m worker now ttl key with ⟨m1, _ | e⟩
  · rw [fwmapPut_of_none funcs value hentry]
    exact inv.entry_none ht hentry
  · rw [fwmapPut_of_some funcs value hentry] at h
    omega

theorem put_ok [DecidableEq K] (lawful : funcs.Lawful) (inv : FwmapInv funcs m A t) (ht : t ≤ now.toNat)
    (fits : now.toNat + ttl.toNat < 2 ^ 64) (hpos : 0 < now.toNat + ttl.toNat)
    (h : (fwmapPut funcs m worker now ttl key value).2 ≠ -1) :
    FwmapInv funcs (fwmapPut funcs m worker now ttl key value).1
      (write (fwmapMerge funcs) A now.toNat key (now + ttl).toNat value) now.toNat := by
  rcases hentry : fwmapEntry funcs m worker now ttl key with ⟨m1, _ | e⟩
  · rw [fwmapPut_of_none funcs value hentry] at h
    exact absurd rfl h
  · rw [fwmapPut_of_some funcs value hentry]
    have keyed : (if e.empty then m1.setKey e.idx key else m1) = m1.setKey e.idx key := by
      cases full : e.empty
      · rw [if_neg Bool.false_ne_true, Fwmap.setKey_self m1 (inv.entry_key lawful hentry full)]
      · rw [if_pos rfl]
    -- the value written is the one the TTL-map write stores: a merge into a live entry, else the new value
    rw [keyed, write, inv.entry_lookup lawful ht hentry]
    cases e.empty
    · exact inv.entry_some lawful ht fits hpos hentry _
    · rw [lawful.updateValue_empty]
      exact inv.entry_some lawful ht fits hpos hentry _

theorem get (lawful : funcs.Lawful) (inv : FwmapInv funcs m A t) (ht : t ≤ now.toNat) (key : K) :
    (fwmapGet funcs m now key).map m.valueStore = lookup A now.toNat key := by
  obtain ⟨used, n, hchain, hused⟩ := inv.chainWF (m.bucketOf funcs key)
  have sigs : ∀ s ∈ used, s.sig ≠ 0 := by
    intro s hs
    obtain ⟨p, hp⟩ := List.mem_iff_getElem?.mp hs
    rw [(inv.placed ((usedSlot_iff hchain hused).mpr hp)).2]
    exact Fwmap.keySig_ne_zero funcs m _
  simp only [fwmapGet, fwmapGetValueAndDeadline, hchain,
    getScan_used funcs m now key (Fwmap.keySig_ne_zero funcs m key) n used sigs, Option.map_map]
  cases hfind : used.find? (fun s => decide (s.sig = m.keySig funcs key ∧ now < s.deadline) &&
      funcs.keyEqual key (m.keyStore s.idx.toNat)) with
  | some s =>
    have hcond := List.find?_some hfind
    simp only [Bool.and_eq_true, decide_eq_true_eq] at hcond
    obtain ⟨p, hp⟩ := List.mem_iff_getElem?.mp (List.mem_of_find?_eq_some hfind)
    have used_s := (usedSlot_iff hchain hused).mpr hp
    have hkey : m.slotKey s = key := (inv.hit_iff lawful used_s).mp ⟨hcond.1.1, hcond.2⟩
    have live : now.toNat < s.deadline.toNat := UInt64.lt_iff_toNat_lt.mp hcond.1.2
    have hA := inv.sound used_s (by omega)
    rw [hkey] at hA
    exact (lookup_eq_some.mpr ⟨_, hA, live⟩).symm
  | none =>
    -- a live entry would have a used slot the walk stops at
    refine (lookup_eq_none.mpr fun d v hk => Nat.le_of_not_lt fun hd => ?_).symm
    obtain ⟨p, x, hx, hxkey, hxd, -⟩ := inv.complete_used hchain hused hk (by omega)
    have used_x := (usedSlot_iff hchain hused).mpr hx
    refine List.find?_eq_none.mp hfind x (List.mem_of_getElem? hx) ?_
    have hit : EntryHit funcs m key x := (inv.hit_iff lawful used_x).mpr hxkey
    simp only [Bool.and_eq_true, decide_eq_true_eq]
    exact ⟨⟨hit.1, UInt64.lt_iff_toNat_lt.mpr (by omega)⟩, hit.2⟩

end FwmapInv

theorem fwmapNew_fields {config : FwmapConfig} {rand : UInt64} {zeroKey : K} {zeroValue : V} {m : Fwmap K V}
    (h : fwmapNew config rand zeroKey zeroValue = some m) :
    m.chains = (fun _ => fwmapEmptyBucket) ∧ m.keyCursor = 0 ∧ m.indexSize < 2 ^ 32 := by
  simp only [fwmapNew] at h
  split_ifs at h <;> cases h <;> exact ⟨rfl, rfl, UInt32.toNat_lt _⟩

theorem fwmapInv_new (funcs : FwmapFuncs K V) {config : FwmapConfig} {rand : UInt64} {zeroKey : K}
    {zeroValue : V} {m : Fwmap K V} (h : fwmapNew config rand zeroKey zeroValue = some m) :
    FwmapInv funcs m TtlMap.empty 0 := by
  obtain ⟨chains, cursor, size⟩ := fwmapNew_fields h
  have unused : ∀ {p : Nat} {s : FwmapSlot}, fwmapEmptyBucket[p]? = some s → s.deadline ≠ 0 → False :=
    fun hs live => live (replicate_empty_getElem? hs)
  have never : ∀ {b p : Nat} {s : FwmapSlot}, m.UsedSlot b p s → False := by
    intro b p s hs
    rw [Fwmap.UsedSlot, chains] at hs
    exact unused hs.1 hs.2
  exact {
    chainWF := fun _ => chains ▸ chainWF_emptyBucket
    placed := fun hs => (never hs).elim
    unique := fun hs _ _ => (never hs).elim
    idx_lt := fun hs => (never hs).elim
    cursor_le := cursor ▸ Nat.zero_le _
    indexSize_lt := size
    complete := fun hk _ => by cases hk
    sound := fun hs _ => (never hs).elim }

end Yanet
