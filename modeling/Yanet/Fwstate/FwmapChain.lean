import Yanet.Fwstate.Fwmap

set_option autoImplicit false

-- The two walks over a bucket chain, on a chain whose used slots come first:
-- what fwmap_get_value_and_deadline finds, and where fwmap_entry settles.

namespace Yanet

variable {K V : Type}

-- Used slots (deadline set) first, then never-used ones; both walks stop at the first never-used
-- slot.
def ChainWF (chain : List FwmapSlot) : Prop :=
  ∃ used n, chain = used ++ List.replicate n FwmapSlot.empty ∧ ∀ s ∈ used, s.deadline ≠ 0

theorem chainWF_emptyBucket : ChainWF fwmapEmptyBucket :=
  ⟨[], FWMAP_BUCKET_ENTRIES, rfl, by simp⟩

theorem replicate_empty_getElem? {n p : Nat} {s : FwmapSlot} (h : (List.replicate n FwmapSlot.empty)[p]? = some s) :
    s.deadline = 0 := by
  rw [List.getElem?_replicate] at h
  split at h
  · cases h
    rfl
  · cases h

theorem used_getElem?_iff {used : List FwmapSlot} {n p : Nat} {s : FwmapSlot} (hused : ∀ s ∈ used, s.deadline ≠ 0) :
    (used ++ List.replicate n FwmapSlot.empty)[p]? = some s ∧ s.deadline ≠ 0 ↔ used[p]? = some s := by
  constructor
  · rintro ⟨slot, live⟩
    by_cases hp : p < used.length
    · rwa [List.getElem?_append_left hp] at slot
    · rw [List.getElem?_append_right (by omega)] at slot
      exact absurd (replicate_empty_getElem? slot) live
  · intro slot
    have hp : p < used.length := (List.getElem?_eq_some_iff.mp slot).1
    exact ⟨by rwa [List.getElem?_append_left hp], hused s (List.mem_of_getElem? slot)⟩

theorem getScan_used (funcs : FwmapFuncs K V) (m : Fwmap K V) (now : UInt64) (key : K) {sig : UInt16}
    (hsig : sig ≠ 0) (n : Nat) (used : List FwmapSlot) (hused : ∀ s ∈ used, s.sig ≠ 0) :
    getScan funcs m now key sig (used ++ List.replicate n FwmapSlot.empty) =
      (used.find? fun s => decide (s.sig = sig ∧ now < s.deadline) && funcs.keyEqual key (m.keyStore s.idx.toNat)).map
        fun s => (s.idx.toNat, s.deadline) := by
  induction used with
  | nil =>
    cases n with
    | zero => rfl
    | succ n =>
      have : FwmapSlot.empty.sig ≠ sig := fun h => hsig h.symm
      simp [getScan, List.replicate_succ, FwmapSlot.empty]
  | cons s used ih =>
    have ih := ih fun x hx => hused x (List.mem_cons_of_mem s hx)
    have hs : s.sig ≠ 0 := hused s List.mem_cons_self
    simp only [List.cons_append, getScan, List.find?_cons]
    by_cases live : s.sig = sig ∧ now < s.deadline
    · cases funcs.keyEqual key (m.keyStore s.idx.toNat) <;> simp [live, ih]
    · simp [live, hs, ih]

-- What fwmap_entry's walk over `used ++ replicate n empty`, entered at `pos` with candidate `cand`,
-- can end with: the key's slot, or no key and a vacancy (the candidate carried in, an expired used
-- slot, or the first never-used slot), or no key and no vacancy in a chain with no never-used slot.
def EntryScan.Spec (hit : FwmapSlot → Prop) (now : UInt64) (used : List FwmapSlot) (n pos : Nat)
    (cand : Option Nat) : EntryScan → Prop
  | .found p _ => ∃ i s, p = pos + i ∧ used[i]? = some s ∧ hit s ∧ ∀ j < i, ∀ x, used[j]? = some x → ¬hit x
  | .vacant none _ => (∀ s ∈ used, ¬hit s) ∧ cand = none ∧ n = 0
  | .vacant (some p) _ => (∀ s ∈ used, ¬hit s) ∧
      (cand = some p ∨ (∃ i s, p = pos + i ∧ used[i]? = some s ∧ s.deadline < now) ∨ (p = pos + used.length ∧ 0 < n))

theorem entryScan_spec (funcs : FwmapFuncs K V) (m : Fwmap K V) (now : UInt64) (key : K) {sig : UInt16}
    (hsig : sig ≠ 0) (n : Nat) (used : List FwmapSlot) (hused : ∀ s ∈ used, s.deadline ≠ 0) (pos : Nat)
    (cand : Option Nat) :
    EntryScan.Spec (fun s => s.sig = sig ∧ funcs.keyEqual key (m.keyStore s.idx.toNat) = true) now used n pos cand
      (entryScan funcs m now key sig (used ++ List.replicate n FwmapSlot.empty) pos cand) := by
  induction used generalizing pos cand with
  | nil =>
    cases n with
    | zero =>
      cases cand with
      | none => exact ⟨by simp, rfl, rfl⟩
      | some p => exact ⟨by simp, .inl rfl⟩
    | succ n =>
      -- the first never-used slot ends the walk and is the vacancy unless one was found before
      have : FwmapSlot.empty.sig ≠ sig := fun h => hsig h.symm
      simp only [List.nil_append, List.replicate_succ, entryScan, this, false_and, if_false]
      simp only [FwmapSlot.empty, if_true]
      cases cand with
      | none => by_cases h : 0 < now <;> simp [EntryScan.Spec, h]
      | some p => simp [EntryScan.Spec]
  | cons s used ih =>
    have ih := ih fun x hx => hused x (List.mem_cons_of_mem s hx)
    have hs : s.deadline ≠ 0 := hused s List.mem_cons_self
    simp only [List.cons_append, entryScan, hs, if_false]
    by_cases hit : s.sig = sig ∧ funcs.keyEqual key (m.keyStore s.idx.toNat) = true
    · rw [if_pos hit]
      exact ⟨0, s, rfl, rfl, hit, fun j hj => absurd hj (Nat.not_lt_zero j)⟩
    · rw [if_neg hit]
      generalize hcand : (if s.deadline < now ∧ cand = none then some pos else cand) = cand'
      have step := ih (pos + 1) cand'
      generalize entryScan funcs m now key sig (used ++ List.replicate n FwmapSlot.empty) (pos + 1) cand' = r at step
      -- the walk moved one slot on: shift the positions the rest of it reports
      match r, step with
      | .found p _, ⟨i, x, hp, hx, hitx, before⟩ =>
        refine ⟨i + 1, x, by omega, hx, hitx, fun j hj y hy => ?_⟩
        cases j with
        | zero =>
          cases hy
          exact hit
        | succ j => exact before j (by omega) y hy
      | .vacant none _, ⟨miss, hnone, hn⟩ =>
        refine ⟨List.forall_mem_cons.mpr ⟨hit, miss⟩, ?_, hn⟩
        by_cases h : s.deadline < now ∧ cand = none
        · rw [if_pos h, hnone] at hcand
          cases hcand
        · rwa [if_neg h, hnone] at hcand
      | .vacant (some p) _, ⟨miss, where_⟩ =>
        refine ⟨List.forall_mem_cons.mpr ⟨hit, miss⟩, ?_⟩
        rcases where_ with rfl | ⟨i, x, rfl, hx, expired⟩ | ⟨rfl, hn⟩
        · by_cases h : s.deadline < now ∧ cand = none
          · rw [if_pos h] at hcand
            cases hcand
            exact .inr (.inl ⟨0, s, rfl, rfl, h.1⟩)
          · rw [if_neg h] at hcand
            exact .inl hcand
        · exact .inr (.inl ⟨i + 1, x, by omega, hx, expired⟩)
        · exact .inr (.inr ⟨by simp; omega, hn⟩)

end Yanet
