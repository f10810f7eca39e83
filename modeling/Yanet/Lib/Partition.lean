import Mathlib.Data.List.Range
import Mathlib.Logic.Function.Basic

set_option autoImplicit false

-- Labellings that tell cells apart by the sets they belong to. A family of sets `S 0, S 1, …`
-- over a domain of cells is refined one set at a time; a labelling *separates* the first `n`
-- sets when two cells get the same label exactly when those sets cannot tell them apart. Cells
-- are then found in a set by their label alone. Labels are renumbered densely by the rank among
-- the labels in use, and the number of cells holding a label is a count over the cells.

namespace Partition

section Separates

variable {ι κ κ' : Type} (D : Set ι) (S : Nat → ι → Prop)

-- On the cells of `D`, `key` agrees exactly where the sets `S 0 … S (n - 1)` do.
def Separates (n : Nat) (key : ι → κ) : Prop :=
  ∀ i ∈ D, ∀ j ∈ D, key i = key j ↔ ∀ r < n, (S r i ↔ S r j)

variable {D S}

theorem separates_zero {key : ι → κ} {k : κ} (const : ∀ i ∈ D, key i = k) : Separates D S 0 key := by
  intro i hi j hj
  simp [const i hi, const j hj]

theorem Separates.refine {n : Nat} {key : ι → κ} {key' : ι → κ'} (sep : Separates D S n key)
    (step : ∀ i ∈ D, ∀ j ∈ D, key' i = key' j ↔ (S n i ↔ S n j) ∧ key i = key j) :
    Separates D S (n + 1) key' := by
  intro i hi j hj
  rw [step i hi j hj, sep i hi j hj]
  constructor
  · rintro ⟨now, before⟩ r lt
    rcases Nat.lt_succ_iff_lt_or_eq.mp lt with old | rfl
    · exact before r old
    · exact now
  · intro all
    exact ⟨all n (Nat.lt_succ_self n), fun r lt => all r (Nat.lt_succ_of_lt lt)⟩

theorem Separates.map {n : Nat} {key : ι → κ} {key' : ι → κ'} (sep : Separates D S n key) (f : κ → κ')
    (eq : ∀ i ∈ D, key' i = f (key i)) (inj : ∀ i ∈ D, ∀ j ∈ D, f (key i) = f (key j) → key i = key j) :
    Separates D S n key' := by
  intro i hi j hj
  rw [eq i hi, eq j hj, ← sep i hi j hj]
  exact ⟨inj i hi j hj, congrArg f⟩

theorem Separates.mem_iff {n : Nat} {key : ι → κ} (sep : Separates D S n key) {r : Nat} (lt : r < n)
    {i : ι} (hi : i ∈ D) : S r i ↔ ∃ j ∈ D, S r j ∧ key j = key i := by
  constructor
  · intro mem
    exact ⟨i, hi, mem, rfl⟩
  · rintro ⟨j, hj, mem, same⟩
    exact ((sep j hj i hi).mp same r lt).mp mem

end Separates

section Count

-- The number of cells below `n` labelled `k`.
def holders (n : Nat) (key : Nat → Nat) (k : Nat) : Nat := (List.range n).countP fun i => key i = k

theorem holders_update (key : Nat → Nat) {n x : Nat} (lt : x < n) (b k : Nat) :
    holders n (Function.update key x b) k + (if key x = k then 1 else 0) =
      holders n key k + (if b = k then 1 else 0) := by
  induction n with
  | zero => exact absurd lt (Nat.not_lt_zero x)
  | succ n ih =>
    simp only [holders, List.range_succ, List.countP_append, List.countP_singleton] at ih ⊢
    rcases Nat.lt_succ_iff_lt_or_eq.mp lt with below | rfl
    · have ne : n ≠ x := Nat.ne_of_gt below
      simp only [Function.update_of_ne ne]
      have := ih below
      omega
    · have same : (List.range x).countP (fun i => Function.update key x b i = k) =
          (List.range x).countP (fun i => key i = k) := by
        apply List.countP_congr
        intro i mem
        rw [Function.update_of_ne (Nat.ne_of_lt (List.mem_range.mp mem))]
      simp only [Function.update_self, same]
      split <;> split <;> simp_all

theorem holders_pos {n : Nat} {key : Nat → Nat} {i : Nat} (lt : i < n) : 0 < holders n key (key i) :=
  List.countP_pos_iff.mpr ⟨i, List.mem_range.mpr lt, by simp⟩

-- The rank of `k` among the labels for which `used` holds.
def rank (used : Nat → Prop) [DecidablePred used] (k : Nat) : Nat := (List.range k).countP fun j => used j

theorem rank_succ (used : Nat → Prop) [DecidablePred used] (k : Nat) :
    rank used (k + 1) = rank used k + if used k then 1 else 0 := by
  simp [rank, List.range_succ, List.countP_append]

theorem rank_mono (used : Nat → Prop) [DecidablePred used] {k l : Nat} (le : k ≤ l) : rank used k ≤ rank used l := by
  induction l with
  | zero => rw [Nat.le_zero.mp le]
  | succ l ih =>
    rcases Nat.le_succ_iff.mp le with below | rfl
    · rw [rank_succ]
      exact Nat.le_add_right_of_le (ih below)
    · exact Nat.le_refl _

theorem rank_lt_rank (used : Nat → Prop) [DecidablePred used] {k l : Nat} (held : used k) (lt : k < l) :
    rank used k < rank used l :=
  calc rank used k < rank used (k + 1) := by simp [rank_succ, held]
    _ ≤ rank used l := rank_mono used lt

theorem rank_inj (used : Nat → Prop) [DecidablePred used] {k l : Nat} (hk : used k) (hl : used l)
    (same : rank used k = rank used l) : k = l := by
  rcases Nat.lt_trichotomy k l with lt | eq | gt
  · exact absurd same (Nat.ne_of_lt (rank_lt_rank used hk lt))
  · exact eq
  · exact absurd same (Nat.ne_of_gt (rank_lt_rank used hl gt))

theorem exists_rank_eq (used : Nat → Prop) [DecidablePred used] {n v : Nat} (lt : v < rank used n) :
    ∃ k < n, used k ∧ rank used k = v := by
  induction n with
  | zero => simp [rank] at lt
  | succ n ih =>
    rw [rank_succ] at lt
    rcases Nat.lt_or_ge v (rank used n) with below | above
    · obtain ⟨k, klt, hk, eq⟩ := ih below
      exact ⟨k, Nat.lt_succ_of_lt klt, hk, eq⟩
    · by_cases hn : used n
      · rw [if_pos hn] at lt
        exact ⟨n, Nat.lt_succ_self n, hn, by omega⟩
      · rw [if_neg hn] at lt
        omega

end Count

end Partition
