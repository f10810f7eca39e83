import Mathlib.Tactic.Common

set_option autoImplicit false

-- Maximal runs of a function on `0 … n - 1`, read block by block. A scan keeps the runs it has
-- closed and the open run `first … last`; a block of the open run's value extends it, a block of
-- another value closes it and opens the next. Runs of the value `skip` are dropped when closed.
-- After the blocks `0 … n - 1`, closing the open run leaves the maximal runs of every other value,
-- in order, and every position of another value lies in one of them.

namespace Runs

variable {β : Type}

structure Scan (β : Type) where
  out : List (Nat × Nat × β)
  first : Nat
  last : Nat
  value : β

section Read

variable [DecidableEq β]

-- The closed runs and the open one, unless it is of `skip`.
def Scan.close (skip : β) (s : Scan β) : List (Nat × Nat × β) :=
  if s.value ≠ skip then s.out ++ [(s.first, s.last, s.value)] else s.out

-- Reading the block `a … b`, all of value `v`.
def Scan.block (skip : β) (s : Scan β) (a b : Nat) (v : β) : Scan β :=
  if s.value ≠ v then { out := s.close skip, first := a, last := b, value := v } else { s with last := b }

end Read

-- `run` is a maximal run of `f` on `0 … n - 1`, of a value other than `skip`.
structure IsRun (skip : β) (f : Nat → β) (n : Nat) (run : Nat × Nat × β) : Prop where
  le : run.1 ≤ run.2.1
  lt : run.2.1 < n
  kept : run.2.2 ≠ skip
  const : ∀ x, run.1 ≤ x → x ≤ run.2.1 → f x = run.2.2
  left : run.1 = 0 ∨ f (run.1 - 1) ≠ run.2.2
  right : run.2.1 + 1 = n ∨ f (run.2.1 + 1) ≠ run.2.2

section Extend

variable {skip : β} {f : Nat → β} {first n : Nat} {w : β} {run : Nat × Nat × β}

-- A run maximal before the left-maximal block `first … n - 1` of another value stays maximal.
theorem IsRun.extend (isRun : IsRun skip f first run) (le : first ≤ n)
    (const : ∀ x, first ≤ x → x < n → f x = w) (left : first = 0 ∨ f (first - 1) ≠ w) : IsRun skip f n run := by
  refine ⟨isRun.le, Nat.lt_of_lt_of_le isRun.lt le, isRun.kept, isRun.const, isRun.left, ?_⟩
  rcases isRun.right with adjacent | differs
  · rcases Nat.eq_or_lt_of_le le with same | before
    · exact .inl (adjacent.trans same)
    · -- the next block starts right after the run, with a value the run does not have
      have other : f run.2.1 ≠ w := by
        rcases left with zero | differs
        · omega
        · rwa [← adjacent, Nat.add_sub_cancel] at differs
      have inside := isRun.const run.2.1 isRun.le (Nat.le_refl _)
      refine .inr fun same => other ?_
      rw [inside, ← same, adjacent]
      exact const first (Nat.le_refl _) before
  · exact .inr differs

end Extend

-- The scan has read the blocks of `0 … n - 1`: the open run is a left-maximal run of `f` ending at
-- `n - 1`, and the closed runs are the maximal runs before it, in order, covering every position
-- of a kept value.
structure ScanInv (skip : β) (f : Nat → β) (n : Nat) (s : Scan β) : Prop where
  first_lt : 0 < n → s.first < n
  start : n = 0 → s.first = 0 ∧ s.value = skip
  last : 0 < n → s.last + 1 = n
  const : ∀ x, s.first ≤ x → x < n → f x = s.value
  left : s.first = 0 ∨ f (s.first - 1) ≠ s.value
  closed : ∀ run ∈ s.out, IsRun skip f s.first run
  covers : ∀ x < s.first, f x ≠ skip → ∃ run ∈ s.out, run.1 ≤ x ∧ x ≤ run.2.1
  sorted : s.out.Pairwise fun r t => r.2.1 < t.1

section Scan

variable {skip : β} {f : Nat → β} {n : Nat} {s : Scan β}

theorem scanInv_init (f : Nat → β) (skip : β) : ScanInv skip f 0 ⟨[], 0, 0, skip⟩ :=
  ⟨fun pos => absurd pos (Nat.lt_irrefl 0), fun _ => ⟨rfl, rfl⟩, fun pos => absurd pos (Nat.lt_irrefl 0),
    fun _ _ lt => absurd lt (Nat.not_lt_zero _), .inl rfl, fun _ mem => absurd mem List.not_mem_nil,
    fun _ lt => absurd lt (Nat.not_lt_zero _), List.Pairwise.nil⟩

theorem ScanInv.first_le (inv : ScanInv skip f n s) : s.first ≤ n := by
  rcases Nat.eq_zero_or_pos n with zero | pos
  · rw [(inv.start zero).1]
    exact Nat.zero_le n
  · exact Nat.le_of_lt (inv.first_lt pos)

theorem ScanInv.open_isRun (inv : ScanInv skip f n s) (kept : s.value ≠ skip) :
    IsRun skip f n (s.first, s.last, s.value) := by
  have pos : 0 < n := Nat.pos_of_ne_zero fun zero => kept (inv.start zero).2
  have first := inv.first_lt pos
  have last := inv.last pos
  exact ⟨by dsimp only; omega, by dsimp only; omega, kept, fun x lo hi => inv.const x lo (by dsimp only at hi; omega),
    inv.left, .inl last⟩

variable [DecidableEq β]

theorem ScanInv.close_isRun (inv : ScanInv skip f n s) : ∀ run ∈ s.close skip, IsRun skip f n run := by
  intro run mem
  unfold Scan.close at mem
  split at mem
  · rcases List.mem_append.mp mem with old | current
    · exact (inv.closed run old).extend inv.first_le inv.const inv.left
    · rw [List.mem_singleton.mp current]
      exact inv.open_isRun ‹_›
  · exact (inv.closed run mem).extend inv.first_le inv.const inv.left

theorem ScanInv.close_covers (inv : ScanInv skip f n s) :
    ∀ x < n, f x ≠ skip → ∃ run ∈ s.close skip, run.1 ≤ x ∧ x ≤ run.2.1 := by
  intro x lt kept
  have closedPart : ∀ run ∈ s.out, run ∈ s.close skip := by
    intro run mem
    unfold Scan.close
    split
    · exact List.mem_append_left _ mem
    · exact mem
  by_cases before : x < s.first
  · obtain ⟨run, mem, lo, hi⟩ := inv.covers x before kept
    exact ⟨run, closedPart run mem, lo, hi⟩
  · -- `x` lies in the open run, whose value is `f x`
    have value := inv.const x (Nat.le_of_not_lt before) lt
    have last := inv.last (Nat.lt_of_le_of_lt (Nat.zero_le x) lt)
    refine ⟨(s.first, s.last, s.value), ?_, Nat.le_of_not_lt before, by dsimp only; omega⟩
    unfold Scan.close
    rw [if_pos (value ▸ kept)]
    exact List.mem_append_right _ (List.mem_singleton_self _)

theorem ScanInv.close_sorted (inv : ScanInv skip f n s) : (s.close skip).Pairwise fun r t => r.2.1 < t.1 := by
  unfold Scan.close
  split
  · refine List.pairwise_append.mpr ⟨inv.sorted, List.pairwise_singleton _ _, fun r mem t current => ?_⟩
    rw [List.mem_singleton.mp current]
    exact (inv.closed r mem).lt
  · exact inv.sorted

-- Reading the next block keeps the invariant.
theorem ScanInv.block (inv : ScanInv skip f n s) {b : Nat} {v : β} (le : n ≤ b)
    (const : ∀ x, n ≤ x → x ≤ b → f x = v) : ScanInv skip f (b + 1) (s.block skip n b v) := by
  have firstLe := inv.first_le
  unfold Scan.block
  split
  · -- another value: the open run is closed and `n … b` opens
    rename_i differs
    refine ⟨fun _ => by dsimp only; omega, fun zero => absurd zero (Nat.succ_ne_zero b), fun _ => rfl,
      fun x lo hi => const x lo (by omega), ?_, inv.close_isRun, inv.close_covers, inv.close_sorted⟩
    rcases Nat.eq_zero_or_pos n with zero | pos
    · exact .inl zero
    · refine .inr ?_
      dsimp only
      rw [inv.const (n - 1) (by have := inv.first_lt pos; omega) (by omega)]
      exact differs
  · -- the same value: the open run grows to `b`
    rename_i same
    have same : s.value = v := not_not.mp same
    refine ⟨fun _ => by dsimp only; omega, fun zero => absurd zero (Nat.succ_ne_zero b), fun _ => rfl, ?_,
      inv.left, inv.closed, inv.covers, inv.sorted⟩
    intro x lo hi
    rcases Nat.lt_or_ge x n with before | after
    · exact inv.const x lo before
    · rw [const x after (by omega), same]

end Scan

end Runs
