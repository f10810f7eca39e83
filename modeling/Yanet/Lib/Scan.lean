import Mathlib

set_option autoImplicit false

-- Rules for the loops of a model: a counted loop written as a fold over `List.range n`, a fold
-- whose step agrees with another's on the states it reaches, the scan of `0..n` that returns the
-- first index passing a test (or `n`), and where a threshold test changes value in a sorted list.

namespace Scan

variable {α β : Type}

-- The invariant rule of a counted loop.
theorem foldl_range_induction (inv : Nat → β → Prop) (f : β → Nat → β) (init : β) (n : Nat)
    (start : inv 0 init) (step : ∀ j b, j < n → inv j b → inv (j + 1) (f b j)) :
    inv n ((List.range n).foldl f init) := by
  induction n with
  | zero => exact start
  | succ n ih =>
    rw [List.range_succ, List.foldl_append, List.foldl_cons, List.foldl_nil]
    exact step n _ (Nat.lt_succ_self n) (ih fun j b lt => step j b (Nat.lt_succ_of_lt lt))

theorem foldl_congr_of_inv (inv : β → Prop) {f g : β → α → β} (l : List α) {init : β} (start : inv init)
    (keep : ∀ b x, inv b → inv (f b x)) (agree : ∀ b x, inv b → f b x = g b x) :
    l.foldl f init = l.foldl g init := by
  induction l generalizing init with
  | nil => rfl
  | cons x l ih =>
    rw [List.foldl_cons, List.foldl_cons, ← agree init x start]
    exact ih (keep init x start)

theorem find?_range_getD_spec (n : Nat) (p : Nat → Bool) :
    ((List.range n).find? p).getD n ≤ n ∧ (∀ i < ((List.range n).find? p).getD n, p i = false) ∧
      (((List.range n).find? p).getD n < n → p (((List.range n).find? p).getD n) = true) := by
  cases found : (List.range n).find? p with
  | none =>
    rw [List.find?_range_eq_none] at found
    refine ⟨le_rfl, fun i lt => ?_, fun lt => absurd lt (Nat.lt_irrefl n)⟩
    simpa using found i lt
  | some m =>
    obtain ⟨pass, mem, before⟩ := List.find?_range_eq_some.mp found
    refine ⟨(List.mem_range.mp mem).le, fun i lt => ?_, fun _ => pass⟩
    simpa using before i lt

theorem getElem_not_mem_take {l : List α} (nodup : l.Nodup) {k n : Nat} (inside : k < l.length) (past : n ≤ k) :
    l[k] ∉ l.take n := by
  intro mem
  obtain ⟨j, lt, same⟩ := List.mem_iff_getElem.mp mem
  rw [List.getElem_take] at same
  have := (nodup.getElem_inj_iff).mp same
  rw [List.length_take] at lt
  omega

-- In a sorted list the elements passing a test closed downwards come first: the `k`-th passes
-- exactly when `k` is below their number.
theorem pass_iff_lt_countP [LE α] {l : List α} (sorted : l.Pairwise (· ≤ ·)) (q : α → Bool)
    (down : ∀ x y, x ≤ y → q y = true → q x = true) {k : Nat} (inside : k < l.length) :
    q l[k] = true ↔ k < l.countP q := by
  induction l generalizing k with
  | nil => exact absurd inside (Nat.not_lt_zero k)
  | cons a l ih =>
    obtain ⟨above, sorted⟩ := List.pairwise_cons.mp sorted
    by_cases first : q a = true
    · rw [List.countP_cons_of_pos first]
      cases k with
      | zero => exact ⟨fun _ => Nat.succ_pos _, fun _ => first⟩
      | succ k =>
        rw [List.getElem_cons_succ, ih sorted (Nat.lt_of_succ_lt_succ inside)]
        omega
    · -- nothing after a failing head passes
      have none : l.countP q = 0 := List.countP_eq_zero.mpr fun x mem pass => first (down a x (above x mem) pass)
      rw [List.countP_cons_of_neg first, none]
      cases k with
      | zero => simpa using first
      | succ k =>
        rw [List.getElem_cons_succ, ih sorted (Nat.lt_of_succ_lt_succ inside), none]
        omega

-- A test that holds of an element whenever it holds of a later one keeps a prefix of the list:
-- there `takeWhile` and `filter` agree.
theorem takeWhile_eq_filter_of_pairwise {l : List α} {p : α → Bool}
    (down : l.Pairwise fun x y => p y = true → p x = true) : l.takeWhile p = l.filter p := by
  induction l with
  | nil => rfl
  | cons a l ih =>
    obtain ⟨later, down⟩ := List.pairwise_cons.mp down
    by_cases pass : p a = true
    · rw [List.takeWhile_cons_of_pos pass, List.filter_cons_of_pos pass, ih down]
    · rw [List.takeWhile_cons_of_neg pass, List.filter_cons_of_neg pass]
      exact (List.filter_eq_nil_iff.mpr fun x mem held => pass (later x mem held)).symm

end Scan
