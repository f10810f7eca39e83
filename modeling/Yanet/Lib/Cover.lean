import Mathlib

set_option autoImplicit false

-- Families of spans of natural numbers, each a start and a length, as an allocator hands out and
-- takes back blocks of memory. `count spans x` is how many spans hold the point `x`; a family in
-- which no point is held twice is one of pairwise disjoint spans. Counts add over concatenation,
-- do not see the order of the family, and do not change when a span is cut in two; a
-- family kept per index (per pool) is counted as a finite sum, updated one index at a time.

namespace Cover

-- Whether the span from `span.1` of length `span.2` holds `x`.
def covers (span : Nat × Nat) (x : Nat) : Bool := decide (span.1 ≤ x ∧ x < span.1 + span.2)

def count (spans : List (Nat × Nat)) (x : Nat) : Nat := spans.countP (covers · x)

theorem count_nil (x : Nat) : count [] x = 0 := rfl

theorem count_cons (span : Nat × Nat) (spans : List (Nat × Nat)) (x : Nat) :
    count (span :: spans) x = count spans x + if covers span x then 1 else 0 := by
  rw [count, List.countP_cons]
  rfl

theorem count_append (spans spans' : List (Nat × Nat)) (x : Nat) :
    count (spans ++ spans') x = count spans x + count spans' x :=
  List.countP_append

theorem count_perm {spans spans' : List (Nat × Nat)} (perm : spans.Perm spans') (x : Nat) :
    count spans x = count spans' x :=
  perm.countP_eq _

theorem count_singleton (span : Nat × Nat) (x : Nat) : count [span] x = if covers span x then 1 else 0 := by
  rw [count_cons, count_nil, Nat.zero_add]

theorem count_split (a n m x : Nat) : count [(a, n), (a + n, m)] x = count [(a, n + m)] x := by
  simp only [count_cons, count_nil, covers, decide_eq_true_eq]
  -- `x` lies in one of the two parts exactly when it lies in the whole
  split_ifs <;> omega

theorem disjoint_of_count_le_one {span span' : Nat × Nat} {spans : List (Nat × Nat)}
    (once : ∀ x, count (span :: spans) x ≤ 1) (mem : span' ∈ spans) (x : Nat) :
    ¬ (covers span x = true ∧ covers span' x = true) := by
  rintro ⟨here, there⟩
  have held := once x
  have more : 0 < count spans x := List.countP_pos_iff.mpr ⟨span', mem, there⟩
  rw [count_cons, if_pos here] at held
  omega

theorem sum_update_add {β : Type} {S : Finset Nat} {i : Nat} (mem : i ∈ S) (f : Nat → β) (p : β)
    (F : Nat → β → Nat) :
    ∑ j ∈ S, F j (Function.update f i p j) + F i (f i) = ∑ j ∈ S, F j (f j) + F i p := by
  rw [← Finset.add_sum_erase S _ mem, ← Finset.add_sum_erase S _ mem, Function.update_self]
  have rest : ∑ j ∈ S.erase i, F j (Function.update f i p j) = ∑ j ∈ S.erase i, F j (f j) :=
    Finset.sum_congr rfl fun j other => by rw [Function.update_of_ne (Finset.ne_of_mem_erase other)]
  rw [rest]
  omega

end Cover
