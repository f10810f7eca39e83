import Mathlib.Data.List.Forall2
import Mathlib.Logic.Function.Basic

set_option autoImplicit false

-- Maps whose entries expire: each key keeps the deadline and value of its last
-- write, and the value is visible strictly before the deadline. This is what a
-- hash table with time-to-live entries is for; nothing here names a particular
-- implementation.

namespace TtlMap

variable {K V : Type}

abbrev Store (K V : Type) := K → Option (Nat × V)

def empty : Store K V := fun _ => none

-- The value visible at `now`.
def lookup (m : Store K V) (now : Nat) (key : K) : Option V :=
  match m key with
  | some (deadline, value) => if now < deadline then some value else none
  | none => none

-- A write at `now`: `merge` combines a visible value with the written one, and an expired or
-- missing entry is replaced.
def write [DecidableEq K] (merge : V → V → V) (m : Store K V) (now : Nat) (key : K) (deadline : Nat) (value : V) :
    Store K V :=
  Function.update m key (some (deadline, match lookup m now key with
    | some old => merge old value
    | none => value))

@[simp] theorem lookup_empty (now : Nat) (key : K) : lookup (empty : Store K V) now key = none := rfl

theorem lookup_eq_some {m : Store K V} {now : Nat} {key : K} {value : V} :
    lookup m now key = some value ↔ ∃ deadline, m key = some (deadline, value) ∧ now < deadline := by
  unfold lookup
  cases entry : m key with
  | none => simp
  | some pair =>
      obtain ⟨deadline, stored⟩ := pair
      by_cases live : now < deadline
      · simp only [live, if_true, Option.some.injEq, Prod.mk.injEq]
        constructor
        · rintro rfl
          exact ⟨deadline, ⟨rfl, rfl⟩, live⟩
        · rintro ⟨_, ⟨rfl, rfl⟩, _⟩
          rfl
      · simp only [live, if_false, reduceCtorEq, false_iff, not_exists, Option.some.injEq, Prod.mk.injEq,
          not_and, and_imp]
        rintro _ rfl _
        exact live

theorem lookup_eq_none {m : Store K V} {now : Nat} {key : K} :
    lookup m now key = none ↔ ∀ deadline value, m key = some (deadline, value) → deadline ≤ now := by
  unfold lookup
  cases entry : m key with
  | none => simp
  | some pair =>
      obtain ⟨deadline, stored⟩ := pair
      by_cases live : now < deadline
      · simp [live]
      · simp only [live, if_false, true_iff, Option.some.injEq, Prod.mk.injEq, and_imp]
        rintro _ _ rfl rfl
        omega

-- A stack of maps read newest first.
def lookupStack : List (Store K V) → Nat → K → Option V
  | [], _, _ => none
  | m :: stack, now, key =>
    match lookup m now key with
    | some value => some value
    | none => lookupStack stack now key

theorem lookupStack_isSome_iff {stack : List (Store K V)} {now : Nat} {key : K} :
    (lookupStack stack now key).isSome ↔ ∃ m ∈ stack, (lookup m now key).isSome := by
  induction stack with
  | nil => simp [lookupStack]
  | cons m stack ih =>
    cases h : lookup m now key with
    | some value => simp [lookupStack, h]
    | none => simp [lookupStack, h, ih]

-- `a` holds the entries of `m` with their deadlines, each value either known or left unknown.
def Approx (a : Store K (Option V)) (m : Store K V) : Prop :=
  ∀ key, (a key).map Prod.fst = (m key).map Prod.fst ∧ ∀ deadline value, a key = some (deadline, some value) →
    m key = some (deadline, value)

namespace Approx

variable {a : Store K (Option V)} {m : Store K V}

theorem empty : Approx (empty : Store K (Option V)) (empty : Store K V) := fun _ => ⟨rfl, fun _ _ h => by cases h⟩

theorem lookup_isSome (h : Approx a m) (now : Nat) (key : K) :
    (lookup a now key).isSome = (lookup m now key).isSome := by
  have hkey := (h key).1
  cases ha : a key with
  | none =>
    cases hm : m key with
    | none => simp [lookup, ha, hm]
    | some q => rw [ha, hm] at hkey; cases hkey
  | some p =>
    cases hm : m key with
    | none => rw [ha, hm] at hkey; cases hkey
    | some q =>
      rw [ha, hm] at hkey
      obtain ⟨d, x⟩ := p
      obtain ⟨d', y⟩ := q
      simp only [Option.map_some, Option.some.injEq] at hkey
      subst hkey
      by_cases live : now < d <;> simp [lookup, ha, hm, live]

theorem lookup_known (h : Approx a m) {now : Nat} {key : K} {value : V}
    (known : lookup a now key = some (some value)) : lookup m now key = some value := by
  obtain ⟨deadline, entry, live⟩ := lookup_eq_some.mp known
  exact lookup_eq_some.mpr ⟨deadline, (h key).2 _ _ entry, live⟩

theorem update [DecidableEq K] (h : Approx a m) (key : K) (deadline : Nat) (value : V) (known : Option V)
    (agrees : ∀ v, known = some v → v = value) :
    Approx (Function.update a key (some (deadline, known))) (Function.update m key (some (deadline, value))) := by
  intro k
  by_cases hk : k = key
  · subst hk
    refine ⟨by simp, fun d v hv => ?_⟩
    simp only [Function.update_self, Option.some.injEq, Prod.mk.injEq] at hv ⊢
    exact ⟨hv.1, (agrees v hv.2).symm⟩
  · simp only [Function.update_of_ne hk]
    exact h k

end Approx

theorem lookupStack_approx {stack : List (Store K (Option V))} {exact : List (Store K V)}
    (h : List.Forall₂ Approx stack exact) (now : Nat) (key : K) :
    (lookupStack stack now key).isSome = (lookupStack exact now key).isSome ∧
      ∀ value, lookupStack stack now key = some (some value) → lookupStack exact now key = some value := by
  induction h with
  | nil => exact ⟨rfl, fun _ h => by cases h⟩
  | @cons a m stack exact ham _ ih =>
    have same := ham.lookup_isSome now key
    cases ha : lookup a now key with
    | some known =>
      obtain ⟨value, hm⟩ := Option.isSome_iff_exists.mp (by rw [← same, ha]; rfl)
      refine ⟨by simp [lookupStack, ha, hm], fun v hv => ?_⟩
      simp only [lookupStack, ha, Option.some.injEq] at hv
      subst hv
      simp [lookupStack, ham.lookup_known ha]
    | none =>
      have hm : lookup m now key = none := by
        rw [ha, Option.isSome_none, eq_comm, Option.isSome_eq_false_iff, Option.isNone_iff_eq_none] at same
        exact same
      simpa [lookupStack, ha, hm] using ih

end TtlMap
