import Mathlib.Tactic.Common

namespace Linktools.Library

/-! Optimistic concurrency: the rows of a cell whose writes raise its storage revision, and
raise the number of its value whenever they change the value. -/

structure Observed (α : Type*) where
  value : α
  storageRevision : Nat
deriving DecidableEq

namespace Observed

variable {α : Type*} {number : α → Nat} {old middle row : Observed α}

/-- The cell held `old` before, or still holds it. -/
def Precedes (number : α → Nat) (old row : Observed α) : Prop :=
  old = row ∨ old.storageRevision < row.storageRevision ∧
    (old.value = row.value ∨ number old.value < number row.value)

theorem Precedes.refl : Precedes number row row := .inl rfl

theorem Precedes.trans (left : Precedes number old middle) (right : Precedes number middle row) :
    Precedes number old row := by
  cases left with
  | inl same =>
    subst same
    exact right
  | inr behind =>
    cases right with
    | inl same =>
      subst same
      exact .inr behind
    | inr ahead =>
      refine .inr ⟨Nat.lt_trans behind.1 ahead.1, ?_⟩
      cases behind.2 with
      | inl same => exact same ▸ ahead.2
      | inr less =>
        cases ahead.2 with
        | inl same => exact .inr (same ▸ less)
        | inr more => exact .inr (Nat.lt_trans less more)

theorem Precedes.eq_of_storageRevision (precedes : Precedes number old row)
    (same : old.storageRevision = row.storageRevision) : old = row := by
  cases precedes with
  | inl equal => exact equal
  | inr behind => exact absurd same (Nat.ne_of_lt behind.1)

theorem Precedes.value_eq_of_number (precedes : Precedes number old row)
    (same : number old.value = number row.value) : old.value = row.value := by
  cases precedes with
  | inl equal => rw [equal]
  | inr behind =>
    cases behind.2 with
    | inl equal => exact equal
    | inr less => exact absurd same (Nat.ne_of_lt less)

/-- The row is the old one, or a later version that its value is related to. -/
def Follows (related : α → α → Prop) (old row : Observed α) : Prop :=
  old = row ∨ old.storageRevision < row.storageRevision ∧ related old.value row.value

variable {related : α → α → Prop}

theorem Follows.refl : Follows related row row := .inl rfl

theorem Follows.trans (compose : ∀ first second third, related first second → related second third →
      related first third)
    (left : Follows related old middle) (right : Follows related middle row) :
    Follows related old row := by
  cases left with
  | inl same =>
    subst same
    exact right
  | inr behind =>
    cases right with
    | inl same =>
      subst same
      exact .inr behind
    | inr ahead => exact .inr ⟨Nat.lt_trans behind.1 ahead.1, compose _ _ _ behind.2 ahead.2⟩

theorem Follows.eq_of_storageRevision (follows : Follows related old row)
    (same : old.storageRevision = row.storageRevision) : old = row := by
  cases follows with
  | inl equal => exact equal
  | inr behind => exact absurd same (Nat.ne_of_lt behind.1)

end Observed

end Linktools.Library
