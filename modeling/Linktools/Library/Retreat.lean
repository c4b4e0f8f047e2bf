import Mathlib.Order.Bounds.Basic
import Mathlib.Data.List.Induction

/-! A backward pass that lowers a start to what the entries at or after it depend on. -/

namespace Linktools.Library

open List

def ClosedFrom (dependencies : List Nat) (start : Nat) : Prop :=
  ∀ index dependency, dependencies[index]? = some dependency → start ≤ index → start ≤ dependency

def retreat : List Nat → Nat → Nat
  | [], start => start
  | dependency :: earlier, start =>
    if earlier.length < start then start else retreat earlier (min start dependency)

variable {dependencies : List Nat} {start bound dependency : Nat}

@[simp] theorem closedFrom_nil : ClosedFrom [] start := by
  intro index dependency found
  simp at found

theorem closedFrom_concat : ClosedFrom (dependencies ++ [dependency]) start ↔
      ClosedFrom dependencies start ∧ (start ≤ dependencies.length → start ≤ dependency) := by
  constructor
  · intro closed
    constructor
    · intro index entry found
      exact closed index entry (by
        rw [List.getElem?_append_left (List.getElem?_eq_some_iff.mp found).1, found])
    · exact closed dependencies.length dependency (by simp)
  · rintro ⟨closed, last⟩ index entry found reached
    rw [getElem?_append] at found
    split at found
    case isTrue => exact closed index entry found reached
    case isFalse beyond =>
      obtain ⟨inside, rfl⟩ := List.getElem?_eq_some_iff.mp found
      rw [List.length_singleton] at inside
      rw [getElem_singleton]
      exact last (by omega)

theorem retreat_isGreatest (dependencies : List Nat) (bound : Nat) :
    IsGreatest {start | start ≤ bound ∧ ClosedFrom dependencies start}
      (retreat dependencies.reverse bound) := by
  induction dependencies using reverseRecOn generalizing bound with
  | nil => exact ⟨⟨le_rfl, closedFrom_nil⟩, fun start lower => lower.1⟩
  | append_singleton dependencies dependency induction =>
    rw [reverse_concat, retreat, length_reverse]
    split
    case isTrue beyond =>
      refine ⟨⟨le_rfl, ?_⟩, fun start lower => lower.1⟩
      intro index entry found reached
      have inside := (List.getElem?_eq_some_iff.mp found).1
      rw [List.length_append, List.length_singleton] at inside
      omega
    case isFalse within =>
      have agrees : {start | start ≤ bound ∧ ClosedFrom (dependencies ++ [dependency]) start} =
          {start | start ≤ min bound dependency ∧ ClosedFrom dependencies start} := by
        ext start
        rw [Set.mem_ofPred_eq, Set.mem_ofPred_eq, closedFrom_concat, Nat.le_min]
        constructor
        · rintro ⟨lower, closed, last⟩
          exact ⟨⟨lower, last (by omega)⟩, closed⟩
        · rintro ⟨⟨lower, depends⟩, closed⟩
          exact ⟨lower, closed, fun _ => depends⟩
      rw [agrees]
      exact induction (min bound dependency)

end Linktools.Library
