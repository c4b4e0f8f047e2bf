import Mathlib.Algebra.GroupWithZero.Nat
import Mathlib.Data.List.Basic

/-! Binary trees whose leaves are a sequence, and forests of them that are cut without being
flattened. -/

namespace Linktools.Library

open List

inductive LeafTree (α : Type*)
  | leaf (value : α)
  | branch (left right : LeafTree α)
deriving DecidableEq

namespace LeafTree

variable {α β : Type*}

def leaves : LeafTree α → List α
  | leaf value => [value]
  | branch left right => left.leaves ++ right.leaves

def count : LeafTree α → Nat
  | leaf _ => 1
  | branch left right => left.count + right.count

def nodes : LeafTree α → Nat
  | leaf _ => 1
  | branch left right => left.nodes + right.nodes + 1

def forestLeaves (forest : List (LeafTree α)) : List α :=
  forest.flatMap leaves

def forestCount (forest : List (LeafTree α)) : Nat :=
  (forest.map count).sum

def drain : List (LeafTree α) → List α
  | [] => []
  | leaf value :: stack => value :: drain stack
  | branch left right :: stack => drain (left :: right :: stack)
termination_by stack => (stack.map nodes).sum
decreasing_by
  · simp [nodes]
  · simp [nodes]
    omega

def valueAt : LeafTree α → Nat → α
  | leaf value, _ => value
  | branch left right, offset =>
    if offset < left.count then left.valueAt offset else right.valueAt (offset - left.count)

def forestAt : List (LeafTree α) → Nat → Option α
  | [], _ => none
  | root :: roots, offset =>
    if offset < root.count then some (root.valueAt offset)
    else forestAt roots (offset - root.count)

/-- The largest trees of a stack that lie between two positions.  Each tree of the stack comes
with the position of its first leaf. -/
def cut (lo hi : Nat) : List (LeafTree α × Nat) → List (LeafTree α)
  | [] => []
  | (leaf value, first) :: stack =>
    if hi ≤ first ∨ first + 1 ≤ lo then cut lo hi stack
    else leaf value :: cut lo hi stack
  | (branch left right, first) :: stack =>
    if hi ≤ first ∨ first + (branch left right).count ≤ lo then cut lo hi stack
    else if lo ≤ first ∧ first + (branch left right).count ≤ hi then
      branch left right :: cut lo hi stack
    else cut lo hi ((left, first) :: (right, first + left.count) :: stack)
termination_by stack => (stack.map fun entry => entry.1.nodes).sum
decreasing_by
  all_goals simp [nodes]
  all_goals omega

def cutForest (lo hi : Nat) : List (LeafTree α) → Nat → List (LeafTree α)
  | [], _ => []
  | root :: roots, offset =>
    cut lo hi [(root, offset)] ++ cutForest lo hi roots (offset + root.count)

variable {tree left right : LeafTree α} {forest stack : List (LeafTree α)} {lo hi first : Nat}

@[simp] theorem forestLeaves_nil : forestLeaves ([] : List (LeafTree α)) = [] := rfl

@[simp] theorem forestLeaves_cons :
    forestLeaves (tree :: forest) = tree.leaves ++ forestLeaves forest := rfl

@[simp] theorem forestLeaves_append :
    forestLeaves (forest ++ stack) = forestLeaves forest ++ forestLeaves stack :=
  flatMap_append

@[simp] theorem length_leaves (tree : LeafTree α) : tree.leaves.length = tree.count := by
  induction tree with
  | leaf value => rfl
  | branch left right leftInduction rightInduction =>
    rw [leaves, count, length_append, leftInduction, rightInduction]

theorem length_forestLeaves (forest : List (LeafTree α)) :
    (forestLeaves forest).length = forestCount forest := by
  induction forest with
  | nil => rfl
  | cons tree forest induction =>
    rw [forestLeaves_cons, length_append, length_leaves, induction]
    rfl

theorem drain_eq_forestLeaves (stack : List (LeafTree α)) : drain stack = forestLeaves stack := by
  fun_induction drain stack with
  | case1 => rfl
  | case2 value stack induction => rw [induction, forestLeaves_cons, leaves, singleton_append]
  | case3 left right stack induction =>
    rw [induction, forestLeaves_cons, forestLeaves_cons, forestLeaves_cons, leaves,
      append_assoc]

theorem valueAt_eq (tree : LeafTree α) (inside : offset < tree.count) :
    tree.leaves[offset]? = some (tree.valueAt offset) := by
  induction tree generalizing offset with
  | leaf value =>
    obtain rfl : offset = 0 := by
      rw [count] at inside
      omega
    rfl
  | branch left right leftInduction rightInduction =>
    rw [leaves, valueAt, getElem?_append, length_leaves]
    split
    case isTrue early => exact leftInduction early
    case isFalse late =>
      rw [count] at inside
      exact rightInduction (by omega)

theorem forestAt_eq (forest : List (LeafTree α)) (offset : Nat) :
    forestAt forest offset = (forestLeaves forest)[offset]? := by
  induction forest generalizing offset with
  | nil => rfl
  | cons tree forest induction =>
    rw [forestAt, forestLeaves_cons, getElem?_append, length_leaves]
    split
    case isTrue inside => exact (valueAt_eq tree inside).symm
    case isFalse => exact induction _

/-! The part of a sequence that starts at the position `first` and lies between two others. -/

def between (lo hi first : Nat) (values : List α) : List α :=
  (values.take (hi - first)).drop (lo - first)

theorem between_append (front back : List α) : between lo hi first (front ++ back) =
      between lo hi first front ++ between lo hi (first + front.length) back := by
  unfold between
  rw [take_append, drop_append, length_take]
  by_cases stops : hi - first ≤ front.length
  case pos =>
    have done : hi - (first + front.length) = 0 := by omega
    have rest : hi - first - front.length = 0 := by omega
    simp [done, rest]
  case neg =>
    have start : min (hi - first) front.length = front.length := by omega
    rw [start, Nat.sub_sub, Nat.sub_sub]

variable {values : List α}

theorem between_outside (outside : hi ≤ first ∨ first + values.length ≤ lo) :
    between lo hi first values = [] := by
  unfold between
  apply drop_eq_nil_of_le
  rw [length_take]
  omega

theorem between_inside (inside : lo ≤ first) (stops : first + values.length ≤ hi) :
    between lo hi first values = values := by
  unfold between
  rw [Nat.sub_eq_zero_of_le inside, drop_zero, take_of_length_le (by omega)]

theorem leaves_cut (lo hi : Nat) (stack : List (LeafTree α × Nat)) :
    forestLeaves (cut lo hi stack) =
      stack.flatMap fun entry => between lo hi entry.2 entry.1.leaves := by
  fun_induction cut lo hi stack with
  | case1 => rfl
  | case2 value first stack outside induction =>
    rw [induction, flatMap_cons, between_outside (by simpa [leaves] using outside),
      nil_append]
  | case3 value first stack touched induction =>
    rw [forestLeaves_cons, induction, flatMap_cons,
      between_inside (by omega) (by simp only [leaves, length_singleton]; omega)]
  | case4 left right first stack outside induction =>
    rw [induction, flatMap_cons, between_outside (by rwa [length_leaves]), nil_append]
  | case5 left right first stack touched inside induction =>
    rw [forestLeaves_cons, induction, flatMap_cons,
      between_inside inside.1 (by rw [length_leaves]; exact inside.2)]
  | case6 left right first stack touched crossing induction =>
    rw [induction, flatMap_cons, flatMap_cons, flatMap_cons, leaves,
      between_append, length_leaves, append_assoc]

theorem leaves_cutForest (forest : List (LeafTree α)) (lo hi first : Nat) :
    forestLeaves (cutForest lo hi forest first) = between lo hi first (forestLeaves forest) := by
  induction forest generalizing first with
  | nil => simp [cutForest, between]
  | cons tree forest induction =>
    rw [cutForest, forestLeaves_append, leaves_cut, induction, flatMap_singleton,
      forestLeaves_cons, between_append, length_leaves]

end LeafTree

end Linktools.Library
