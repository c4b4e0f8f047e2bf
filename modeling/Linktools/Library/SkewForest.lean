import Mathlib.Algebra.Order.BigOperators.Group.List
import Mathlib.Tactic.Ring

namespace Linktools.Library

open List

/-! Skew-binary forests: a list, newest item first, kept as a list of perfect trees
whose sizes grow.  A push looks at the first two trees only. -/

inductive SkewTree (α : Type*)
  | leaf (own : α)
  | branch (own : α) (newer older : SkewTree α)

namespace SkewTree

variable {α : Type*}

def own : SkewTree α → α
  | leaf own => own
  | branch own _ _ => own

def size : SkewTree α → Nat
  | leaf _ => 1
  | branch _ newer older => newer.size + older.size + 1

def items : SkewTree α → List α
  | leaf own => [own]
  | branch own newer older => own :: (newer.items ++ older.items)

def weight (measure : α → Nat) (tree : SkewTree α) : Nat :=
  (tree.items.map measure).sum

def Perfect : SkewTree α → Prop
  | leaf _ => True
  | branch _ newer older => newer.Perfect ∧ older.Perfect ∧ newer.size = older.size

variable {measure : α → Nat} {tree newer older : SkewTree α} {item : α}

@[simp] theorem weight_leaf : (leaf item).weight measure = measure item := by
  simp [weight, items]

@[simp] theorem weight_branch : (branch item newer older).weight measure =
      measure item + (newer.weight measure + older.weight measure) := by
  simp [weight, items]

theorem items_length : tree.items.length = tree.size := by
  induction tree with
  | leaf => rfl
  | branch item newer older newerLength olderLength =>
    simp only [items, size, length_cons, length_append, newerLength, olderLength]

theorem size_pos : 0 < tree.size := by
  cases tree with
  | leaf => exact Nat.one_pos
  | branch => exact Nat.succ_pos _

def height : SkewTree α → Nat
  | leaf _ => 1
  | branch _ newer older => max newer.height older.height + 1

theorem Perfect.size_height (perfect : tree.Perfect) : tree.size + 1 = 2 ^ tree.height := by
  induction tree with
  | leaf => rfl
  | branch item newer older newerSize olderSize =>
    obtain ⟨newerPerfect, olderPerfect, same⟩ := perfect
    have newerSucc := newerSize newerPerfect
    have olderSucc := olderSize olderPerfect
    have heights : newer.height = older.height := by
      rw [same, olderSucc] at newerSucc
      exact (Nat.pow_right_injective (le_refl 2) newerSucc).symm
    rw [size, height, ← heights, Nat.max_self, pow_succ, ← newerSucc]
    omega

theorem Perfect.size_succ (perfect : tree.Perfect) : ∃ height, tree.size + 1 = 2 ^
    (height + 1) := by
  have positive : 0 < tree.height := by
    cases tree with
    | leaf => exact Nat.one_pos
    | branch => exact Nat.succ_pos _
  obtain ⟨height, succ⟩ := Nat.exists_eq_succ_of_ne_zero positive.ne'
  exact ⟨height, by rw [perfect.size_height, succ]⟩

theorem Perfect.height_le (perfect : tree.Perfect) (bounded : tree.size < 2 ^ bits) :
    tree.height ≤ bits := by
  rw [← Nat.pow_le_pow_iff_right (show 1 < 2 by decide), ← perfect.size_height]
  exact bounded

end SkewTree

namespace SkewForest

variable {α : Type*} {measure : α → Nat} {forest : List (SkewTree α)} {item : α}

def items (forest : List (SkewTree α)) : List α :=
  forest.flatMap SkewTree.items

def size (forest : List (SkewTree α)) : Nat :=
  (forest.map SkewTree.size).sum

def weight (measure : α → Nat) (forest : List (SkewTree α)) : Nat :=
  (forest.map (SkewTree.weight measure)).sum

/-- Two trees of equal size in front are joined under the pushed item. -/
def push (item : α) : List (SkewTree α) → List (SkewTree α)
  | first :: second :: rest =>
    if first.size = second.size then .branch item first second :: rest
    else .leaf item :: first :: second :: rest
  | [single] => [.leaf item, single]
  | [] => [.leaf item]

def pushSize : List Nat → List Nat
  | first :: second :: rest =>
    if first = second then (first + second + 1) :: rest else 1 :: first :: second :: rest
  | [single] => [1, single]
  | [] => [1]

def sizesOf : Nat → List Nat
  | 0 => []
  | count + 1 => pushSize (sizesOf count)

def Increasing : List Nat → Prop
  | first :: second :: rest => first ≤ second ∧ (second :: rest).Pairwise (· < ·)
  | _ => True

structure Skew (forest : List (SkewTree α)) : Prop where
  perfect : ∀ tree ∈ forest, tree.Perfect
  increasing : Increasing (forest.map SkewTree.size)

variable {left right : List (SkewTree α)}

theorem items_append : items (left ++ right) = items left ++ items right :=
  flatMap_append

variable {tree : SkewTree α}

theorem items_cons : items (tree :: forest) = tree.items ++ items forest :=
  flatMap_cons

theorem size_append : size (left ++ right) = size left + size right := by
  rw [size, map_append, sum_append, ← size, ← size]

theorem size_cons : size (tree :: forest) = tree.size + size forest := by
  rw [size, map_cons, sum_cons, ← size]

theorem items_push : items (push item forest) = item :: items forest := by
  unfold push
  split
  case h_1 first second rest =>
    split
    case isTrue => simp [items, SkewTree.items]
    case isFalse => simp [items, SkewTree.items]
  case h_2 => simp [items, SkewTree.items]
  case h_3 => simp [items, SkewTree.items]

theorem map_size_push :
    (push item forest).map SkewTree.size = pushSize (forest.map SkewTree.size) := by
  unfold push
  split
  case h_1 first second rest =>
    rw [map_cons, map_cons, pushSize]
    split
    case isTrue => rfl
    case isFalse => rfl
  case h_2 => rfl
  case h_3 => rfl

theorem weight_eq_sum : weight measure forest = ((items forest).map measure).sum := by
  induction forest with
  | nil => rfl
  | cons tree rest ih =>
    rw [items, flatMap_cons, map_append, sum_append, ← items, ← ih]
    rfl

theorem size_eq_length : size forest = (items forest).length := by
  induction forest with
  | nil => rfl
  | cons tree rest ih =>
    rw [items, flatMap_cons, length_append, ← items, ← ih, SkewTree.items_length]
    rfl

theorem size_push : size (push item forest) = size forest + 1 := by
  rw [size_eq_length, size_eq_length, items_push, length_cons]

variable {first : Nat} {rest : List Nat}

theorem Increasing.tail (increasing : Increasing (first :: rest)) : rest.Pairwise (· < ·) := by
  cases rest with
  | nil => exact .nil
  | cons => exact increasing.2

theorem Increasing.of_pairwise (smallest : ∀ size ∈ rest, first ≤ size)
    (pairwise : rest.Pairwise (· < ·)) : Increasing (first :: rest) := by
  cases rest with
  | nil => trivial
  | cons second rest => exact ⟨smallest second mem_cons_self, pairwise⟩

theorem Skew.nil : Skew ([] : List (SkewTree α)) :=
  ⟨fun _ member => absurd member not_mem_nil, trivial⟩

theorem double_lt_of_lt {smaller larger : SkewTree α} (smallerPerfect : smaller.Perfect)
    (largerPerfect : larger.Perfect) (less : smaller.size < larger.size) :
    smaller.size + smaller.size + 1 ≤ larger.size := by
  obtain ⟨low, lowSize⟩ := smallerPerfect.size_succ
  obtain ⟨high, highSize⟩ := largerPerfect.size_succ
  have higher : low + 1 < high + 1 := by
    rw [← Nat.pow_lt_pow_iff_right (show 1 < 2 by decide)]
    omega
  have doubled : 2 ^ (low + 1 + 1) ≤ 2 ^ (high + 1) :=
    Nat.pow_le_pow_right (by decide) (by omega)
  rw [pow_succ] at doubled
  omega

theorem Skew.push (skew : Skew forest) : Skew (push item forest) := by
  unfold SkewForest.push
  split
  case h_1 first second rest =>
    have firstPerfect := skew.perfect first mem_cons_self
    have secondPerfect := skew.perfect second (mem_cons_of_mem _ mem_cons_self)
    have restPerfect : ∀ tree ∈ rest, tree.Perfect := fun tree member =>
      skew.perfect tree (mem_cons_of_mem _ (mem_cons_of_mem _ member))
    obtain ⟨ordered, later⟩ := skew.increasing
    obtain ⟨aboveSecond, restOrdered⟩ := pairwise_cons.mp later
    split
    case isTrue same =>
      refine ⟨?_, .of_pairwise ?_ restOrdered⟩
      · intro tree member
        rcases mem_cons.mp member with rfl | inside
        · exact ⟨firstPerfect, secondPerfect, same⟩
        · exact restPerfect tree inside
      · intro size member
        obtain ⟨tree, inside, rfl⟩ := mem_map.mp member
        have larger := double_lt_of_lt secondPerfect (restPerfect tree inside)
          (aboveSecond _ member)
        rw [SkewTree.size]
        omega
    case isFalse different =>
      refine ⟨?_, SkewTree.size_pos, .cons ?_ later⟩
      · intro tree member
        rcases mem_cons.mp member with rfl | inside
        · trivial
        · exact skew.perfect tree inside
      · intro size member
        have less : first.size < second.size := lt_of_le_of_ne ordered different
        rcases mem_cons.mp member with rfl | inside
        · exact less
        · exact less.trans (aboveSecond size inside)
  case h_2 single =>
    refine ⟨?_, SkewTree.size_pos, pairwise_singleton _ _⟩
    intro tree member
    rcases mem_cons.mp member with rfl | inside
    · trivial
    · exact skew.perfect tree inside
  case h_3 =>
    refine ⟨?_, trivial⟩
    intro tree member
    rw [mem_singleton.mp member]
    trivial

/-- Sizes one below growing powers of two, the least of them at least `2 ^ exponent - 1`,
add up to a power of two. -/
theorem pow_le_sum_of_increasing {exponent : Nat} {sizes : List Nat}
    (powers : ∀ size ∈ sizes, ∃ height, size + 1 = 2 ^ height)
    (above : ∀ size ∈ sizes, 2 ^ exponent ≤ size + 1) (increasing : sizes.Pairwise (· < ·)) :
    2 ^ (exponent + sizes.length) ≤ sizes.sum + sizes.length + 2 ^ exponent := by
  induction sizes generalizing exponent with
  | nil => simp
  | cons size rest ih =>
    obtain ⟨larger, restIncreasing⟩ := pairwise_cons.mp increasing
    have least := above size mem_cons_self
    have aboveRest : ∀ other ∈ rest, 2 ^ (exponent + 1) ≤ other + 1 := by
      intro other member
      obtain ⟨height, size_succ⟩ := powers other (mem_cons_of_mem _ member)
      have greater := larger other member
      have strict : 2 ^ exponent < 2 ^ height := by omega
      rw [size_succ]
      exact Nat.pow_le_pow_right (by decide) ((Nat.pow_lt_pow_iff_right (by decide)).mp strict)
    have further := ih (fun other member => powers other (mem_cons_of_mem _ member))
      aboveRest restIncreasing
    have shifted : exponent + (rest.length + 1) = exponent + 1 + rest.length := by omega
    rw [length_cons, sum_cons, shifted]
    rw [pow_succ 2 exponent] at further
    omega

theorem Skew.pow_length_le (skew : Skew forest) (nonempty : forest ≠ []) :
    2 ^ forest.length ≤ size forest + forest.length := by
  cases forest with
  | nil => exact absurd rfl nonempty
  | cons first rest =>
    have powers : ∀ size ∈ rest.map SkewTree.size, ∃ height, size + 1 = 2 ^ (height + 1) := by
      intro size member
      obtain ⟨tree, inside, rfl⟩ := mem_map.mp member
      exact (skew.perfect tree (mem_cons_of_mem _ inside)).size_succ
    have above : ∀ size ∈ rest.map SkewTree.size, 2 ^ 1 ≤ size + 1 := by
      intro size member
      obtain ⟨height, size_succ⟩ := powers size member
      rw [size_succ]
      exact Nat.pow_le_pow_right (by decide) (by omega)
    have bound := pow_le_sum_of_increasing
      (fun size member => let ⟨height, size_succ⟩ := powers size member
        ⟨height + 1, size_succ⟩)
      above skew.increasing.tail
    have firstSize : 0 < first.size := SkewTree.size_pos
    rw [length_map] at bound
    rw [size, map_cons, sum_cons, length_cons, add_comm rest.length 1]
    omega

theorem Skew.length_le (skew : Skew forest) (bounded : size forest < 2 ^ bits) :
    forest.length ≤ bits := by
  by_cases nonempty : forest = []
  · simp [nonempty]
  · by_contra longer
    have bound := skew.pow_length_le nonempty
    obtain ⟨extra, length⟩ : ∃ extra, forest.length = bits + extra + 1 :=
      ⟨forest.length - bits - 1, by omega⟩
    have grows : 2 ^ bits ≤ 2 ^ (bits + extra) := Nat.pow_le_pow_right (by decide) (by omega)
    have linear : bits + extra + 1 ≤ 2 ^ (bits + extra) := Nat.lt_two_pow_self
    rw [length, pow_succ] at bound
    omega

end SkewForest

namespace SkewForest

def largest (total : Nat) : Nat :=
  2 ^ (total + 1).log2 - 1

def AllOnes (size : Nat) : Prop :=
  ∃ height, size + 1 = 2 ^ (height + 1)

variable {first last : Nat} {rest sizes : List Nat}

theorem AllOnes.pos (ones : AllOnes first) : 0 < first := by
  obtain ⟨height, succ⟩ := ones
  have := Nat.two_pow_pos height
  rw [pow_succ] at succ
  omega

theorem AllOnes.double_lt (smaller : AllOnes first) (larger : AllOnes last) (less : first < last) :
    2 * first < last := by
  obtain ⟨low, lowSize⟩ := smaller
  obtain ⟨high, highSize⟩ := larger
  have higher : low + 1 < high + 1 := by
    rw [← Nat.pow_lt_pow_iff_right (show 1 < 2 by decide)]
    omega
  have doubled : 2 ^ (low + 1 + 1) ≤ 2 ^ (high + 1) :=
    Nat.pow_le_pow_right (by decide) (by omega)
  rw [pow_succ] at doubled
  omega

theorem AllOnes.join (ones : AllOnes first) : AllOnes (1 + first + first) := by
  obtain ⟨height, succ⟩ := ones
  refine ⟨height + 1, ?_⟩
  rw [pow_succ, ← succ]
  omega

theorem head_add_sum_le (powers : ∀ size ∈ first :: rest, AllOnes size)
    (increasing : (first :: rest).Pairwise (· < ·)) :
    first + (first :: rest).sum ≤ 2 * (first :: rest).getLast (cons_ne_nil _ _) := by
  induction rest generalizing first with
  | nil =>
    rw [getLast_singleton, sum_singleton]
    omega
  | cons second rest ih =>
    obtain ⟨above, later⟩ := pairwise_cons.mp increasing
    have further := ih (fun size member => powers size (mem_cons_of_mem _ member)) later
    have doubled := (powers first mem_cons_self).double_lt
      (powers second (mem_cons_of_mem _ mem_cons_self))
      (above second mem_cons_self)
    rw [getLast_cons (cons_ne_nil _ _), sum_cons]
    omega

theorem Increasing.sum_le (increasing : Increasing sizes)
    (powers : ∀ size ∈ sizes, AllOnes size) (nonempty : sizes ≠ []) :
    sizes.sum ≤ 2 * sizes.getLast nonempty := by
  cases sizes with
  | nil => exact absurd rfl nonempty
  | cons first rest =>
    cases rest with
    | nil =>
      rw [getLast_singleton, sum_singleton]
      omega
    | cons =>
      obtain ⟨ordered, later⟩ := increasing
      have bound := head_add_sum_le
        (fun size member => powers size (mem_cons_of_mem _ member)) later
      rw [getLast_cons (cons_ne_nil _ _), sum_cons]
      omega

theorem Increasing.getLast_eq_largest (increasing : Increasing sizes)
    (powers : ∀ size ∈ sizes, AllOnes size) (nonempty : sizes ≠ []) :
    sizes.getLast nonempty = largest sizes.sum := by
  have half := increasing.sum_le powers nonempty
  have inside : sizes.getLast nonempty ≤ sizes.sum :=
    single_le_sum (fun size _ => Nat.zero_le size) _ (getLast_mem nonempty)
  obtain ⟨height, succ⟩ := powers _ (getLast_mem nonempty)
  have log : (sizes.sum + 1).log2 = height + 1 := by
    rw [Nat.log2_eq_iff (Nat.succ_ne_zero _), pow_succ 2 (height + 1), ← succ]
    omega
  rw [largest, log, ← succ]
  omega

theorem Increasing.init (increasing : Increasing (sizes ++ [last])) : Increasing sizes := by
  cases sizes with
  | nil => trivial
  | cons first rest =>
    cases rest with
    | nil => trivial
    | cons second rest =>
      obtain ⟨ordered, later⟩ := increasing
      exact ⟨ordered, later.sublist (sublist_append_left (second :: rest) [last])⟩

theorem AllOnes.and_succ (ones : AllOnes first) : first &&& (first + 1) = 0 := by
  obtain ⟨height, succ⟩ := ones
  have size : first = 2 ^ (height + 1) - 1 := by omega
  rw [succ, size, Nat.and_comm, Nat.and_two_pow_sub_one_eq_mod, Nat.mod_self]

end SkewForest

end Linktools.Library
