import Mathlib.Algebra.BigOperators.Group.List.Basic
import Mathlib.Algebra.GroupWithZero.Nat

namespace Linktools.Library

open List

/-! Ranges of positions in a sequence kept as a list of weighted items. -/

structure Window (α : Type*) where
  item : α
  start : Nat
  stop : Nat

namespace Window

variable {α β : Type*}

def places (place : α → Nat → β) (window : Window α) : List β :=
  (range' window.start (window.stop - window.start)).map (place window.item)

def cut (contents : α → List β) (window : Window α) : List β :=
  ((contents window.item).take window.stop).drop window.start

def mirror (weight : α → Nat) (window : Window α) : Window α :=
  ⟨window.item, weight window.item - window.stop, weight window.item - window.start⟩

def Proper (weight : α → Nat) (window : Window α) : Prop :=
  window.start < window.stop ∧ window.stop ≤ weight window.item

variable {weight : α → Nat} {place : α → Nat → β} {window : Window α}

section

variable (proper : window.Proper weight)
include proper

theorem places_eq_cut : window.places place =
      window.cut fun item => (range (weight item)).map (place item) := by
  obtain ⟨_, within⟩ := proper
  rw [places, cut, ← map_take, ← map_drop, take_range, Nat.min_eq_left within,
    range_eq_range', drop_range', Nat.zero_add, Nat.mul_one]

theorem map_cut {γ : Type*} {contents : α → List β} {key : β → γ} {place : α → Nat → γ}
    (keyed : (contents window.item).map key =
      (range (weight window.item)).map (place window.item)) :
    (window.cut contents).map key = window.places place := by
  rw [places_eq_cut proper, cut, cut, map_drop, map_take, keyed]

theorem Proper.mirror : (window.mirror weight).Proper weight := by
  obtain ⟨nonempty, within⟩ := proper
  constructor
  · change weight window.item - window.stop < weight window.item - window.start
    omega
  · exact Nat.sub_le _ _

end

theorem mirror_of_balanced (balanced : window.start + window.stop = weight window.item) :
    window.mirror weight = window := by
  obtain ⟨item, start, stop⟩ := window
  dsimp only at balanced
  rw [mirror, ← balanced, Nat.add_sub_cancel, Nat.add_sub_cancel_left]

theorem places_mirror_length (proper : window.Proper weight) :
    ((window.mirror weight).places place).length = (window.places place).length := by
  obtain ⟨_, within⟩ := proper
  simp only [places, mirror, length_map, length_range']
  omega

theorem places_mirror_iff (injective : ∀ item, Function.Injective (place item))
    (proper : window.Proper weight) : (window.mirror weight).places place = window.places place ↔
      window.start + window.stop = weight window.item := by
  obtain ⟨nonempty, within⟩ := proper
  have width : weight window.item - window.start - (weight window.item - window.stop) =
      window.stop - window.start := by omega
  constructor
  · intro same
    rw [places, places, mirror, width] at same
    have ranges := map_injective_iff.mpr (injective window.item) same
    obtain ⟨count, counted⟩ : ∃ count, window.stop - window.start = count + 1 :=
      ⟨window.stop - window.start - 1, by omega⟩
    rw [counted, range'_succ, range'_succ] at ranges
    have heads : weight window.item - window.stop = window.start := (List.cons.inj ranges).1
    omega
  · intro balanced
    have start : weight window.item - window.stop = window.start := by omega
    rw [places, places, mirror, width, start]

end Window

variable {α β : Type*} {weight : α → Nat} {items left right : List α} {start stop : Nat}

def windows (weight : α → Nat) : List α → Nat → Nat → List (Window α)
  | [], _, _ => []
  | item :: rest, start, stop =>
    (if start < min stop (weight item) then [⟨item, start, min stop (weight item)⟩] else []) ++
      windows weight rest (start - weight item) (stop - weight item)

theorem windows_nil : windows weight [] start stop = [] := rfl

theorem windows_cons (item : α) (rest : List α) : windows weight (item :: rest) start stop =
      (if start < min stop (weight item) then [⟨item, start, min stop (weight item)⟩] else []) ++
        windows weight rest (start - weight item) (stop - weight item) := rfl

variable {γ : Type*}

theorem windows_map {transform : γ → α} :
    windows weight (sources.map transform) start stop =
      (windows (fun source => weight (transform source)) sources start stop).map fun window =>
        ⟨transform window.item, window.start, window.stop⟩ := by
  induction sources generalizing start stop with
  | nil => rfl
  | cons source rest ih =>
    rw [map_cons, windows_cons, windows_cons, ih, map_append]
    congr 1
    split
    case isTrue => rfl
    case isFalse => rfl

theorem windows_append : windows weight (left ++ right) start stop =
      windows weight left start stop ++
        windows weight right (start - (left.map weight).sum) (stop - (left.map weight).sum) := by
  induction left generalizing start stop with
  | nil => rfl
  | cons item rest ih =>
    rw [cons_append, windows_cons, windows_cons, ih, append_assoc, map_cons,
      sum_cons, Nat.sub_sub, Nat.sub_sub]

theorem windows_of_le (empty : stop ≤ start) : windows weight items start stop = [] := by
  induction items generalizing start stop with
  | nil => rfl
  | cons item rest ih =>
    have none : ¬start < min stop (weight item) := by omega
    rw [windows_cons, if_neg none, ih (by omega), nil_append]

theorem windows_of_total_le (outside : (items.map weight).sum ≤ start) :
    windows weight items start stop = [] := by
  induction items generalizing start stop with
  | nil => rfl
  | cons item rest ih =>
    rw [map_cons, sum_cons] at outside
    have none : ¬start < min stop (weight item) := by omega
    rw [windows_cons, if_neg none, ih (by omega), nil_append]

theorem windows_min_stop : windows weight items start (min stop (items.map weight).sum) =
      windows weight items start stop := by
  induction items generalizing start stop with
  | nil => rfl
  | cons item rest ih =>
    rw [map_cons, sum_cons, windows_cons, windows_cons]
    have here : min (min stop (weight item + (rest.map weight).sum)) (weight item) =
        min stop (weight item) := by omega
    have later : min stop (weight item + (rest.map weight).sum) - weight item =
        min (stop - weight item) (rest.map weight).sum := by omega
    rw [here, later, ih]

variable {window : Window α}

section

variable (member : window ∈ windows weight items start stop)
include member

theorem windows_proper :
    window.Proper weight := by
  induction items generalizing start stop with
  | nil => cases member
  | cons item rest ih =>
    rw [windows_cons] at member
    rcases mem_append.mp member with here | later
    · split at here
      case isTrue inside =>
        rw [mem_singleton.mp here]
        exact ⟨inside, Nat.min_le_right stop (weight item)⟩
      case isFalse => cases here
    · exact ih later

theorem windows_item : window.item ∈ items := by
  induction items generalizing start stop with
  | nil => cases member
  | cons item rest ih =>
    rw [windows_cons] at member
    rcases mem_append.mp member with here | later
    · split at here
      case isTrue =>
        rw [mem_singleton.mp here]
        exact mem_cons_self
      case isFalse => cases here
    · exact mem_cons_of_mem _ (ih later)

end

variable {contents : α → List β}

theorem windows_cut (lengths : ∀ item ∈ items, (contents item).length = weight item) :
    (windows weight items start stop).flatMap (Window.cut contents) =
      ((items.flatMap contents).take stop).drop start := by
  induction items generalizing start stop with
  | nil => simp [windows_nil]
  | cons item rest ih =>
    have length := lengths item mem_cons_self
    have here : ((if start < min stop (weight item) then
          [(⟨item, start, min stop (weight item)⟩ : Window α)] else []).flatMap
            (Window.cut contents)) = ((contents item).take stop).drop start := by
      split
      case isTrue inside =>
        rw [flatMap_cons, flatMap_nil, append_nil, Window.cut, ← length,
          ← take_eq_take_min]
      case isFalse outside =>
        rw [flatMap_nil, eq_comm, drop_eq_nil_iff, length_take]
        omega
    rw [windows_cons, flatMap_append, here,
      ih fun other member => lengths other (mem_cons_of_mem _ member),
      flatMap_cons, take_append, drop_append, length_take, length]
    by_cases beyond : weight item ≤ stop
    · rw [Nat.min_eq_right beyond]
    · have none : stop - weight item = 0 := by omega
      rw [none, take_zero, drop_nil, drop_nil]

/-- Counted from the other end, a range cuts out the mirrored windows in the opposite
order. -/
theorem windows_reverse (within : stop ≤ (items.map weight).sum) :
    windows weight items.reverse ((items.map weight).sum - stop) ((items.map weight).sum - start) =
      ((windows weight items start stop).map (Window.mirror weight)).reverse := by
  induction items generalizing start stop with
  | nil => rfl
  | cons item rest ih =>
    rw [map_cons, sum_cons] at within ⊢
    have reversed : (rest.reverse.map weight).sum = (rest.map weight).sum := by
      rw [map_reverse, sum_reverse]
    have older : windows weight rest.reverse
          (weight item + (rest.map weight).sum - stop)
          (weight item + (rest.map weight).sum - start) =
        ((windows weight rest (start - weight item) (stop - weight item)).map
          (Window.mirror weight)).reverse := by
      rw [← ih (by omega)]
      by_cases reaches : weight item ≤ stop
      · have first : weight item + (rest.map weight).sum - stop =
            (rest.map weight).sum - (stop - weight item) := by omega
        have last : min (weight item + (rest.map weight).sum - start) (rest.map weight).sum =
            (rest.map weight).sum - (start - weight item) := by omega
        rw [first, ← windows_min_stop, reversed, last]
      · rw [windows_of_total_le (by rw [reversed]; omega),
          windows_of_total_le (by rw [reversed]; omega)]
    have newest : windows weight [item]
          (weight item + (rest.map weight).sum - stop - (rest.map weight).sum)
          (weight item + (rest.map weight).sum - start - (rest.map weight).sum) =
        ((if start < min stop (weight item) then
          [(⟨item, start, min stop (weight item)⟩ : Window α)] else []).map
            (Window.mirror weight)).reverse := by
      rw [windows_cons, windows_nil, append_nil]
      split
      case isTrue inside =>
        rw [if_pos (by omega)]
        simp only [map_cons, map_nil, reverse_singleton, Window.mirror,
          List.cons.injEq, Window.mk.injEq, and_true, true_and]
        omega
      case isFalse outside => rw [if_neg (by omega), map_nil, reverse_nil]
    rw [reverse_cons, windows_append, reversed, older, newest, windows_cons,
      map_append, reverse_append]

variable {cuts : List (Window α)}

theorem mirror_places_iff {place : α → Nat → β}
    (injective : ∀ item, Function.Injective (place item))
    (proper : ∀ window ∈ cuts, window.Proper weight) :
    (cuts.map (Window.mirror weight)).flatMap (Window.places place) =
        cuts.flatMap (Window.places place) ↔
      ∀ window ∈ cuts, window.start + window.stop = weight window.item := by
  induction cuts with
  | nil => simp
  | cons window rest ih =>
    have here := proper window mem_cons_self
    rw [map_cons, flatMap_cons, flatMap_cons, forall_mem_cons,
      ← Window.places_mirror_iff injective here,
      ← ih fun other member => proper other (mem_cons_of_mem _ member)]
    exact ⟨fun same => append_inj same (Window.places_mirror_length here),
      fun ⟨head, tail⟩ => by rw [head, tail]⟩

theorem mirror_cut_iff {key : β → γ} {place : α → Nat → γ}
    (injective : ∀ item, Function.Injective (place item))
    (proper : ∀ window ∈ cuts, window.Proper weight)
    (keyed : ∀ window ∈ cuts, (contents window.item).map key =
      (range (weight window.item)).map (place window.item)) :
    (cuts.map (Window.mirror weight)).flatMap (Window.cut contents) =
        cuts.flatMap (Window.cut contents) ↔
      ∀ window ∈ cuts, window.start + window.stop = weight window.item := by
  constructor
  · intro same
    have keys := congrArg (map key) same
    rw [map_flatMap, map_flatMap, flatMap_map,
      flatMap_congr fun window member =>
        Window.map_cut (proper window member).mirror (keyed window member),
      flatMap_congr fun window member =>
        Window.map_cut (proper window member) (keyed window member), ← flatMap_map] at keys
    exact (mirror_places_iff injective proper).mp keys
  · intro balanced
    have fixed : cuts.map (Window.mirror weight) = cuts :=
      (map_congr_left fun window member =>
        Window.mirror_of_balanced (balanced window member)).trans (map_id' cuts)
    rw [fixed]

end Linktools.Library
