import Mathlib.Data.List.Basic
import Mathlib.Tactic.Linarith

/-! Slices of a sequence by a start, a stop and a step, each of which may be left out. -/

namespace Linktools.Library

open List

structure Slice where
  start : Option Int
  stop : Option Int
  step : Option Int

def rangeLength (start stop step : Int) : Nat :=
  if 0 < step then
    if start < stop then ((stop - start - 1) / step + 1).toNat else 0
  else if stop < start then ((start - stop - 1) / -step + 1).toNat else 0

def rangeOf (start stop step : Int) : List Int :=
  (range (rangeLength start stop step)).map fun index : Nat => start + index * step

namespace Slice

def lower (step : Int) : Int :=
  if step < 0 then -1 else 0

def upper (step : Int) (length : Nat) : Int :=
  if step < 0 then length - 1 else length

def clamp (step : Int) (length : Nat) (index : Int) : Int :=
  if index < 0 then max (index + length) (lower step) else min index (upper step length)

/-- The bounds and the step within a sequence of the given length.  There are none for a step
of zero. -/
def indices (slice : Slice) (length : Nat) : Option (Int × Int × Int) :=
  let step := slice.step.getD 1
  if step = 0 then none
  else
    let first := if step < 0 then upper step length else lower step
    let last := if step < 0 then lower step else upper step length
    some ((slice.start.map (clamp step length)).getD first,
      (slice.stop.map (clamp step length)).getD last, step)

def select {α : Type*} (slice : Slice) (values : List α) : Option (List α) :=
  (slice.indices values.length).map fun (start, stop, step) =>
    (rangeOf start stop step).filterMap fun index => values[index.toNat]?

end Slice

variable {α β : Type*} {start stop step index : Int} {length : Nat} {slice : Slice}

theorem mem_rangeOf_of_pos (forward : 0 < step) (member : index ∈ rangeOf start stop step) :
    start ≤ index ∧ index < stop := by
  obtain ⟨place, within, rfl⟩ := mem_map.mp member
  rw [mem_range, rangeLength, if_pos forward] at within
  split at within
  case isFalse => omega
  case isTrue =>
    have bound : (place : Int) ≤ (stop - start - 1) / step := by omega
    have reached := Int.mul_le_of_le_ediv forward bound
    have later := Int.mul_nonneg (Int.natCast_nonneg place) (Int.le_of_lt forward)
    omega

theorem mem_rangeOf_of_neg (backward : step < 0) (member : index ∈ rangeOf start stop step) :
    stop < index ∧ index ≤ start := by
  obtain ⟨place, within, rfl⟩ := mem_map.mp member
  rw [mem_range, rangeLength, if_neg (by omega)] at within
  split at within
  case isFalse => omega
  case isTrue =>
    have reversed : 0 < -step := by omega
    have bound : (place : Int) ≤ (start - stop - 1) / -step := by omega
    have reached := Int.mul_le_of_le_ediv reversed bound
    have later := Int.mul_nonneg (Int.natCast_nonneg place) (Int.le_of_lt reversed)
    rw [Int.mul_neg] at reached later
    omega

theorem rangeOf_one (start stop : Int) : rangeOf start stop 1 =
      (range (stop - start).toNat).map fun index : Nat => start + index := by
  have size : rangeLength start stop 1 = (stop - start).toNat := by
    rw [rangeLength, if_pos Int.one_pos, Int.ediv_one]
    split <;> omega
  rw [rangeOf, size]
  simp

theorem filterMap_range_eq (values : List α) (first count : Nat) :
    (range count).filterMap (fun index => values[first + index]?) =
      (values.drop first).take count := by
  induction count with
  | zero => simp
  | succ count induction =>
    rw [range_succ, filterMap_append, induction, take_add_one, getElem?_drop]
    cases found : values[first + count]? <;> simp [found]

theorem Slice.clamp_bounds (step : Int) (length : Nat) (index : Int) :
    lower step ≤ clamp step length index ∧ clamp step length index ≤ upper step length := by
  unfold clamp lower upper
  split <;> split <;> omega

section

variable (found : slice.indices length = some (start, stop, step))
include found

theorem Slice.indices_bounds :
    step ≠ 0 ∧ (lower step ≤ start ∧ start ≤ upper step length) ∧
      lower step ≤ stop ∧ stop ≤ upper step length := by
  unfold indices at found
  dsimp only at found
  split at found
  case isTrue => exact absurd found (by simp)
  case isFalse nonzero =>
    obtain ⟨rfl, rest⟩ := Prod.mk.inj (Option.some.inj found)
    obtain ⟨rfl, rfl⟩ := Prod.mk.inj rest
    have ordered : lower (slice.step.getD 1) ≤ upper (slice.step.getD 1) length := by
      unfold lower upper
      split <;> omega
    refine ⟨nonzero, ?_, ?_⟩
    · cases slice.start with
      | some index => exact clamp_bounds _ _ index
      | none =>
        rw [Option.map_none, Option.getD_none]
        split <;> exact ⟨by omega, by omega⟩
    · cases slice.stop with
      | some index => exact clamp_bounds _ _ index
      | none =>
        rw [Option.map_none, Option.getD_none]
        split <;> exact ⟨by omega, by omega⟩

theorem Slice.indices_inside
    (member : index ∈ rangeOf start stop step) : 0 ≤ index ∧ index < length := by
  obtain ⟨nonzero, starts, stops⟩ := indices_bounds found
  unfold lower upper at starts stops
  by_cases forward : 0 < step
  case pos =>
    have := mem_rangeOf_of_pos forward member
    split at starts <;> omega
  case neg =>
    have backward : step < 0 := by omega
    have := mem_rangeOf_of_neg backward member
    rw [if_pos backward, if_pos backward] at starts stops
    omega

end

theorem Slice.select_of_step_one {values : List α}
    (found : slice.indices values.length = some (start, stop, 1)) : slice.select values =
      some ((values.take (max start stop).toNat).drop start.toNat) := by
  obtain ⟨-, starts, stops⟩ := indices_bounds found
  unfold lower upper at starts stops
  rw [if_neg (by omega), if_neg (by omega)] at starts stops
  have places : ∀ place ∈ range (stop - start).toNat,
      values[(start + (place : Int)).toNat]? = values[start.toNat + place]? := by
    intro place _
    congr 1
    omega
  have size : (max start stop).toNat - start.toNat = (stop - start).toNat := by omega
  rw [select, found, Option.map_some]
  dsimp only
  rw [rangeOf_one, filterMap_map, drop_take, size, ← filterMap_range_eq]
  exact congrArg some (filterMap_congr places)

end Linktools.Library
