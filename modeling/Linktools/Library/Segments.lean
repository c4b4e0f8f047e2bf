import Mathlib.Data.List.Forall2

/-! A sequence cut into consecutive segments, one for each pattern of a list. -/

namespace Linktools.Library

variable {α β : Type*} {covers : List α → β → Prop}
variable {items segment : List α} {pattern : β} {patterns : List β}

def Segmented (covers : List α → β → Prop) (items : List α) (patterns : List β) : Prop :=
  ∃ segments : List (List α), segments.flatten = items ∧ List.Forall₂ covers segments patterns

@[simp] theorem segmented_nil_iff : Segmented covers items [] ↔ items = [] := by
  constructor
  · rintro ⟨segments, rfl, covered⟩
    cases covered
    rfl
  · rintro rfl
    exact ⟨[], rfl, .nil⟩

theorem segmented_cons_iff : Segmented covers items (pattern :: patterns) ↔
      ∃ segment rest, items = segment ++ rest ∧ covers segment pattern ∧
        Segmented covers rest patterns := by
  constructor
  · rintro ⟨segments, rfl, covered⟩
    cases covered with
    | cons first others => exact ⟨_, _, rfl, first, _, rfl, others⟩
  · rintro ⟨segment, rest, rfl, first, segments, rfl, others⟩
    exact ⟨segment :: segments, rfl, .cons first others⟩

theorem segmented_cons_of_single (single : ∀ segment, covers segment pattern ↔
      ∃ item, segment = [item] ∧ covers [item] pattern) :
    Segmented covers (item :: items) (pattern :: patterns) ↔
      covers [item] pattern ∧ Segmented covers items patterns := by
  rw [segmented_cons_iff]
  constructor
  · rintro ⟨segment, rest, cut, covered, others⟩
    obtain ⟨chosen, rfl, covered⟩ := (single segment).mp covered
    obtain ⟨rfl, rfl⟩ := List.cons.inj cut
    exact ⟨covered, others⟩
  · rintro ⟨covered, others⟩
    exact ⟨[item], items, rfl, covered, others⟩

theorem not_segmented_nil_of_single (single : ∀ segment, covers segment pattern → segment ≠ []) :
    ¬ Segmented covers [] (pattern :: patterns) := by
  rw [segmented_cons_iff]
  rintro ⟨segment, rest, cut, covered, -⟩
  exact single segment covered (List.append_eq_nil_iff.mp cut.symm).1

section

variable (any : ∀ segment, covers segment pattern)
include any

theorem segmented_nil_of_any :
    Segmented covers [] (pattern :: patterns) ↔ Segmented covers [] patterns := by
  rw [segmented_cons_iff]
  constructor
  · rintro ⟨segment, rest, cut, -, others⟩
    obtain rfl := (List.append_eq_nil_iff.mp cut.symm).2
    exact others
  · intro others
    exact ⟨[], [], rfl, any [], others⟩

theorem segmented_cons_of_any : Segmented covers (item :: items) (pattern :: patterns) ↔
      Segmented covers items (pattern :: patterns) ∨ Segmented covers (item :: items) patterns := by
  rw [segmented_cons_iff, segmented_cons_iff]
  constructor
  · rintro ⟨segment, rest, cut, -, others⟩
    cases segment with
    | nil =>
      obtain rfl := cut
      exact .inr others
    | cons head segment =>
      obtain ⟨rfl, rfl⟩ := List.cons.inj cut
      exact .inl ⟨segment, rest, rfl, any _, others⟩
  · rintro (⟨segment, rest, rfl, -, others⟩ | others)
    · exact ⟨item :: segment, rest, rfl, any _, others⟩
    · exact ⟨[], _, rfl, any [], others⟩

theorem segmented_of_any
    (others : Segmented covers items patterns) : Segmented covers items (pattern :: patterns) :=
  segmented_cons_iff.mpr ⟨[], items, rfl, any [], others⟩

end

end Linktools.Library
