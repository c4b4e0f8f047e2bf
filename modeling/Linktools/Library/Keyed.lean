import Mathlib.Algebra.GroupWithZero.Nat
import Mathlib.Data.List.Perm.Lattice

namespace Linktools.Library

open List

variable {κ ρ σ : Type*} [DecidableEq κ]

def rowAt (key : ρ → κ) (rows : List ρ) (wanted : κ) : Option ρ :=
  rows.find? fun row => key row = wanted

def rewriteAt (key : ρ → κ) (rows : List ρ) (wanted : κ) (row : ρ) : List ρ :=
  rows.map fun current => if key current = wanted then row else current

variable {key : ρ → κ} {rows : List ρ} {wanted : κ} {row : ρ}

omit [DecidableEq κ] in
theorem nodup_map_append (distinct : (rows.map key).Nodup)
    (absent : ∀ other ∈ rows, key other ≠ key row) : ((rows ++ [row]).map key).Nodup := by
  rw [map_append, nodup_append]
  refine ⟨distinct, nodup_singleton _, ?_⟩
  intro left member right same
  obtain ⟨other, stored, rfl⟩ := mem_map.mp member
  rw [mem_singleton.mp same]
  exact absent other stored

theorem rowAt_cons (head : ρ) : rowAt key (head :: rows) wanted =
      if key head = wanted then some head else rowAt key rows wanted := by
  simp only [rowAt, find?_cons]
  split <;> simp_all

theorem rowAt_mem (found : rowAt key rows wanted = some row) : row ∈ rows :=
  mem_of_find?_eq_some found

theorem rowAt_key (found : rowAt key rows wanted = some row) : key row = wanted := by
  simpa using find?_some found

theorem rowAt_of_mem (distinct : (rows.map key).Nodup) (member : row ∈ rows) :
    rowAt key rows (key row) = some row := by
  induction rows with
  | nil => simp at member
  | cons head tail ih =>
    simp only [map_cons, nodup_cons] at distinct
    rw [rowAt_cons]
    rcases mem_cons.mp member with rfl | inTail
    · simp
    · have different : key head ≠ key row := fun same =>
        distinct.1 (same ▸ mem_map_of_mem inTail)
      rw [if_neg different, ih distinct.2 inTail]

theorem rowAt_eq_some_iff (distinct : (rows.map key).Nodup) :
    rowAt key rows wanted = some row ↔ row ∈ rows ∧ key row = wanted := by
  constructor
  · exact fun found => ⟨rowAt_mem found, rowAt_key found⟩
  · rintro ⟨member, rfl⟩
    exact rowAt_of_mem distinct member

theorem rowAt_eq_none_iff : rowAt key rows wanted = none ↔ wanted ∉ rows.map key := by
  simp only [rowAt, find?_eq_none, decide_eq_true_eq, mem_map, not_exists, not_and]

theorem rowAt_isSome_iff : (∃ row, rowAt key rows wanted = some row) ↔ wanted ∈ rows.map key := by
  rw [← not_iff_not, ← rowAt_eq_none_iff]
  cases rowAt key rows wanted <;> simp

theorem rowAt_append (left right : List ρ) : rowAt key (left ++ right) wanted =
      (rowAt key left wanted).or (rowAt key right wanted) := by
  simp [rowAt, find?_append]

theorem rowAt_filter (found : rowAt key rows wanted = some row) (kept : keep row = true) :
    rowAt key (rows.filter keep) wanted = some row := by
  induction rows with
  | nil => cases found
  | cons head tail ih =>
    rw [rowAt_cons] at found
    split at found
    case isTrue here =>
      cases found
      rw [filter_cons_of_pos kept, rowAt_cons, if_pos here]
    case isFalse elsewhere =>
      cases keeps : keep head with
      | true => rw [filter_cons_of_pos keeps, rowAt_cons, if_neg elsewhere, ih found]
      | false => rw [filter_cons_of_neg (by simp [keeps]), ih found]

theorem rowAt_perm (distinct : (left.map key).Nodup) (same : left.Perm right) :
    rowAt key left wanted = rowAt key right wanted := by
  have distinctRight : (right.map key).Nodup := (same.map key).nodup_iff.mp distinct
  apply Option.ext
  intro row
  rw [rowAt_eq_some_iff distinct, rowAt_eq_some_iff distinctRight, same.mem_iff]

theorem map_key_rewriteAt (same : key row = wanted) :
    (rewriteAt key rows wanted row).map key = rows.map key := by
  simp only [rewriteAt, map_map]
  apply map_congr_left
  intro current _
  simp only [Function.comp_apply]
  split
  case isTrue here => rw [same, here]
  case isFalse => rfl

theorem exists_split_rewriteAt (next : ρ) (distinct : (rows.map key).Nodup)
    (found : rowAt key rows wanted = some row) : ∃ before after, rows = before ++ row :: after ∧
      rewriteAt key rows wanted next = before ++ next :: after := by
  obtain ⟨before, after, split⟩ := append_of_mem (rowAt_mem found)
  have same := rowAt_key found
  subst split
  rw [map_append, map_cons, same] at distinct
  obtain ⟨_, tail, apart⟩ := nodup_append.mp distinct
  have keep : ∀ {part : List ρ}, wanted ∉ part.map key → rewriteAt key part wanted next = part := by
    intro part absent
    refine (map_congr_left fun current member => if_neg ?_).trans (map_id part)
    exact fun equal => absent (mem_map.mpr ⟨current, member, equal⟩)
  have fresh : wanted ∉ before.map key :=
    fun member => apart wanted member wanted mem_cons_self rfl
  refine ⟨before, after, rfl, ?_⟩
  rw [rewriteAt, map_append, map_cons, if_pos same, ← rewriteAt, ← rewriteAt,
    keep fresh, keep (nodup_cons.mp tail).1]

theorem mem_rewriteAt (member : found ∈ rewriteAt key rows wanted row) :
    found = row ∨ found ∈ rows ∧ key found ≠ wanted := by
  obtain ⟨current, inside, rfl⟩ := mem_map.mp member
  split
  case isTrue => exact .inl rfl
  case isFalse elsewhere => exact .inr ⟨inside, elsewhere⟩

theorem rowAt_rewriteAt_of_ne (same : key row = wanted) (different : other ≠ wanted) :
    rowAt key (rewriteAt key rows wanted row) other = rowAt key rows other := by
  induction rows with
  | nil => rfl
  | cons head tail ih =>
    have unfolded : rewriteAt key (head :: tail) wanted row =
        (if key head = wanted then row else head) :: rewriteAt key tail wanted row := rfl
    rw [unfolded, rowAt_cons, rowAt_cons, ih]
    split
    case isTrue here => rw [if_neg (same ▸ different.symm), if_neg (here ▸ different.symm)]
    case isFalse => rfl

theorem rowAt_rewriteAt_self (row : ρ) (same : key row = wanted) (present : wanted ∈ rows.map key) :
    rowAt key (rewriteAt key rows wanted row) wanted = some row := by
  induction rows with
  | nil => simp at present
  | cons head tail ih =>
    have unfolded : rewriteAt key (head :: tail) wanted row =
        (if key head = wanted then row else head) :: rewriteAt key tail wanted row := rfl
    rw [unfolded, rowAt_cons]
    by_cases here : key head = wanted
    · rw [if_pos here, if_pos same]
    · have inTail : wanted ∈ tail.map key := by
        rcases mem_cons.mp present with equal | inTail
        · exact absurd equal.symm here
        · exact inTail
      rw [if_neg here, if_neg here, ih inTail]

variable {related : ρ → σ → Prop} {right : List σ} {left : List ρ} {before : Option ρ}
  {after : Option σ} {value : σ}

omit [DecidableEq κ] in
theorem exists_left_of_rel (rel : Option.Rel related before after) (found : after = some value) :
    ∃ row, before = some row ∧ related row value := by
  subst found
  cases rel with
  | some holds => exact ⟨_, rfl, holds⟩

omit [DecidableEq κ] in
theorem exists_right_of_rel (rel : Option.Rel related before after) (found : before = some row) :
    ∃ value, after = some value ∧ related row value := by
  subst found
  cases rel with
  | some holds => exact ⟨_, rfl, holds⟩

variable {key' : σ → κ}

theorem rowAt_forall₂ (wanted : κ)
    (keeps : ∀ left right, related left right → key' right = key left)
    (rowwise : List.Forall₂ related left right) :
    Option.Rel related (rowAt key left wanted) (rowAt key' right wanted) := by
  induction rowwise with
  | nil => exact .none
  | cons head _ ih =>
    rw [rowAt_cons, rowAt_cons, keeps _ _ head]
    split
    case isTrue => exact .some head
    case isFalse => exact ih

omit [DecidableEq κ] in
theorem forall₂_map_key (keeps : ∀ left right, related left right → key' right = key left)
    (rowwise : List.Forall₂ related left right) : right.map key' = left.map key := by
  induction rowwise with
  | nil => rfl
  | cons head _ ih => simp only [map_cons, keeps _ _ head, ih]

omit [DecidableEq κ] in
section

variable (rowwise : List.Forall₂ related left right)
include rowwise

theorem forall₂_zip_right (member : value ∈ right) :
    ∃ row, (row, value) ∈ left.zip right ∧ related row value := by
  induction rowwise with
  | nil => simp at member
  | cons head _ ih =>
    rcases mem_cons.mp member with rfl | inTail
    · exact ⟨_, mem_cons_self, head⟩
    · obtain ⟨row, inside, holds⟩ := ih inTail
      exact ⟨row, mem_cons_of_mem _ inside, holds⟩

theorem forall₂_mem_right (member : value ∈ right) : ∃ row ∈ left, related row value := by
  obtain ⟨row, inside, holds⟩ := forall₂_zip_right rowwise member
  exact ⟨row, (of_mem_zip inside).1, holds⟩

theorem forall₂_mem_left (member : row ∈ left) : ∃ value ∈ right, related row value :=
  forall₂_mem_right rowwise.flip member

end

theorem countP_le_of_forall₂ {before : ρ → Bool} {after : σ → Bool}
    (rowwise : List.Forall₂ (fun row value => after value → before row) left right) :
    right.countP after ≤ left.countP before := by
  induction rowwise with
  | nil => exact Nat.le_refl 0
  | cons =>
    rw [countP_cons, countP_cons]
    grind

omit [DecidableEq κ] in
theorem countP_lt_of_mem (member : row ∈ rows) (narrower : ∀ row ∈ rows, narrow row → wide row)
    (counted : wide row = true) (dropped : narrow row = false) :
    rows.countP narrow < rows.countP wide := by
  obtain ⟨before, after, rfl⟩ := append_of_mem member
  have left : before.countP narrow ≤ before.countP wide :=
    countP_mono_left fun row inside => narrower row (mem_append_left _ inside)
  have right : after.countP narrow ≤ after.countP wide :=
    countP_mono_left fun row inside =>
      narrower row (mem_append_right _ (mem_cons_of_mem _ inside))
  simp only [countP_append, countP_cons, counted, dropped, if_true]
  simp only [Bool.false_eq_true, if_false]
  omega

theorem countP_rewriteAt_le (distinct : (rows.map key).Nodup) :
    (rewriteAt key rows wanted row).countP counted ≤ rows.countP counted + 1 := by
  induction rows with
  | nil => simp [rewriteAt]
  | cons head tail ih =>
    obtain ⟨fresh, tailDistinct⟩ := nodup_cons.mp distinct
    have unfolded : rewriteAt key (head :: tail) wanted row =
        (if key head = wanted then row else head) :: rewriteAt key tail wanted row := rfl
    rw [unfolded, countP_cons, countP_cons]
    split
    case isTrue here =>
      have same : rewriteAt key tail wanted row = tail := by
        apply (map_congr_left ?_).trans (map_id tail)
        intro current member
        apply if_neg
        rintro rfl
        exact fresh (here ▸ mem_map_of_mem member)
      rw [same]
      grind
    case isFalse =>
      have := ih tailDistinct
      omega

theorem countP_of_apart (covers : ∀ row, either row = (first row || second row))
    (apart : ∀ row, first row = true → second row = false) :
    rows.countP either = rows.countP first + rows.countP second := by
  induction rows with
  | nil => rfl
  | cons head tail ih =>
    rw [countP_cons, countP_cons, countP_cons, ih, covers head]
    have := apart head
    grind

theorem forall₂_map_right (each : ∀ row ∈ rows, related row (transform row)) :
    List.Forall₂ related rows (rows.map transform) := by
  rw [forall₂_map_right_iff]
  exact forall₂_same.mpr each

theorem forall₂_rewriteAt {related : ρ → ρ → Prop}
    (unchanged : ∀ current ∈ rows, key current ≠ wanted → related current current)
    (changed : ∀ current ∈ rows, key current = wanted → related current row) :
    List.Forall₂ related rows (rewriteAt key rows wanted row) := by
  apply forall₂_map_right
  intro current member
  split
  case isTrue here => exact changed current member here
  case isFalse elsewhere => exact unchanged current member elsewhere

theorem sum_filter_key (weight : ρ → Nat) (distinct : (rows.map key).Nodup) (member : row ∈ rows) :
    (rows.map weight).sum =
      ((rows.filter fun other => key other ≠ key row).map weight).sum + weight row := by
  induction rows with
  | nil => cases member
  | cons head tail ih =>
    rw [map_cons, nodup_cons] at distinct
    rw [map_cons, sum_cons]
    by_cases here : key head = key row
    case pos =>
      have same : head = row := by
        cases mem_cons.mp member with
        | inl own => exact own.symm
        | inr later => exact absurd (here ▸ mem_map_of_mem later) distinct.1
      have others : tail.filter (fun other => key other ≠ key row) = tail := by
        rw [filter_eq_self]
        intro other otherMember
        refine decide_eq_true fun again => distinct.1 ?_
        rw [here, ← again]
        exact mem_map_of_mem otherMember
      rw [filter_cons_of_neg (by simpa using here), others, same, add_comm]
    case neg =>
      have later : row ∈ tail := by
        cases mem_cons.mp member with
        | inl own => exact absurd (own ▸ rfl) here
        | inr later => exact later
      have sum := ih distinct.2 later
      rw [filter_cons_of_pos (by simpa using here), map_cons, sum_cons]
      omega

theorem rowAt_filter_of_ne (different : wanted ≠ gone) :
    rowAt key (rows.filter fun other => key other ≠ gone) wanted = rowAt key rows wanted := by
  induction rows with
  | nil => rfl
  | cons head tail ih =>
    by_cases leaves : key head = gone
    case pos =>
      rw [filter_cons_of_neg (by simp [leaves]), ih, rowAt_cons,
        if_neg fun here => different (here.symm.trans leaves)]
    case neg => rw [filter_cons_of_pos (by simp [leaves]), rowAt_cons, rowAt_cons, ih]

theorem rowAt_filter_self : rowAt key (rows.filter fun other => key other ≠ gone) gone = none := by
  rw [rowAt_eq_none_iff]
  intro member
  obtain ⟨other, kept, here⟩ := mem_map.mp member
  exact of_decide_eq_true (mem_filter.mp kept).2 here

variable {more : List ρ}

theorem rowAt_append_of_some (found : rowAt key rows wanted = some row) :
    rowAt key (rows ++ more) wanted = some row := by
  rw [rowAt_append, found, Option.some_or]

theorem rowAt_append_of_ne (different : ∀ other ∈ more, key other ≠ wanted) :
    rowAt key (rows ++ more) wanted = rowAt key rows wanted := by
  have missing : rowAt key more wanted = none := by
    rw [rowAt_eq_none_iff]
    intro member
    obtain ⟨other, added, here⟩ := mem_map.mp member
    exact different other added here
  rw [rowAt_append, missing, Option.or_none]

theorem rowAt_append_self (absent : rowAt key rows (key row) = none) :
    rowAt key (rows ++ [row]) (key row) = some row := by
  rw [rowAt_append, absent, Option.none_or, rowAt_cons, if_pos rfl]

theorem rowAt_append_ne_none (found : rowAt key rows wanted ≠ none) :
    rowAt key (rows ++ more) wanted ≠ none := by
  obtain ⟨row, present⟩ := Option.ne_none_iff_exists'.mp found
  rw [rowAt_append_of_some present]
  exact nofun

end Linktools.Library
