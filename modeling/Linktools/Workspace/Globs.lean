import Linktools.Library.Segments
import Mathlib.Order.Interval.Finset.Nat

/-! Matching of a workspace path against a glob. The states are positions in the pattern's
components, closed under skipping a run of `**`. -/

namespace Linktools.Workspace

open Library List

variable (fnmatchcase : String → String → Bool)

def skipped : List String → Nat → Finset Nat
  | [], _ => ∅
  | pattern :: patterns, state =>
    if pattern = "**" then insert (state + 1) (skipped patterns (state + 1)) else ∅

def closure (patterns : List String) (states : Finset Nat) : Finset Nat :=
  states ∪ states.biUnion fun state => skipped (patterns.drop state) state

def followed (patterns : List String) (part : String) (state : Nat) : Finset Nat :=
  match patterns[state]? with
  | none => ∅
  | some pattern =>
    if pattern = "**" then {state}
    else if fnmatchcase part pattern then {state + 1} else ∅

def following (patterns : List String) (part : String) (states : Finset Nat) : Finset Nat :=
  states.biUnion (followed fnmatchcase patterns part)

def consume (patterns : List String) : List String → Finset Nat → Bool
  | [], states => patterns.length ∈ states
  | part :: parts, states =>
    let states := closure patterns (following fnmatchcase patterns part states)
    if states = ∅ then false else consume patterns parts states

def globMatches (path pattern : String) : Bool :=
  let patterns := pattern.splitOn "/"
  consume fnmatchcase patterns (path.splitOn "/") (closure patterns {0})

/-! What a component of a pattern stands for: `**` for any components of the path, and every
other for one component that it matches. -/

def Covers (parts : List String) (pattern : String) : Prop :=
  if pattern = "**" then True else ∃ part, parts = [part] ∧ fnmatchcase part pattern = true

variable {fnmatchcase} {patterns parts : List String} {pattern part : String} {state : Nat}

theorem covers_any (parts : List String) : Covers fnmatchcase parts "**" := by
  simp [Covers]

section

variable (component : pattern ≠ "**")
include component

theorem covers_single (parts : List String) : Covers fnmatchcase parts pattern ↔
      ∃ part, parts = [part] ∧ Covers fnmatchcase [part] pattern := by
  simp [Covers, component]

theorem covers_part_iff : Covers fnmatchcase [part] pattern ↔ fnmatchcase part pattern = true := by
  simp [Covers, component]

theorem segmented_component_iff :
    Segmented (Covers fnmatchcase) (part :: parts) (pattern :: patterns) ↔
      fnmatchcase part pattern = true ∧ Segmented (Covers fnmatchcase) parts patterns := by
  rw [segmented_cons_of_single (covers_single component), covers_part_iff component]

theorem not_segmented_component : ¬ Segmented (Covers fnmatchcase) [] (pattern :: patterns) := by
  apply not_segmented_nil_of_single
  intro segment covered
  obtain ⟨part, rfl, -⟩ := (covers_single component segment).mp covered
  exact cons_ne_nil part []

end

def Closed (patterns : List String) (states : Finset Nat) : Prop :=
  ∀ state ∈ states, patterns[state]? = some "**" → state + 1 ∈ states

theorem drop_eq_cons (component : patterns[state]? = some pattern) :
    patterns.drop state = pattern :: patterns.drop (state + 1) := by
  obtain ⟨bound, rfl⟩ := List.getElem?_eq_some_iff.mp component
  exact List.drop_eq_getElem_cons bound

variable {states : Finset Nat}

theorem skipped_subset_closure (member : state ∈ states) :
    skipped (patterns.drop state) state ⊆ closure patterns states := by
  intro position skips
  exact Finset.mem_union_right _ (Finset.mem_biUnion.mpr ⟨state, member, skips⟩)

theorem skipped_of_any (wild : patterns[state]? = some "**") : skipped (patterns.drop state) state =
      insert (state + 1) (skipped (patterns.drop (state + 1)) (state + 1)) := by
  rw [drop_eq_cons wild]
  simp [skipped]

theorem skipped_next (rest : List String) (start : Nat) (holds : patterns.drop start = rest) :
    ∀ position ∈ skipped rest start, patterns[position]? = some "**" →
      position + 1 ∈ skipped rest start := by
  induction rest generalizing start with
  | nil =>
    intro position skips
    simp [skipped] at skips
  | cons pattern rest induction =>
    intro position skips wild
    by_cases any : pattern = "**"
    case neg => simp [skipped, any] at skips
    case pos =>
      have later : patterns.drop (start + 1) = rest := by
        rw [← drop_drop, holds, drop_one, tail_cons]
      simp only [skipped, any, if_true, Finset.mem_insert] at skips ⊢
      rcases skips with rfl | skips
      · right
        rw [← later, skipped_of_any wild]
        exact Finset.mem_insert_self _ _
      · exact .inr (induction (start + 1) later position skips wild)

theorem closure_closed (states : Finset Nat) : Closed patterns (closure patterns states) := by
  intro position member wild
  rcases Finset.mem_union.mp member with kept | added
  · apply skipped_subset_closure kept
    rw [skipped_of_any wild]
    exact Finset.mem_insert_self _ _
  · obtain ⟨state, kept, skips⟩ := Finset.mem_biUnion.mp added
    exact skipped_subset_closure kept (skipped_next _ state rfl position skips wild)

def Accepts (fnmatchcase : String → String → Bool) (patterns : List String)
    (states : Finset Nat) (parts : List String) : Prop :=
  ∃ state ∈ states, Segmented (Covers fnmatchcase) parts (patterns.drop state)

theorem skipped_accepted (rest : List String) (start : Nat)
    (holds : patterns.drop start = rest) : ∀ position ∈ skipped rest start,
      Segmented (Covers fnmatchcase) parts (patterns.drop position) →
        Segmented (Covers fnmatchcase) parts rest := by
  induction rest generalizing start with
  | nil =>
    intro position skips
    simp [skipped] at skips
  | cons pattern rest induction =>
    intro position skips accepted
    by_cases any : pattern = "**"
    case neg => simp [skipped, any] at skips
    case pos =>
      subst any
      have later : patterns.drop (start + 1) = rest := by
        rw [← drop_drop, holds, drop_one, tail_cons]
      apply segmented_of_any covers_any
      simp only [skipped, if_true, Finset.mem_insert] at skips
      rcases skips with rfl | skips
      · rwa [later] at accepted
      · exact induction (start + 1) later position skips accepted

theorem closure_accepts_iff : Accepts fnmatchcase patterns (closure patterns states) parts ↔
      Accepts fnmatchcase patterns states parts := by
  constructor
  · rintro ⟨position, member, accepted⟩
    rcases Finset.mem_union.mp member with kept | added
    · exact ⟨position, kept, accepted⟩
    · obtain ⟨state, kept, skips⟩ := Finset.mem_biUnion.mp added
      exact ⟨state, kept, skipped_accepted _ state rfl position skips accepted⟩
  · rintro ⟨state, kept, accepted⟩
    exact ⟨state, Finset.mem_union_left _ kept, accepted⟩

theorem Closed.accepts_nil_iff (closed : Closed patterns states)
    (bounded : ∀ state ∈ states, state ≤ patterns.length) :
    Accepts fnmatchcase patterns states [] ↔ patterns.length ∈ states := by
  constructor
  · rintro ⟨state, member, accepted⟩
    obtain ⟨distance, bound⟩ := Nat.exists_eq_add_of_le (bounded state member)
    induction distance generalizing state with
    | zero => exact bound ▸ member
    | succ distance induction =>
      have inside : state < patterns.length := by omega
      have component : patterns[state]? = some patterns[state] := getElem?_eq_getElem inside
      rw [drop_eq_cons component] at accepted
      by_cases any : patterns[state] = "**"
      case neg => exact absurd accepted (not_segmented_component any)
      case pos =>
        rw [any] at component accepted
        rw [segmented_nil_of_any covers_any] at accepted
        exact induction (state + 1) (closed state member component) accepted (by omega)
  · intro member
    refine ⟨patterns.length, member, ?_⟩
    rw [drop_length, segmented_nil_iff]

theorem followed_accepted (follows : position ∈ followed fnmatchcase patterns part state)
    (accepted : Segmented (Covers fnmatchcase) parts (patterns.drop position)) :
    Segmented (Covers fnmatchcase) (part :: parts) (patterns.drop state) := by
  unfold followed at follows
  split at follows
  · simp at follows
  · rename_i pattern component
    rw [drop_eq_cons component]
    split at follows
    case isTrue any =>
      subst any
      obtain rfl := Finset.mem_singleton.mp follows
      rw [drop_eq_cons component] at accepted
      exact (segmented_cons_of_any covers_any).mpr (.inl accepted)
    case isFalse single =>
      split at follows
      case isFalse => simp at follows
      case isTrue fits =>
        obtain rfl := Finset.mem_singleton.mp follows
        exact (segmented_component_iff single).mpr ⟨fits, accepted⟩

/-! A match that starts at a state passes the `**` that cover nothing and then follows the
first component that takes the part. -/

theorem Closed.follows (closed : Closed patterns states) (member : state ∈ states)
    (accepted : Segmented (Covers fnmatchcase) (part :: parts) (patterns.drop state)) :
    Accepts fnmatchcase patterns (following fnmatchcase patterns part states) parts := by
  induction remaining : patterns.length - state generalizing state with
  | zero =>
    rw [drop_eq_nil_of_le (Nat.sub_eq_zero_iff_le.mp remaining), segmented_nil_iff] at accepted
    exact absurd accepted (cons_ne_nil part parts)
  | succ distance induction =>
    have inside : state < patterns.length := by omega
    have component : patterns[state]? = some patterns[state] := getElem?_eq_getElem inside
    have moves : ∀ position, position ∈ followed fnmatchcase patterns part state →
        position ∈ following fnmatchcase patterns part states :=
      fun position follows => Finset.mem_biUnion.mpr ⟨state, member, follows⟩
    rw [drop_eq_cons component] at accepted
    by_cases any : patterns[state] = "**"
    case pos =>
      rw [any] at component accepted
      rcases (segmented_cons_of_any covers_any).mp accepted with taken | passed
      · refine ⟨state, moves state (by simp [followed, component]), ?_⟩
        rwa [drop_eq_cons component]
      · exact induction (closed state member component) passed (by omega)
    case neg =>
      obtain ⟨fits, rest⟩ := (segmented_component_iff any).mp accepted
      exact ⟨state + 1, moves (state + 1) (by simp [followed, component, any, fits]), rest⟩

theorem Closed.following_accepts_iff (closed : Closed patterns states) :
    Accepts fnmatchcase patterns (following fnmatchcase patterns part states) parts ↔
      Accepts fnmatchcase patterns states (part :: parts) := by
  constructor
  · rintro ⟨position, member, accepted⟩
    obtain ⟨state, kept, follows⟩ := Finset.mem_biUnion.mp member
    exact ⟨state, kept, followed_accepted follows accepted⟩
  · rintro ⟨state, member, accepted⟩
    exact closed.follows member accepted

theorem skipped_bounded (rest : List String) (start : Nat) :
    ∀ position ∈ skipped rest start, position ≤ start + rest.length := by
  induction rest generalizing start with
  | nil =>
    intro position skips
    simp [skipped] at skips
  | cons pattern rest induction =>
    intro position skips
    unfold skipped at skips
    split at skips
    case isFalse => simp at skips
    case isTrue =>
      rw [length_cons]
      rcases Finset.mem_insert.mp skips with rfl | later
      · omega
      · have := induction (start + 1) position later
        omega

theorem closure_bounded (bounded : ∀ state ∈ states, state ≤ patterns.length) :
    ∀ state ∈ closure patterns states, state ≤ patterns.length := by
  intro position member
  rcases Finset.mem_union.mp member with kept | added
  · exact bounded position kept
  · obtain ⟨state, kept, skips⟩ := Finset.mem_biUnion.mp added
    have within := skipped_bounded _ state position skips
    have := bounded state kept
    rw [length_drop] at within
    omega

theorem following_bounded (states : Finset Nat) :
    ∀ state ∈ following fnmatchcase patterns part states, state ≤ patterns.length := by
  intro position member
  obtain ⟨state, -, follows⟩ := Finset.mem_biUnion.mp member
  unfold followed at follows
  split at follows
  · simp at follows
  · rename_i pattern component
    obtain ⟨inside, -⟩ := List.getElem?_eq_some_iff.mp component
    split at follows
    · rw [Finset.mem_singleton] at follows
      omega
    · split at follows
      · rw [Finset.mem_singleton] at follows
        omega
      · simp at follows

theorem consume_iff (parts : List String) (closed : Closed patterns states)
    (bounded : ∀ state ∈ states, state ≤ patterns.length) :
    consume fnmatchcase patterns parts states = true ↔
      Accepts fnmatchcase patterns states parts := by
  induction parts generalizing states with
  | nil => rw [consume, decide_eq_true_iff, closed.accepts_nil_iff bounded]
  | cons part parts induction =>
    rw [← closed.following_accepts_iff, ← closure_accepts_iff]
    have moved := induction (closure_closed (following fnmatchcase patterns part states))
      (closure_bounded (following_bounded states))
    rw [consume]
    split
    case isTrue nowhere => simp [Accepts, nowhere]
    case isFalse => exact moved

theorem glob_matches_segments (fnmatchcase : String → String → Bool) (path pattern : String) :
    globMatches fnmatchcase path pattern = true ↔
      Segmented (Covers fnmatchcase) (path.splitOn "/") (pattern.splitOn "/") := by
  unfold globMatches
  rw [consume_iff _ (closure_closed {0})
    (closure_bounded (fun state start => by simp [Finset.mem_singleton.mp start])),
    closure_accepts_iff]
  simp [Accepts]

end Linktools.Workspace
