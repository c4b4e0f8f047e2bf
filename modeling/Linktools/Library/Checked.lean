import Mathlib.Data.List.Forall2

namespace Linktools.Library

open List

universe u v

variable {ε : Type v} {α β : Type u}

/-! Guarded computations in `Except`.  A guard states the condition under which
the computation raises, so that it reads like the source's own test. -/

def refuse (condition : Prop) [Decidable condition] (error : ε) : Except ε Unit :=
  if condition then .error error else .ok ()

def orRaise (value : Option α) (error : ε) : Except ε α :=
  match value with
  | some value => .ok value
  | none => .error error

variable {action : Except ε α} {next : α → Except ε β} {result : β}

theorem bind_eq_ok : action >>= next = .ok result ↔
      ∃ value, action = .ok value ∧ next value = .ok result := by
  cases action with
  | error error =>
    constructor
    · intro impossible
      cases impossible
    · rintro ⟨value, impossible, _⟩
      cases impossible
  | ok value =>
    constructor
    · intro continued
      exact ⟨value, rfl, continued⟩
    · rintro ⟨found, equality, continued⟩
      cases equality
      exact continued

theorem pure_eq_ok {value result : α} :
    (pure value : Except ε α) = .ok result ↔ value = result := by
  change Except.ok value = Except.ok result ↔ value = result
  simp only [Except.ok.injEq]

theorem pair_eq_ok : (pure (left, right) : Except ε (α × β)) = .ok (first, second) ↔
    left = first ∧ right = second := by
  rw [pure_eq_ok, Prod.mk.injEq]

variable {transform : α → β}

theorem map_eq_ok : transform <$> action = .ok result ↔
      ∃ value, action = .ok value ∧ transform value = result := by
  cases action with
  | error error =>
    constructor
    · intro impossible
      cases impossible
    · rintro ⟨value, impossible, _⟩
      cases impossible
  | ok value =>
    change Except.ok (transform value) = Except.ok result ↔ _
    simp only [Except.ok.injEq, exists_eq_left']

theorem map_injective_eq_ok (injective : Function.Injective transform) :
    transform <$> action = .ok (transform value) ↔ action = .ok value := by
  simp only [map_eq_ok, injective.eq_iff, exists_eq_right]

variable {condition : Prop}

theorem refuse_eq_ok [Decidable condition] {error : ε}
    {done : Unit} : refuse condition error = .ok done ↔ ¬condition := by
  unfold refuse
  split <;> simp_all

theorem orRaise_eq_ok {value : Option α} {error : ε} {result : α} :
    orRaise value error = .ok result ↔ value = some result := by
  cases value <;> simp [orRaise]

theorem bind_eq_error : action >>= next = .error error ↔
      action = .error error ∨ ∃ value, action = .ok value ∧ next value = .error error := by
  cases action with
  | error raised =>
    constructor
    · intro failed
      exact .inl (congrArg Except.error (Except.error.inj failed))
    · rintro (failed | ⟨_, impossible, _⟩)
      · cases failed
        rfl
      · cases impossible
  | ok value =>
    constructor
    · intro failed
      exact .inr ⟨value, rfl, failed⟩
    · rintro (impossible | ⟨_, same, failed⟩)
      · cases impossible
      · cases same
        exact failed

theorem refuse_eq_error [Decidable condition] {error raised : ε} :
    refuse condition error = .error raised ↔ condition ∧ error = raised := by
  unfold refuse
  split <;> simp_all

theorem refuse_of_not [Decidable condition] {error : ε}
    (allowed : ¬condition) : refuse condition error = .ok () :=
  refuse_eq_ok.mpr allowed

theorem refuse_of [Decidable condition] {error : ε}
    (holds : condition) : refuse condition error = .error error := by
  simp [refuse, holds]

theorem ok_bind : (Except.ok value >>= next) = next value := rfl

theorem error_bind : ((Except.error error : Except ε α) >>= next) = .error error := rfl

variable {items : List α}

theorem forM_eq_ok {check : α → Except ε PUnit} :
    items.forM check = .ok ⟨⟩ ↔ ∀ item ∈ items, check item = .ok ⟨⟩ := by
  induction items with
  | nil => simp [pure_eq_ok]
  | cons head tail ih =>
    change (check head >>= fun _ => tail.forM check) = .ok ⟨⟩ ↔ _
    rw [bind_eq_ok, forall_mem_cons, ← ih]
    constructor
    · rintro ⟨_, first, rest⟩
      exact ⟨first, rest⟩
    · rintro ⟨first, rest⟩
      exact ⟨_, first, rest⟩

variable {transform : α → Except ε β}

theorem mapM_eq_ok {results : List β} : items.mapM transform = .ok results ↔
      List.Forall₂ (fun item result => transform item = .ok result) items results := by
  induction items generalizing results with
  | nil =>
    rw [mapM_nil, pure_eq_ok, forall₂_nil_left_iff]
    exact eq_comm
  | cons head tail ih =>
    simp only [mapM_cons, bind_eq_ok, pure_eq_ok, ih, forall₂_cons_left_iff]
    constructor
    · rintro ⟨first, transformed, rest, related, rfl⟩
      exact ⟨first, rest, transformed, related, rfl⟩
    · rintro ⟨first, rest, transformed, related, rfl⟩
      exact ⟨first, transformed, rest, related, rfl⟩

theorem mapM_eq_map {result : α → β} (each : ∀ item ∈ items, transform item = .ok (result item)) :
    items.mapM transform = .ok (items.map result) := by
  rw [mapM_eq_ok, forall₂_map_right_iff, forall₂_same]
  exact each

theorem exists_mapM {related : α → β → Prop}
    (each : ∀ item ∈ items, ∃ result, transform item = .ok result ∧ related item result) :
    ∃ results, items.mapM transform = .ok results ∧ List.Forall₂ related items results := by
  induction items with
  | nil => exact ⟨[], rfl, .nil⟩
  | cons head tail ih =>
    obtain ⟨first, transformed, holds⟩ := each head mem_cons_self
    obtain ⟨rest, mapped, tailHolds⟩ :=
      ih fun item member => each item (mem_cons_of_mem _ member)
    refine ⟨first :: rest, ?_, .cons holds tailHolds⟩
    rw [mapM_cons, transformed, mapped]
    rfl

theorem toOption_eq_some : action.toOption = some value ↔ action = .ok value := by
  cases action <;> simp [Except.toOption]

theorem exists_error_of_not_ok
    (fails : ∀ value, action ≠ .ok value) : ∃ error, action = .error error := by
  cases action with
  | error error => exact ⟨error, rfl⟩
  | ok value => exact absurd rfl (fails value)

def RaisesOnly (kind : ε → Prop) (action : Except ε α) : Prop :=
  ∀ error, action = .error error → kind error

def KeepsState {σ : Type u} (kind : ε → Prop) (state : σ) (action : Except ε (α × σ)) : Prop :=
  RaisesOnly kind action ∧ ∀ value after, action = .ok (value, after) → after = state

variable {kind : ε → Prop} {σ : Type u} {state : σ}

theorem RaisesOnly.ok (value : α) : RaisesOnly kind (.ok value) := nofun

variable {raised : ε}

theorem RaisesOnly.error (allowed : kind raised) :
    RaisesOnly kind (.error raised : Except ε α) := by
  rintro _ ⟨⟩
  exact allowed

theorem RaisesOnly.refuse {condition : Prop} [Decidable condition] {raised : ε}
    (allowed : kind raised) : RaisesOnly kind (Library.refuse condition raised) := by
  unfold Library.refuse
  split
  case isTrue => exact .error allowed
  case isFalse => exact .ok ()

theorem RaisesOnly.orRaise {value : Option α} (allowed : kind raised) :
    RaisesOnly kind (Library.orRaise value raised) := by
  cases value with
  | none => exact .error allowed
  | some value => exact .ok value

theorem RaisesOnly.bind (first : RaisesOnly kind action)
    (rest : ∀ value, action = .ok value → RaisesOnly kind (next value)) :
    RaisesOnly kind (action >>= next) := by
  cases action with
  | error raised => exact .error (first raised rfl)
  | ok value => exact rest value rfl

def Raises (kind : ε → Prop) (action : Except ε α) : Prop :=
  ∃ raised, action = .error raised ∧ kind raised

theorem Raises.refuse {condition : Prop} [Decidable condition] {raised : ε}
    (holds : condition) (allowed : kind raised) : Raises kind (Library.refuse condition raised) :=
  ⟨raised, refuse_of holds, allowed⟩

theorem Raises.bind_left (raises : Raises kind action) : Raises kind (action >>= next) := by
  obtain ⟨raised, rfl, allowed⟩ := raises
  exact ⟨raised, rfl, allowed⟩

theorem Raises.bind (first : RaisesOnly kind action)
    (rest : ∀ value, action = .ok value → Raises kind (next value)) :
    Raises kind (action >>= next) := by
  cases action with
  | error raised => exact ⟨raised, rfl, first raised rfl⟩
  | ok value => exact rest value rfl

theorem KeepsState.ok (value : α) : KeepsState kind state (.ok (value, state) : Except ε (α × σ)) :=
  ⟨.ok _, by rintro _ _ ⟨⟩; rfl⟩

theorem KeepsState.error (allowed : kind raised) :
    KeepsState kind state (.error raised : Except ε (α × σ)) :=
  ⟨.error allowed, nofun⟩

theorem KeepsState.bind {next : α → Except ε (β × σ)} (first : RaisesOnly kind action)
    (rest : ∀ value, action = .ok value → KeepsState kind state (next value)) :
    KeepsState kind state (action >>= next) := by
  cases action with
  | error raised => exact .error (first raised rfl)
  | ok value => exact rest value rfl

end Linktools.Library
