import Linktools.Library.GraphSearch
import Mathlib.Data.Prod.Lex
import Mathlib.Data.String.Basic

namespace Linktools.Container

open Library List

structure BaseContainer where
  name : String
  order : Int
  dependencies : List String := []

inductive ContainerError
  | dependent (container name : String)
  | circular (container : String)
  | dependencyNotFound (dependency : String)

/-- The loaded containers are a dictionary by name. -/
structure ContainerManager where
  containers : List BaseContainer
  named : (containers.map BaseContainer.name).Nodup

namespace ContainerManager

variable (manager : ContainerManager) (persisted names : List String) (force : Bool)

def get (name : String) : Option BaseContainer :=
  rowAt BaseContainer.name manager.containers name

def Loaded (name : String) : Prop := name ∈ manager.containers.map BaseContainer.name

instance (name : String) : Decidable (manager.Loaded name) :=
  inferInstanceAs (Decidable (_ ∈ _))

/-- A container that is missing has no dependencies to follow. -/
def dependenciesOf (name : String) : List String :=
  (manager.get name).elim [] BaseContainer.dependencies

def isDependOn (container : BaseContainer) (name : String) : Bool :=
  breadthFirst manager.dependenciesOf name
    ((manager.containers.flatMap BaseContainer.dependencies).length + 1) container.dependencies []

/-- Sets are listed without repetition; the results hold for every list. -/
def load : List BaseContainer :=
  persisted.dedup.filterMap manager.get

def dump (containers : List BaseContainer) : List String :=
  persisted.dedup.filter (¬manager.Loaded ·) ++ containers.map BaseContainer.name

def addDependent (name : String) (removeNames : List String) (container : BaseContainer) :
    Except ContainerError (List String) :=
  if manager.isDependOn container name = false ∨ container.name ∈ removeNames then .ok removeNames
  else if force then .ok (removeNames ++ [container.name])
  else .error (.dependent container.name name)

def removeNames : Except ContainerError (List String) :=
  names.dedup.foldlM (fun removeNames name =>
    if manager.Loaded name then
      (manager.load persisted).foldlM (manager.addDependent force name) removeNames
    else .ok removeNames) names.dedup

/-- The persisted names after the call, and the removed containers. -/
def remove : List String × Except ContainerError (List BaseContainer) :=
  match manager.removeNames persisted names force with
  | .error error => (persisted, .error error)
  | .ok removeNames =>
    (manager.dump persisted ((manager.load persisted).filter (·.name ∉ removeNames)),
      .ok ((manager.load persisted).filter (·.name ∈ removeNames)))

def resolveDependencies (containers : List BaseContainer) :
    Except ContainerError (List BaseContainer) :=
  filterMap manager.get <$>
    DepthFirst.visitAll
      (fun dependency => refuse (¬manager.Loaded dependency) (.dependencyNotFound dependency))
      .circular manager.dependenciesOf manager.containers.length
      ((containers.insertionSort fun left right =>
        toLex (left.order, left.name) ≤ toLex (right.order, right.name)).map BaseContainer.name)

def DependsOn (earlier later : String) : Prop :=
  Relation.TransGen (fun earlier later => earlier ∈ manager.dependenciesOf later) earlier later

def Installed (name : String) : Prop := name ∈ persisted ∧ manager.Loaded name

/-- What a call removes: with `force` the dependents too. -/
def Removes (name : String) : Prop :=
  name ∈ names ∨ force = true ∧ ∃ target ∈ names, manager.Loaded target ∧
    manager.DependsOn target name

variable {manager persisted names force} {name : String} {container : BaseContainer}

theorem mem_load :
    container ∈ manager.load persisted ↔
      container ∈ manager.containers ∧ container.name ∈ persisted := by
  simp only [load, mem_filterMap, mem_dedup, get, rowAt_eq_some_iff manager.named]
  constructor
  · rintro ⟨_, inside, member, rfl⟩
    exact ⟨member, inside⟩
  · rintro ⟨member, inside⟩
    exact ⟨_, inside, member, rfl⟩

theorem dependenciesOf_of_mem (member : container ∈ manager.containers) :
    manager.dependenciesOf container.name = container.dependencies := by
  rw [dependenciesOf, get, rowAt_of_mem manager.named member, Option.elim_some]

theorem isDependOn_iff (member : container ∈ manager.containers) :
    manager.isDependOn container name = true ↔ manager.DependsOn name container.name := by
  rw [isDependOn, ← dependenciesOf_of_mem member]
  apply breadthFirst_iff
  intro key dependency depends
  rw [dependenciesOf] at depends
  cases found : manager.get key with
  | none => simp [found] at depends
  | some row =>
    rw [found, Option.elim_some] at depends
    exact mem_flatMap.mpr ⟨row, rowAt_mem found, depends⟩

/-- What a pass over some items makes of a set: it gains what they give, unless it is
strict about gaining anything. -/
def Collects (strict : Prop) (gives : String → Prop) (state : List String) :
    Except ContainerError (List String) → Prop
  | .ok after => (∀ name, name ∈ after ↔ name ∈ state ∨ gives name) ∧
      (strict → ∀ name ∈ after, name ∈ state)
  | .error _ => strict ∧ ∃ name, gives name ∧ name ∉ state

theorem Collects.foldlM {ι : Type} {strict : Prop} {gives : ι → String → Prop}
    {step : List String → ι → Except ContainerError (List String)} {items : List ι}
    (each : ∀ item ∈ items, ∀ state, Collects strict (gives item) state (step state item))
    (state : List String) :
    Collects strict (fun name => ∃ item ∈ items, gives item name) state
      (items.foldlM step state) := by
  induction items generalizing state with
  | nil => exact ⟨by simp, fun _ _ => id⟩
  | cons head tail ih =>
    obtain ⟨first, each⟩ := forall_mem_cons.mp each
    have stepped := first state
    rw [foldlM_cons]
    cases outcome : step state head with
    | error error =>
      rw [outcome] at stepped
      obtain ⟨strict, name, gives, fresh⟩ := stepped
      exact ⟨strict, name, ⟨head, mem_cons_self, gives⟩, fresh⟩
    | ok middle =>
      rw [outcome] at stepped
      have rest := ih each middle
      rw [ok_bind]
      cases last : tail.foldlM step middle with
      | error error =>
        rw [last] at rest
        obtain ⟨strict, name, ⟨item, member, gives⟩, fresh⟩ := rest
        exact ⟨strict, name, ⟨item, mem_cons_of_mem _ member, gives⟩,
          fun inside => fresh ((stepped.1 name).mpr (.inl inside))⟩
      | ok after =>
        rw [last] at rest
        refine ⟨fun name => ?_, fun strict name inside =>
          stepped.2 strict name (rest.2 strict name inside)⟩
        simp only [rest.1, stepped.1, exists_mem_cons_iff, or_assoc]

theorem addDependent_collects (member : container ∈ manager.containers) (target : String)
    (state : List String) :
    Collects (force = false)
      (fun name => manager.DependsOn target container.name ∧ container.name = name) state
      (manager.addDependent force target state container) := by
  rw [← isDependOn_iff member]
  unfold addDependent
  split_ifs with settled forced
  · refine ⟨fun name => ⟨.inl, ?_⟩, fun _ _ => id⟩
    rintro (inside | ⟨depends, rfl⟩)
    · exact inside
    · exact settled.resolve_left (by simp [depends])
  · rw [not_or, Bool.not_eq_false] at settled
    exact ⟨by simp [settled.1, eq_comm], by simp [forced]⟩
  · rw [not_or, Bool.not_eq_false] at settled
    exact ⟨eq_false_of_ne_true forced, _, ⟨settled.1, rfl⟩, settled.2⟩

theorem removeNames_collects :
    Collects (force = false)
      (fun name => ∃ target ∈ names.dedup, manager.Loaded target ∧
        ∃ container ∈ manager.load persisted,
          manager.DependsOn target container.name ∧ container.name = name)
      names.dedup (manager.removeNames persisted names force) := by
  refine Collects.foldlM (fun target _ state => ?_) _
  split
  case isTrue loaded =>
    simp only [loaded, true_and]
    exact Collects.foldlM (fun container member =>
      addDependent_collects (mem_load.mp member).1 target) state
  case isFalse missing => exact ⟨by simp [missing], fun _ _ => id⟩

theorem installed_iff :
    manager.Installed persisted name ↔
      ∃ container ∈ manager.load persisted, container.name = name := by
  simp only [Installed, Loaded, mem_map, mem_load]
  constructor
  · rintro ⟨inside, container, member, rfl⟩
    exact ⟨container, ⟨member, inside⟩, rfl⟩
  · rintro ⟨container, ⟨member, inside⟩, rfl⟩
    exact ⟨inside, container, member, rfl⟩

theorem resolveDependencies_ok_of_subset {containers others : List BaseContainer}
    (loaded : ∀ container ∈ containers, container ∈ manager.containers)
    (fewer : ∀ container ∈ others, container ∈ containers)
    (done : manager.resolveDependencies containers = .ok order) :
    ∃ result, manager.resolveDependencies others = .ok result := by
  obtain ⟨visited, searched, _⟩ := map_eq_ok.mp done
  have roots {part : List BaseContainer} (name : String) : name ∈ (part.insertionSort
      fun left right => toLex (left.order, left.name) ≤ toLex (right.order, right.name)).map
        BaseContainer.name ↔ ∃ container ∈ part, container.name = name := by
    simp
  have members (name) (inside : ∃ container ∈ containers, container.name = name) :
      name ∈ manager.containers.map BaseContainer.name := by
    obtain ⟨container, inside, rfl⟩ := inside
    exact mem_map_of_mem (loaded container inside)
  obtain ⟨result, again⟩ := DepthFirst.visitAll_subset
    (fun _ _ _ _ admitted => not_not.mp (refuse_eq_ok.mp admitted))
    (fun name member => members name ((roots name).mp member))
    (fun name member => (roots name).mpr (((roots name).mp member).imp fun container inside =>
      ⟨fewer container inside.1, inside.2⟩)) searched
  rw [length_map] at again
  exact ⟨_, map_eq_ok.mpr ⟨result, again, rfl⟩⟩

variable {result : List String}

theorem removeNames_ok (member : container ∈ manager.load persisted)
    (done : manager.removeNames persisted names force = .ok result) :
    container.name ∈ result ↔ manager.Removes names force container.name := by
  obtain ⟨gained, gentle⟩ := done ▸ removeNames_collects
  constructor
  · intro inside
    cases force with
    | false => exact .inl (mem_dedup.mp (gentle rfl _ inside))
    | true =>
      rcases (gained _).mp inside with named | ⟨target, named, loaded, _, _, depends, same⟩
      · exact .inl (mem_dedup.mp named)
      · exact .inr ⟨rfl, target, mem_dedup.mp named, loaded, same ▸ depends⟩
  · rintro (named | ⟨_, target, named, loaded, depends⟩)
    · exact (gained _).mpr (.inl (mem_dedup.mpr named))
    · exact (gained _).mpr (.inr ⟨target, mem_dedup.mpr named, loaded, container, member,
        depends, rfl⟩)

theorem removeNames_error_iff :
    (∃ error, manager.removeNames persisted names force = .error error) ↔
      force = false ∧ ∃ name, manager.Installed persisted name ∧ name ∉ names ∧
        ∃ target ∈ names, manager.Loaded target ∧ manager.DependsOn target name := by
  constructor
  · rintro ⟨error, failed⟩
    obtain ⟨gentle, _, ⟨target, named, loaded, container, member, depends, rfl⟩, outside⟩ :=
      failed ▸ removeNames_collects
    rw [mem_dedup] at named outside
    exact ⟨gentle, container.name, installed_iff.mpr ⟨container, member, rfl⟩, outside, target,
      named, loaded, depends⟩
  · rintro ⟨strict, name, installed, outside, target, named, loaded, depends⟩
    obtain ⟨container, member, rfl⟩ := installed_iff.mp installed
    cases outcome : manager.removeNames persisted names force with
    | error error => exact ⟨error, rfl⟩
    | ok result =>
      obtain ⟨gained, gentle⟩ := outcome ▸ removeNames_collects
      refine absurd (mem_dedup.mp (gentle strict container.name ?_)) outside
      exact (gained _).mpr (.inr ⟨target, mem_dedup.mpr named, loaded, container, member,
        depends, rfl⟩)

theorem mem_dump (done : manager.removeNames persisted names force = .ok result) :
    name ∈ manager.dump persisted ((manager.load persisted).filter (·.name ∉ result)) ↔
      name ∈ persisted ∧ ¬(manager.Loaded name ∧ manager.Removes names force name) := by
  simp only [dump, mem_append, mem_filter, mem_dedup, mem_map,
    decide_eq_true_eq]
  constructor
  · rintro (⟨inside, missing⟩ | ⟨container, ⟨member, stays⟩, rfl⟩)
    · exact ⟨inside, fun removed => missing removed.1⟩
    · exact ⟨(mem_load.mp member).2,
        fun removed => stays ((removeNames_ok member done).mpr removed.2)⟩
  · rintro ⟨inside, stays⟩
    by_cases loaded : manager.Loaded name
    · obtain ⟨container, member, rfl⟩ := installed_iff.mp ⟨inside, loaded⟩
      exact .inr ⟨container, ⟨member, fun removed =>
        stays ⟨loaded, (removeNames_ok member done).mp removed⟩⟩, rfl⟩
    · exact .inl ⟨inside, loaded⟩

/-- Removal refuses exactly when a dependent would stay, and otherwise removes what it says. -/
theorem removal_keeps_dependents_closed (manager : ContainerManager)
    (persisted names : List String) (force : Bool) :
    ((∃ error, (manager.remove persisted names force).2 = .error error) ↔
      force = false ∧ ∃ name, manager.Installed persisted name ∧ name ∉ names ∧
        ∃ target ∈ names, manager.Loaded target ∧ manager.DependsOn target name) ∧
    (∀ error, (manager.remove persisted names force).2 = .error error →
      (manager.remove persisted names force).1 = persisted) ∧
    ∀ removed, (manager.remove persisted names force).2 = .ok removed →
      (∀ container, container ∈ removed ↔ container ∈ manager.containers ∧
        container.name ∈ persisted ∧ manager.Removes names force container.name) ∧
      (∀ name, name ∈ (manager.remove persisted names force).1 ↔
        name ∈ persisted ∧ ¬(manager.Loaded name ∧ manager.Removes names force name)) ∧
      ∀ order, manager.resolveDependencies (manager.load persisted) = .ok order →
        ∃ other, manager.resolveDependencies
          (manager.load (manager.remove persisted names force).1) = .ok other := by
  rw [← removeNames_error_iff, remove]
  cases outcome : manager.removeNames persisted names force with
  | error error => exact ⟨by simp, fun _ _ => rfl, by simp⟩
  | ok result =>
    refine ⟨by simp, by simp, ?_⟩
    rintro _ ⟨⟩
    refine ⟨fun container => ?_, fun name => mem_dump outcome, fun order resolved => ?_⟩
    · rw [mem_filter, decide_eq_true_eq, ← and_assoc, ← mem_load]
      exact and_congr_right fun member => removeNames_ok member outcome
    · refine resolveDependencies_ok_of_subset (fun _ member => (mem_load.mp member).1) ?_ resolved
      intro container member
      obtain ⟨loaded, kept⟩ := mem_load.mp member
      exact mem_load.mpr ⟨loaded, ((mem_dump outcome).mp kept).1⟩

end ContainerManager

end Linktools.Container
