import Linktools.Core.Json
import Linktools.Library.Machine
import Mathlib.Data.Finmap

/-! Instances of a locked JSON key/value file.  A nested mapping stands for its key-sorted form,
the form in which the file keeps it. -/

namespace Linktools.Config

open Linktools.Core Library List

abbrev ConfigData := Finmap fun _ : String => JsonValue

namespace ConfigData

def sameValue : Option JsonValue → Option JsonValue → Bool
  | none, none => true
  | some left, some right => left.same right
  | _, _ => false

def same (left right : ConfigData) : Bool :=
  decide (left.keys = right.keys ∧
    ∀ key ∈ left.keys, sameValue (left.lookup key) (right.lookup key) = true)

end ConfigData

inductive Flush where
  | succeeds
  | failsBefore
  | failsAfter
  deriving DecidableEq

structure ConfigStore where
  data : ConfigData
  revision : Nat

namespace ConfigStore

def touch (store : ConfigStore) : ConfigStore :=
  { store with revision := store.revision + 1 }

def reload (store : ConfigStore) (file : ConfigData) : ConfigStore :=
  touch { store with data := file }

def refreshIfChanged (store : ConfigStore) (file : ConfigData) : ConfigStore :=
  if file.same store.data then store else touch { store with data := file }

def recover (store : ConfigStore) (persisted previous : ConfigData) : ConfigStore :=
  if persisted.same previous then { store with data := persisted }
  else touch { store with data := persisted }

/-- A write of staged data: the store and the file after it, and whether it raises. -/
def flushOrRecover (store : ConfigStore) (file staged : ConfigData) :
    Flush → ConfigStore × ConfigData × Bool
  | .succeeds => (touch { store with data := staged }, staged, false)
  | .failsBefore => (recover { store with data := staged } file store.data, file, true)
  | .failsAfter => (recover { store with data := staged } staged store.data, staged, true)

end ConfigStore

/-- An edit in progress: the value as it was yielded and as its body has left it.  A namespace
transaction is one of its namespace. -/
structure EditFrame where
  key : String
  previous : JsonValue
  value : JsonValue
  namespaceId : Option Nat

/-- The holder of the file lock, and the edits it is inside, the innermost first. -/
structure FileLock where
  holder : Nat
  frames : List EditFrame

structure StoreSystem where
  file : ConfigData
  stores : Nat → Option ConfigStore
  lock : Option FileLock

inductive StoreAction where
  | create (store : Nat)
  | reload (store : Nat)
  | set (store : Nat) (key : String) (value : JsonValue) (flush : Flush)
  | save (store : Nat) (values : List (String × JsonValue)) (flush : Flush)
  | remove (store : Nat) (keys : List String) (flush : Flush)
  | edit (store : Nat) (key : String) (default : JsonValue)
  | transaction (store namespaceId : Nat) (name : String)
  | stage (depth : Nat) (value : JsonValue)
  | commit (flush : Flush)
  | abandon
  deriving DecidableEq

abbrev Changes := List (String × Option JsonValue)

namespace Changes

def apply (changes : Changes) (data : ConfigData) : ConfigData :=
  changes.foldl (fun data change =>
    match change.2 with
    | some value => data.insert change.1 value
    | none => data.erase change.1) data

def keys (changes : Changes) : List String :=
  changes.map Prod.fst

end Changes

/-- What an action does under the lock: what it writes, and the changes it is asked for. -/
structure Plan where
  id : Nat
  store : ConfigStore
  lock : Option FileLock
  write : Option (ConfigData × Flush) := none
  changes : Changes := []
  raised : Bool := false

namespace StoreSystem

variable (system : StoreSystem)

/-- The store an operation works on: refreshed where the operation takes the lock, and as it is
inside an edit of the same store. -/
def locked (id : Nat) : Option ConfigStore :=
  match system.lock with
  | none => (system.stores id).map (·.refreshIfChanged system.file)
  | some lock => if lock.holder = id then system.stores id else none

def frames : List EditFrame :=
  match system.lock with
  | none => []
  | some lock => lock.frames

def holds (id : Nat) : Bool :=
  match system.lock with
  | none => false
  | some lock => lock.holder == id

def enter (id : Nat) (key : String) (default : JsonValue) (namespaceId : Option Nat) :
    Option Plan :=
  (system.locked id).map fun store =>
    let value := (store.data.lookup key).getD default
    { id, store, lock := some ⟨id, ⟨key, value, value, namespaceId⟩ :: system.frames⟩ }

def left (id : Nat) : List EditFrame → Option FileLock
  | [] => none
  | frames => some ⟨id, frames⟩

def plan : StoreAction → Option Plan
  | .create id =>
    match system.stores id with
    | some _ => none
    | none => some { id, store := (ConfigStore.mk ∅ 0).reload system.file, lock := system.lock }
  | .reload id =>
    (system.stores id).map fun store =>
      { id, store := store.reload system.file, lock := system.lock }
  | .set id key value flush =>
    (system.locked id).map fun store =>
      { id, store, lock := system.lock, write := some (store.data.insert key value, flush)
        changes := [(key, some value)] }
  | .save id values flush =>
    (system.locked id).map fun store =>
      { id, store, lock := system.lock
        write := some (values.foldl (fun data entry => data.insert entry.1 entry.2) store.data,
          flush)
        changes := values.map fun entry => (entry.1, some entry.2) }
  | .remove id keys flush =>
    (system.locked id).map fun store =>
      { id, store, lock := system.lock
        write := if keys.any fun key => (store.data.lookup key).isSome then
            some (keys.foldl (fun data key => data.erase key) store.data, flush)
          else none
        changes := keys.map fun key => (key, none) }
  | .edit id key default => system.enter id key default none
  | .transaction id namespaceId name =>
    if system.holds id ∧ system.frames.any fun frame => frame.namespaceId == some namespaceId then
      (system.stores id).map fun store => { id, store, lock := system.lock, raised := true }
    else system.enter id name (.obj []) (some namespaceId)
  | .stage depth value =>
    match system.lock with
    | none => none
    | some lock =>
      (system.stores lock.holder).map fun store =>
        { id := lock.holder, store
          lock := some { lock with
            frames := lock.frames.modify depth ({ · with value }) } }
  | .commit flush =>
    match system.lock with
    | some ⟨id, frame :: frames⟩ =>
      (system.stores id).map fun store =>
        { id, store, lock := left id frames
          write := if frame.value.same frame.previous then none
            else some (store.data.insert frame.key frame.value, flush)
          changes := if frame.value = frame.previous then []
            else [(frame.key, some frame.value)] }
    | _ => none
  | .abandon =>
    match system.lock with
    | some ⟨id, _ :: frames⟩ =>
      (system.stores id).map fun store =>
        { id, store, lock := left id frames, raised := true }
    | _ => none

end StoreSystem

structure Performed where
  action : StoreAction
  id : Nat
  changes : Changes
  raised : Bool
  deriving DecidableEq

namespace StoreSystem

def step (system : StoreSystem) (action : StoreAction) : Option (Performed × StoreSystem) :=
  (system.plan action).map fun plan =>
    let (store, file, raised) :=
      match plan.write with
      | none => (plan.store, system.file, plan.raised)
      | some (staged, flush) => plan.store.flushOrRecover system.file staged flush
    (⟨action, plan.id, plan.changes, raised⟩,
      { file, stores := Function.update system.stores plan.id (some store), lock := plan.lock })

def machine : Machine StoreSystem Performed where
  initial system := system.stores = (fun _ => none) ∧ system.lock = none
  step first performed last := first.step performed.action = some (performed, last)

end StoreSystem

namespace ConfigData

/-- Contents that compare as equal are equal: no number or truth value stands for another. -/
def Apart (left right : ConfigData) : Prop :=
  left.same right = true → left = right

end ConfigData

def StoreAction.taker : StoreAction → Option Nat
  | .set id .. | .save id .. | .remove id .. | .edit id .. | .transaction id .. => some id
  | _ => none

def StoreAction.flush : StoreAction → Option Flush
  | .set _ _ _ flush | .save _ _ flush | .remove _ _ flush | .commit flush => some flush
  | _ => none

namespace StoreSystem

/-- What a step compares is equal or compares as unequal: the file with the memory of the store
that takes the lock, an edited value with its snapshot, and the file with the changes of a call
whose flush fails after the replace. -/
structure Distinct (system : StoreSystem) (performed : Performed) : Prop where
  refreshed : ∀ id store, performed.action.taker = some id → system.lock = none →
    system.stores id = some store → ConfigData.Apart system.file store.data
  edited : ∀ flush id frame frames, performed.action = .commit flush →
    system.lock = some ⟨id, frame :: frames⟩ → frame.value.same frame.previous = true →
    frame.value = frame.previous
  flushed : performed.action.flush = some .failsAfter →
    ConfigData.Apart (performed.changes.apply system.file) system.file

def distinctMachine : Machine StoreSystem Performed :=
  machine.restrict Distinct

def Held (system : StoreSystem) : Prop :=
  ∀ lock, system.lock = some lock →
    ∃ store, system.stores lock.holder = some store ∧ store.data = system.file

end StoreSystem

/-- A store that has moved on: it counts up, and counts what has changed. -/
def ConfigStore.Since (before after : ConfigStore) : Prop :=
  before.revision ≤ after.revision ∧ (before.revision = after.revision → before.data = after.data)

namespace ConfigStore.Since

variable {first middle last store : ConfigStore}

theorem refl (store : ConfigStore) : Since store store := ⟨le_refl _, fun _ => rfl⟩

theorem trans (left : Since first middle) (right : Since middle last) : Since first last := by
  refine ⟨le_trans left.1 right.1, fun same => ?_⟩
  have le := left.1
  have le' := right.1
  rw [left.2 (by omega), right.2 (by omega)]

theorem touch (store : ConfigStore) (data : ConfigData) :
    Since store (ConfigStore.touch { store with data }) :=
  ⟨Nat.le_succ _, fun same => absurd same (Nat.ne_of_lt (Nat.lt_succ_self store.revision))⟩

theorem refreshIfChanged (store : ConfigStore) (file : ConfigData) :
    Since store (store.refreshIfChanged file) := by
  unfold ConfigStore.refreshIfChanged
  split
  case isTrue => exact refl store
  case isFalse => exact touch store file

end ConfigStore.Since

namespace StoreSystem

structure Sound (system : StoreSystem) (plan : Plan) : Prop where
  data : plan.store.data = system.file
  written : ∀ staged flush, plan.write = some (staged, flush) →
    staged = plan.changes.apply system.file
  quiet : plan.write = none → plan.raised = false → plan.changes.apply system.file = system.file
  holder : ∀ lock, system.lock = some lock → plan.write ≠ none → lock.holder = plan.id
  lock : ∀ lock, plan.lock = some lock → lock.holder = plan.id ∨ system.lock = some lock
  since : ∀ before, system.stores plan.id = some before → before.Since plan.store

theorem locked_spec {system : StoreSystem} {id : Nat} (held : system.Held)
    (apart : ∀ store, system.lock = none → system.stores id = some store →
      ConfigData.Apart system.file store.data) (locked : system.locked id = some store) :
    store.data = system.file ∧ (∀ lock, system.lock = some lock → lock.holder = id) ∧
      ∀ before, system.stores id = some before → before.Since store := by
  unfold StoreSystem.locked at locked
  split at locked
  case h_1 free =>
    obtain ⟨before, present, rfl⟩ := Option.map_eq_some_iff.mp locked
    refine ⟨?_, fun lock taken => absurd (free.symm.trans taken) (Option.some_ne_none _).symm, ?_⟩
    · unfold ConfigStore.refreshIfChanged
      split
      case isTrue same => exact (apart before free present same).symm
      case isFalse => rfl
    · intro other found
      rw [present] at found
      cases found
      exact ConfigStore.Since.refreshIfChanged before system.file
  case h_2 lock taken =>
    split at locked
    case isTrue mine =>
      obtain ⟨found, present, data⟩ := held lock taken
      rw [mine, locked] at present
      cases present
      refine ⟨data, fun other again => ?_, fun before found => ?_⟩
      · rw [taken] at again
        cases again
        exact mine
      · rw [locked] at found
        cases found
        exact ConfigStore.Since.refl store
    case isFalse => cases locked

theorem apply_insert (values : List (String × JsonValue)) (data : ConfigData) :
    Changes.apply (values.map fun entry => (entry.1, some entry.2)) data =
      values.foldl (fun data entry => data.insert entry.1 entry.2) data := by
  rw [Changes.apply, foldl_map]

theorem apply_erase (keys : List String) (data : ConfigData) :
    Changes.apply (keys.map fun key => (key, none)) data =
      keys.foldl (fun data key => data.erase key) data := by
  rw [Changes.apply, foldl_map]

theorem erase_absent {data : ConfigData} {keys : List String}
    (absent : ∀ key ∈ keys, data.lookup key = none) :
    keys.foldl (fun data key => data.erase key) data = data := by
  induction keys with
  | nil => rfl
  | cons key rest step =>
    have same : data.erase key = data := by
      apply Finmap.ext_lookup
      intro other
      by_cases erased : other = key
      · rw [erased, Finmap.lookup_erase, absent key mem_cons_self]
      · exact Finmap.lookup_erase_ne erased
    rw [foldl_cons, same]
    exact step fun other inside => absent other (mem_cons_of_mem _ inside)

section

variable {system : StoreSystem} {action : StoreAction} {plan : Plan} {id : Nat}
  {store : ConfigStore}

theorem Sound.of_unwritten (data : store.data = system.file)
    (since : ∀ before, system.stores id = some before → before.Since store) {lock : Option FileLock}
    (locked : ∀ held, lock = some held → held.holder = id ∨ system.lock = some held)
    (raised : Bool) : Sound system { id, store, lock, raised } where
  data := data
  written := fun _ _ write => by cases write
  quiet := fun _ _ => rfl
  holder := fun _ _ write => absurd rfl write
  lock := locked
  since := since

variable {changes : Changes}

theorem Sound.of_locked (held : system.Held)
    (apart : ∀ store, system.lock = none → system.stores id = some store →
      ConfigData.Apart system.file store.data) (locked : system.locked id = some store)
    {write : Option (ConfigData × Flush)}
    (written : ∀ staged flush, write = some (staged, flush) → staged = changes.apply store.data)
    (quiet : write = none → changes.apply store.data = store.data) :
    Sound system { id, store, lock := system.lock, write, changes } := by
  obtain ⟨data, holder, since⟩ := locked_spec held apart locked
  exact
    { data
      written := fun staged flush given => data ▸ written staged flush given
      quiet := fun none _ => data ▸ quiet none
      holder := fun lock taken _ => holder lock taken
      lock := fun lock taken => .inr taken
      since }

variable {key : String}

theorem Sound.of_enter (held : system.Held)
    (apart : ∀ store, system.lock = none → system.stores id = some store →
      ConfigData.Apart system.file store.data) {default : JsonValue}
    (entered : system.enter id key default namespaceId = some plan) : Sound system plan := by
  obtain ⟨store, locked, rfl⟩ := Option.map_eq_some_iff.mp entered
  obtain ⟨data, holder, since⟩ := locked_spec held apart locked
  refine Sound.of_unwritten data since ?_ false
  intro lock taken
  cases taken
  exact .inl rfl

variable {lock : FileLock}

theorem Held.remembers (held : system.Held) (taken : system.lock = some lock)
    (present : system.stores lock.holder = some store) : store.data = system.file ∧
      ∀ before, system.stores lock.holder = some before → before.Since store := by
  obtain ⟨found, again, data⟩ := held lock taken
  rw [present] at again
  cases again
  refine ⟨data, fun before same => ?_⟩
  rw [present] at same
  cases same
  exact ConfigStore.Since.refl store

theorem left_holder {id : Nat} {frames : List EditFrame} (taken : left id frames = some lock) :
    lock.holder = id := by
  cases frames with
  | nil => cases taken
  | cons =>
    cases taken
    rfl

theorem flush_of_plan (planned : system.plan action = some plan)
    (write : plan.write = some (staged, flush)) : action.flush = some flush := by
  cases action <;> grind [StoreSystem.plan, enter, StoreAction.flush, Option.map_eq_some_iff]

theorem sound_of_plan (held : system.Held) (distinct : system.Distinct performed)
    (planned : system.plan performed.action = some plan) : Sound system plan := by
  obtain ⟨action, _, changes, raised⟩ := performed
  have apart {id : Nat} (taker : action.taker = some id) (store : ConfigStore)
      (free : system.lock = none) (present : system.stores id = some store) :
      ConfigData.Apart system.file store.data :=
    distinct.refreshed id store taker free present
  cases action with
  | create id =>
    rw [StoreSystem.plan] at planned
    split at planned
    case h_1 => cases planned
    case h_2 absent =>
      cases planned
      refine Sound.of_unwritten rfl ?_ (fun _ taken => .inr taken) false
      intro before present
      rw [absent] at present
      cases present
  | reload id =>
    obtain ⟨before, present, rfl⟩ := Option.map_eq_some_iff.mp planned
    refine Sound.of_unwritten rfl ?_ (fun _ taken => .inr taken) false
    intro other again
    rw [present] at again
    cases again
    exact ConfigStore.Since.touch before system.file
  | set id key value flush =>
    obtain ⟨store, locked, rfl⟩ := Option.map_eq_some_iff.mp planned
    refine Sound.of_locked held (apart rfl) locked ?_
      fun none => absurd none (Option.some_ne_none _)
    intro staged flush given
    cases given
    rfl
  | save id values flush =>
    obtain ⟨store, locked, rfl⟩ := Option.map_eq_some_iff.mp planned
    refine Sound.of_locked held (apart rfl) locked ?_
      fun none => absurd none (Option.some_ne_none _)
    intro staged flush given
    cases given
    exact (apply_insert values store.data).symm
  | remove id keys flush =>
    obtain ⟨store, locked, rfl⟩ := Option.map_eq_some_iff.mp planned
    refine Sound.of_locked held (apart rfl) locked ?_ ?_
    · intro staged flush given
      split at given
      case isTrue =>
        cases given
        exact (apply_erase keys store.data).symm
      case isFalse => cases given
    · intro unwritten
      split at unwritten
      case isTrue => cases unwritten
      case isFalse absent =>
        rw [apply_erase]
        apply erase_absent
        intro key inside
        simp only [any_eq_true, not_exists, not_and, Bool.not_eq_true,
          Option.isSome_eq_false_iff, Option.isNone_iff_eq_none] at absent
        exact absent key inside
  | edit => exact Sound.of_enter held (apart rfl) planned
  | transaction id =>
    rw [StoreSystem.plan] at planned
    split at planned
    case isTrue nested =>
      obtain ⟨store, present, rfl⟩ := Option.map_eq_some_iff.mp planned
      obtain ⟨lock, taken, mine⟩ : ∃ lock, system.lock = some lock ∧ lock.holder = id := by
        have holds := nested.1
        rw [StoreSystem.holds] at holds
        split at holds
        case h_1 => cases holds
        case h_2 lock taken => exact ⟨lock, taken, by simpa using holds⟩
      subst mine
      obtain ⟨data, since⟩ := held.remembers taken present
      exact Sound.of_unwritten data since (fun _ taken => .inr taken) true
    case isFalse => exact Sound.of_enter held (apart rfl) planned
  | stage =>
    rw [StoreSystem.plan] at planned
    split at planned
    case h_1 => cases planned
    case h_2 lock taken =>
      obtain ⟨store, present, rfl⟩ := Option.map_eq_some_iff.mp planned
      obtain ⟨data, since⟩ := held.remembers taken present
      refine Sound.of_unwritten data since ?_ false
      intro other given
      cases given
      exact .inl rfl
  | commit flush =>
    rw [StoreSystem.plan] at planned
    split at planned
    case h_1 id frame frames taken =>
      obtain ⟨store, present, rfl⟩ := Option.map_eq_some_iff.mp planned
      obtain ⟨data, since⟩ := held.remembers taken present
      constructor
      case data => exact data
      case written =>
        intro staged flush given
        dsimp only at given ⊢
        split at given
        case isTrue => cases given
        case isFalse changed =>
          cases given
          have differs : frame.value ≠ frame.previous := by
            intro same
            rw [same, JsonValue.same_refl] at changed
            exact changed rfl
          rw [if_neg differs, ← data]
          rfl
      case quiet =>
        intro unwritten _
        dsimp only at unwritten ⊢
        split at unwritten
        case isTrue same =>
          rw [if_pos (distinct.edited flush id frame frames rfl taken same)]
          rfl
        case isFalse => cases unwritten
      case holder =>
        intro lock again _
        rw [taken] at again
        cases again
        rfl
      case lock => exact fun lock given => .inl (left_holder given)
      case since => exact since
    case h_2 => cases planned
  | abandon =>
    rw [StoreSystem.plan] at planned
    split at planned
    case h_1 id frame frames taken =>
      obtain ⟨store, present, rfl⟩ := Option.map_eq_some_iff.mp planned
      obtain ⟨data, since⟩ := held.remembers taken present
      exact Sound.of_unwritten data since (fun _ taken => .inl (left_holder taken)) true
    case h_2 => cases planned

variable {first last : StoreSystem} {performed : Performed}

theorem flushOrRecover_since (data : store.data = system.file)
    (flushed : flush = .failsAfter → ConfigData.Apart staged store.data) :
    store.Since (store.flushOrRecover system.file staged flush).1 := by
  cases flush with
  | succeeds => exact ConfigStore.Since.touch store staged
  | failsBefore =>
    simp only [ConfigStore.flushOrRecover, ConfigStore.recover]
    split
    case isTrue => exact ⟨le_refl _, fun _ => data⟩
    case isFalse => exact ConfigStore.Since.touch store system.file
  | failsAfter =>
    simp only [ConfigStore.flushOrRecover, ConfigStore.recover]
    split
    case isTrue same => exact ⟨le_refl _, fun _ => (flushed rfl same).symm⟩
    case isFalse => exact ConfigStore.Since.touch store staged

theorem flushOrRecover_data (store : ConfigStore) (file staged : ConfigData) (flush : Flush) :
    (store.flushOrRecover file staged flush).1.data =
      (store.flushOrRecover file staged flush).2.1 := by
  cases flush with
  | succeeds => rfl
  | failsBefore =>
    simp only [ConfigStore.flushOrRecover, ConfigStore.recover]
    split <;> rfl
  | failsAfter =>
    simp only [ConfigStore.flushOrRecover, ConfigStore.recover]
    split <;> rfl

/-- What a distinct step does: a normal return has made its changes, a raise has made all of them
or none, and the store that has acted remembers the file. -/
structure Stepped (first : StoreSystem) (performed : Performed) (last : StoreSystem) : Prop where
  returned : performed.raised = false → last.file = performed.changes.apply first.file
  raised : performed.raised = true →
    last.file = first.file ∨ last.file = performed.changes.apply first.file
  remembers : ∃ store, last.stores performed.id = some store ∧ store.data = last.file
  since : ∀ id before, first.stores id = some before →
    ∃ after, last.stores id = some after ∧ before.Since after
  held : last.Held

theorem Sound.update (sound : Sound first plan) (held : first.Held) {after : ConfigStore}
    {file : ConfigData} (since : plan.store.Since after) (data : after.data = file)
    (kept : plan.write = none → file = first.file) :
    let last : StoreSystem :=
      { file, stores := Function.update first.stores plan.id (some after), lock := plan.lock }
    (∃ store, last.stores plan.id = some store ∧ store.data = last.file) ∧
      (∀ id before, first.stores id = some before →
        ∃ after, last.stores id = some after ∧ before.Since after) ∧ last.Held := by
  intro last
  have acting : last.stores plan.id = some after := Function.update_self _ _ _
  refine ⟨⟨after, acting, data⟩, ?_, ?_⟩
  · intro id before present
    by_cases mine : id = plan.id
    · subst mine
      exact ⟨after, acting, (sound.since before present).trans since⟩
    · refine ⟨before, ?_, ConfigStore.Since.refl before⟩
      rw [← present]
      exact Function.update_of_ne mine _ _
  · intro lock taken
    by_cases mine : lock.holder = plan.id
    · rw [mine]
      exact ⟨after, acting, data⟩
    · have still := (sound.lock lock taken).resolve_left mine
      obtain ⟨store, present, remembered⟩ := held lock still
      refine ⟨store, (Function.update_of_ne mine _ _).trans present, remembered.trans ?_⟩
      refine (kept ?_).symm
      by_contra writes
      exact mine (sound.holder lock still writes)

theorem stepped (held : first.Held) (step : distinctMachine.step first performed last) :
    Stepped first performed last := by
  obtain ⟨action, id, changes, raised⟩ := performed
  obtain ⟨step, distinct⟩ := step
  obtain ⟨plan, planned, performs⟩ := Option.map_eq_some_iff.mp step
  have sound := sound_of_plan held distinct planned
  cases write : plan.write with
  | none =>
    rw [write] at performs
    cases performs
    obtain ⟨remembers, since, still⟩ :=
      sound.update held (ConfigStore.Since.refl plan.store) sound.data fun _ => rfl
    exact ⟨fun quiet => (sound.quiet write quiet).symm, fun _ => .inl rfl, remembers, since, still⟩
  | some written =>
    obtain ⟨staged, flush⟩ := written
    rw [write] at performs
    cases performs
    have whole := sound.written staged flush write
    have flushed : flush = .failsAfter → ConfigData.Apart staged plan.store.data := by
      rintro rfl
      rw [whole, sound.data]
      exact distinct.flushed (flush_of_plan planned write)
    obtain ⟨remembers, since, still⟩ :=
      sound.update held (flushOrRecover_since sound.data flushed)
        (flushOrRecover_data plan.store first.file staged flush)
        fun none => absurd (write.symm.trans none) (Option.some_ne_none _)
    refine ⟨?_, ?_, remembers, since, still⟩
    · cases flush with
      | succeeds => exact fun _ => whole
      | failsBefore => exact Bool.noConfusion
      | failsAfter => exact fun _ => whole
    · cases flush with
      | succeeds => exact Bool.noConfusion
      | failsBefore => exact fun _ => .inl rfl
      | failsAfter => exact fun _ => .inr whole

theorem held_of_reachable (reachable : distinctMachine.Reachable first) : first.Held := by
  apply reachable.invariant
  · intro start initial lock taken
    rw [initial.2] at taken
    cases taken
  · exact fun _ _ _ _ held step => (stepped held step).held

theorem apply_other (other : key ∉ changes.keys) (data : ConfigData) :
    (changes.apply data).lookup key = data.lookup key := by
  induction changes generalizing data with
  | nil => rfl
  | cons change rest step =>
    obtain ⟨name, value⟩ := change
    rw [Changes.keys, map_cons, mem_cons, not_or] at other
    rw [Changes.apply, foldl_cons, ← Changes.apply, step other.2]
    cases value with
    | none => exact Finmap.lookup_erase_ne other.1
    | some value => exact Finmap.lookup_insert_of_ne _ other.1

variable {labels : List Performed}

theorem since_of_run (reachable : distinctMachine.Reachable first)
    (run : Machine.Run distinctMachine first labels last) :
    ∀ id before, first.stores id = some before →
      ∃ after, last.stores id = some after ∧ before.Since after := by
  apply Machine.Run.relates ?_ ?_ ?_ reachable run
  · exact fun _ _ store present => ⟨store, present, ConfigStore.Since.refl store⟩
  · intro first middle last left right id before present
    obtain ⟨after, found, since⟩ := left id before present
    obtain ⟨final, ends, later⟩ := right id after found
    exact ⟨final, ends, since.trans later⟩
  · exact fun _ _ _ reachable step => (stepped (held_of_reachable reachable) step).since

theorem lookup_of_run (reachable : distinctMachine.Reachable first)
    (run : Machine.Run distinctMachine first labels last)
    (untouched : ∀ label ∈ labels, key ∉ label.changes.keys) :
    last.file.lookup key = first.file.lookup key := by
  induction run with
  | nil => rfl
  | cons step rest kept =>
    rw [kept (reachable.step step) fun label inside =>
      untouched label (mem_cons_of_mem _ inside)]
    have other := untouched _ mem_cons_self
    have does := stepped (held_of_reachable reachable) step
    cases raised : Performed.raised _ with
    | false => rw [does.returned raised, apply_other other]
    | true =>
      rcases does.raised raised with none | all
      · rw [none]
      · rw [all, apply_other other]

theorem no_update_lost {first second last : StoreSystem} {performed : Performed}
    {labels : List Performed} (reachable : distinctMachine.Reachable first)
    (step : distinctMachine.step first performed second)
    (later : Machine.Run distinctMachine second labels last) :
    (performed.raised = false → second.file = performed.changes.apply first.file ∧
      ∀ key, (∀ label ∈ labels, key ∉ label.changes.keys) →
        last.file.lookup key = (performed.changes.apply first.file).lookup key) ∧
    (performed.raised = true →
      second.file = first.file ∨ second.file = performed.changes.apply first.file) ∧
    (∃ store, second.stores performed.id = some store ∧ store.data = second.file) ∧
    (∀ id before after, second.stores id = some before → last.stores id = some after →
      before.data ≠ after.data → before.revision ≠ after.revision) := by
  have does := stepped (held_of_reachable reachable) step
  have reached := reachable.step step
  refine ⟨fun returned => ⟨does.returned returned, fun key untouched => ?_⟩, does.raised,
    does.remembers, ?_⟩
  · rw [← does.returned returned]
    exact lookup_of_run reached later untouched
  · intro id before after present found differs
    obtain ⟨final, ends, since⟩ := since_of_run reached later id before present
    rw [found] at ends
    cases ends
    exact fun same => differs (since.2 same)

end

def play (system : StoreSystem) : List StoreAction → Option (List Performed × StoreSystem)
  | [] => some ([], system)
  | action :: rest => do
    let (performed, after) ← system.step action
    let (labels, last) ← play after rest
    some (performed :: labels, last)

theorem run_play (played : first.play actions = some (labels, last)) :
    Machine.Run machine first labels last := by
  induction actions generalizing first labels with
  | nil =>
    cases played
    exact .nil _
  | cons action rest step =>
    obtain ⟨⟨performed, after⟩, stepped, played⟩ := Option.bind_eq_some_iff.mp played
    obtain ⟨⟨later, final⟩, continued, played⟩ := Option.bind_eq_some_iff.mp played
    cases played
    have same : performed.action = action := by
      obtain ⟨plan, -, performs⟩ := Option.map_eq_some_iff.mp stepped
      exact congrArg Performed.action (congrArg Prod.fst performs).symm
    exact .cons (show first.step performed.action = _ from same ▸ stepped) (step continued)

end StoreSystem

theorem StoreSystem.Distinct.of_calm {system : StoreSystem} {performed : Performed}
    (calm : (∀ flush, performed.action ≠ .commit flush) ∧
      performed.action.flush ≠ some .failsAfter)
    (apart : ∀ id store, performed.action.taker = some id → system.stores id = some store →
      ConfigData.Apart system.file store.data) : system.Distinct performed where
  refreshed id store taker _ := apart id store taker
  edited flush _ _ _ commits := absurd commits (calm.1 flush)
  flushed fails := absurd fails calm.2

def sampleStores : StoreSystem where
  file := ∅
  stores := Function.update (Function.update (fun _ => none) 0 (some ⟨∅, 1⟩)) 1 (some ⟨∅, 1⟩)
  lock := none

def sampleSet : Performed :=
  ⟨.set 1 "verbose" (.bool true) .succeeds, 1, [("verbose", some (.bool true))], false⟩

def sampleLevel : Performed :=
  ⟨.set 0 "level" (.int 3) .succeeds, 0, [("level", some (.int 3))], false⟩

theorem sample_update_kept : ∃ second last, StoreSystem.machine.step sampleStores sampleSet second ∧
    StoreSystem.machine.step second sampleLevel last ∧
      last.file.lookup "verbose" = some (.bool true) := by
  have created : StoreSystem.distinctMachine.Reachable sampleStores :=
    ⟨⟨∅, fun _ => none, none⟩, [⟨.create 0, 0, [], false⟩, ⟨.create 1, 1, [], false⟩], ⟨rfl, rfl⟩,
      .cons ⟨rfl, .of_calm ⟨nofun, nofun⟩ nofun⟩ (.single ⟨rfl, .of_calm ⟨nofun, nofun⟩ nofun⟩)⟩
  obtain ⟨second, performs⟩ : ∃ second, StoreSystem.machine.step sampleStores sampleSet second :=
    ⟨_, rfl⟩
  have distinct : sampleStores.Distinct sampleSet := by
    refine .of_calm ⟨nofun, nofun⟩ fun id store taker present => ?_
    cases taker
    cases present
    exact fun _ => rfl
  obtain ⟨last, follows⟩ : ∃ last, StoreSystem.machine.step second sampleLevel last := by
    cases performs
    exact ⟨_, rfl⟩
  have later : second.Distinct sampleLevel := by
    cases performs
    refine .of_calm ⟨nofun, nofun⟩ fun id store taker present => ?_
    cases taker
    cases present
    exact fun same => absurd same (by decide +kernel)
  have kept := (StoreSystem.no_update_lost created ⟨performs, distinct⟩
    (.single ⟨follows, later⟩)).1 rfl
  exact ⟨second, last, performs, follows,
    (kept.2 "verbose" (by decide)).trans (Finmap.lookup_insert _)⟩

def flaggedStores : StoreSystem where
  file := (∅ : ConfigData).insert "verbose" (.int 1)
  stores := fun _ => none
  lock := none

/-- The truth value that the second store has set is one again once the first has set another
key: it compares as equal with what the first remembers. -/
theorem equal_value_loses_update : ∃ before performed labels last, flaggedStores.lock = none ∧
      Machine.Run StoreSystem.machine flaggedStores (before ++ performed :: labels) last ∧
      performed.raised = false ∧ performed.changes = [("verbose", some (.bool true))] ∧
      (∀ label ∈ labels, "verbose" ∉ label.changes.keys) ∧
      last.file.lookup "verbose" = some (.int 1) := by
  have answers : (flaggedStores.play [.create 0, .create 1,
      .set 1 "verbose" (.bool true) .succeeds, .set 0 "level" (.int 3) .succeeds]).map
        (fun played => (played.1, played.2.file.lookup "verbose")) =
      some ([⟨.create 0, 0, [], false⟩, ⟨.create 1, 1, [], false⟩,
        ⟨.set 1 "verbose" (.bool true) .succeeds, 1, [("verbose", some (.bool true))], false⟩,
        ⟨.set 0 "level" (.int 3) .succeeds, 0, [("level", some (.int 3))], false⟩],
        some (.int 1)) := by
    decide +kernel
  obtain ⟨⟨labels, last⟩, played, answered⟩ := Option.map_eq_some_iff.mp answers
  obtain ⟨rfl, value⟩ := Prod.mk.inj answered
  refine ⟨[⟨.create 0, 0, [], false⟩, ⟨.create 1, 1, [], false⟩], _, [_], last, rfl,
    StoreSystem.run_play played, rfl, rfl, ?_, value⟩
  intro label inside
  rw [mem_singleton.mp inside]
  decide

end Linktools.Config
