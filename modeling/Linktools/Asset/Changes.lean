import Linktools.Core.Value
import Linktools.Library.Actions
import Linktools.Library.Checked
import Mathlib.Data.List.Infix

namespace Linktools.Asset

open Linktools.Core Library

/-! The in-memory backend of versioned asset files: a history for each key, the current entry
beside it, and the receipts of batches. -/

abbrev Bytes := List UInt8

inductive StorageEntryStatus
  | normal
  | deleted
  | reset
deriving DecidableEq

inductive StorageOperation
  | put
  | delete
  | reset
deriving DecidableEq

structure AssetKey where
  kind : String
  id : String
deriving DecidableEq

structure AssetInfo where
  key : AssetKey
  revision : Nat
  storeRevision : String
  digest : String
  size : Nat
  status : StorageEntryStatus
  modifiedAt : Time
  metadata : JsonMapping

abbrev AssetEntry := AssetInfo × Bytes

inductive StorageResult
  | put (info : AssetInfo) (entryRevision : Nat) (storeRevision : String) (changed : Bool)
  | delete (key : AssetKey) (deleted : Bool) (entryRevision : Option Nat) (storeRevision : String)
  | reset (key : AssetKey) (reset : Bool) (storeRevision : String)

structure StorageBatchResult where
  storeRevision : String
  atomic : Bool
  results : List StorageResult
  requestDigest : Option String
  idempotencyKey : Option String

mutual
def keysNamed : JsonValue → Bool
  | .arr items => itemsNamed items
  | .obj fields => fieldsNamed fields
  | _ => true

def itemsNamed : List JsonValue → Bool
  | [] => true
  | item :: items => keysNamed item && itemsNamed items

def fieldsNamed : JsonMapping → Bool
  | [] => true
  | (key, item) :: fields => key != "" && keysNamed item && fieldsNamed fields
end

/-- Of JSON values, `normalize_storage_metadata` only refuses an empty key. -/
def normalizeStorageMetadata : Option JsonMapping → Except Raised JsonMapping
  | none => .ok []
  | some metadata => do
    refuse (fieldsNamed metadata = false)
      (.valueError "storage metadata keys must be non-empty strings")
    return metadata

structure StorageChange where
  operation : StorageOperation
  key : AssetKey
  value : Option Bytes
  expectedRevision : Option Nat
  metadata : JsonMapping
  shaped : value.isSome = true ↔ operation = .put
  named : fieldsNamed metadata = true

/-- `bytes(change.value or b"")` -/
def StorageChange.content (change : StorageChange) : Bytes := change.value.getD []

structure AssetStore where
  entries : AssetKey → Option AssetEntry := fun _ => none
  versions : AssetKey → List AssetEntry := fun _ => []
  revision : Nat := 0
  batchReceipts : String → Option StorageBatchResult := fun _ => none

namespace AssetStore

variable (store : AssetStore)

def storeRevision : String := toString store.revision

def advance : AssetStore := { store with revision := store.revision + 1 }

def record (info : AssetInfo) (value : Bytes) : AssetStore :=
  { store with
    entries := Function.update store.entries info.key (some (info, value))
    versions := Function.update store.versions info.key
      (store.versions info.key ++ [(info, value)]) }

def get (key : AssetKey) : Option Bytes :=
  match store.entries key with
  | some (info, value) => if info.status = .normal then some value else none
  | none => none

def getAtRevision (key : AssetKey) (entryRevision : Nat) : Option Bytes :=
  match (store.versions key).find? fun entry => entry.1.revision = entryRevision with
  | some (info, value) => if info.status = .normal then some value else none
  | none => none

end AssetStore

/-- The settings of a backend: whether it may be written, and the digest of contents. -/
structure AssetBackend where
  writable : Bool
  digest : Bytes → String

abbrev Versioning := Action AssetStore Raised

def checkRevision (previous : Option AssetEntry) (expected : Option Nat) : Except Raised Unit :=
  refuse (expected ≠ none ∧ previous.map (·.1.revision) ≠ expected) .conflict

namespace AssetBackend

variable (backend : AssetBackend)

def requireWritable : Except Raised Unit :=
  refuse (backend.writable = false) (.ai .storageReadOnly)

def changeMutates (operation : StorageOperation) (value : Bytes) (previous : Option AssetEntry) :
    Bool :=
  match operation, previous with
  | .delete, some previous => previous.1.status != .deleted
  | .reset, some previous => previous.1.status != .reset
  | .put, some previous =>
    previous.1.status != .normal || previous.1.digest != backend.digest value
  | .put, none => true
  | .delete, none | .reset, none => false

def previousRevision (store : AssetStore) (key : AssetKey) (previous : Option AssetEntry) : Nat :=
  match previous with
  | some previous => previous.1.revision
  | none => ((store.versions key).getLast?.map (·.1.revision)).getD 0

def nextInfo (store : AssetStore) (key : AssetKey) (value : Bytes) (previous : Option AssetEntry)
    (status : StorageEntryStatus) (metadata : Option JsonMapping) (now : Time) :
    Except Raised AssetInfo := do
  let metadata ← normalizeStorageMetadata metadata
  return { key := key
           revision := previousRevision store key previous + 1
           storeRevision := store.storeRevision
           digest := backend.digest value
           size := value.length
           status := status
           modifiedAt := now
           metadata := metadata }

/-- The next version of a key, under the revision that the store has. -/
def recordNext (key : AssetKey) (value : Bytes) (previous : Option AssetEntry)
    (status : StorageEntryStatus) (metadata : Option JsonMapping) (now : Time) :
    Versioning AssetInfo := do
  let store ← get
  let info ← liftM (backend.nextInfo store key value previous status metadata now)
  modify fun store => store.record info value
  return info

def put (key : AssetKey) (value : Bytes) (expectedRevision : Option Nat)
    (metadata : Option JsonMapping) (now : Time) : Versioning StorageResult := do
  liftM backend.requireWritable
  let store ← get
  liftM (checkRevision (store.entries key) expectedRevision)
  let previous := store.entries key
  match previous.filter fun previous =>
      previous.1.status = .normal ∧ previous.1.digest = backend.digest value with
  | some previous => return .put previous.1 previous.1.revision store.storeRevision false
  | none => do
    modify AssetStore.advance
    let info ← backend.recordNext key value previous .normal metadata now
    return .put info info.revision info.storeRevision true

def delete (key : AssetKey) (expectedRevision : Option Nat) (metadata : Option JsonMapping)
    (now : Time) : Versioning StorageResult := do
  liftM backend.requireWritable
  let store ← get
  liftM (checkRevision (store.entries key) expectedRevision)
  match store.entries key with
  | none => return .delete key false none store.storeRevision
  | some previous =>
    if previous.1.status = .deleted then
      return .delete key false none store.storeRevision
    else do
      modify AssetStore.advance
      let info ← backend.recordNext key [] (some previous) .deleted metadata now
      return .delete key true (some info.revision) info.storeRevision

def reset (key : AssetKey) (expectedRevision : Option Nat) (metadata : Option JsonMapping)
    (now : Time) : Versioning StorageResult := do
  liftM backend.requireWritable
  let store ← get
  liftM (checkRevision (store.entries key) expectedRevision)
  match store.entries key with
  | none => return .reset key false store.storeRevision
  | some previous =>
    if previous.1.status = .reset then
      return .reset key false store.storeRevision
    else do
      modify AssetStore.advance
      let _ ← backend.recordNext key [] (some previous) .reset metadata now
      let store ← get
      return .reset key true store.storeRevision

/-- One change of a batch, whose previous entry was read at the start of the batch. -/
def applyChange (previous : AssetKey → Option AssetEntry) (storeRevision : String)
    (clock : AssetKey → Time) (change : StorageChange) : Versioning StorageResult := do
  let current := previous change.key
  match change.operation with
  | .put =>
    match current.filter fun _ => !backend.changeMutates .put change.content current with
    | some current => return .put current.1 current.1.revision storeRevision false
    | none => do
      let info ← backend.recordNext change.key change.content current .normal
        (some change.metadata) (clock change.key)
      return .put info info.revision storeRevision true
  | .delete =>
    if current.isNone = true ∨ current.map (·.1.status) = some .deleted then
      return .delete change.key false none storeRevision
    else do
      let info ← backend.recordNext change.key [] current .deleted (some change.metadata)
        (clock change.key)
      return .delete change.key true (some info.revision) storeRevision
  | .reset =>
    if current.isNone = true ∨ current.map (·.1.status) = some .reset then
      return .reset change.key false storeRevision
    else do
      let _ ← backend.recordNext change.key [] current .reset (some change.metadata)
        (clock change.key)
      return .reset change.key true storeRevision

def validateBatchReceiptIdentity : Option String → Option String → Except Raised Unit
  | none, none => .ok ()
  | some idempotencyKey, some requestDigest => do
    refuse (validText 256 idempotencyKey = false) (.ai .idempotencyKeyInvalid)
    refuse (isSha256 requestDigest = false)
      (.valueError "request_digest must be a SHA-256 digest")
  | _, _ =>
    .error (.valueError "idempotency_key and request_digest must be provided together")

def advanceIf (mutates : Bool) : Versioning PUnit :=
  if mutates then modify AssetStore.advance else pure ⟨⟩

def keepReceipt (idempotencyKey : Option String) (result : StorageBatchResult) : Versioning PUnit :=
  match idempotencyKey with
  | some key => modify fun store =>
    { store with batchReceipts := Function.update store.batchReceipts key (some result) }
  | none => pure ⟨⟩

def applyFresh (changes : List StorageChange) (expectedRevision : Option String)
    (idempotencyKey requestDigest : Option String) (clock : AssetKey → Time) :
    Versioning StorageBatchResult := do
  let store ← get
  liftM (refuse (expectedRevision ≠ none ∧ expectedRevision ≠ some store.storeRevision)
    Raised.conflict)
  liftM (refuse (¬(changes.map (·.key)).Nodup) (Raised.ai .storageBatchDuplicateKey))
  let previous := store.entries
  liftM (changes.forM fun change => checkRevision (previous change.key) change.expectedRevision)
  advanceIf (changes.any fun change =>
    backend.changeMutates change.operation change.content (previous change.key))
  let store ← get
  let storeRevision := store.storeRevision
  let results ← changes.mapM (backend.applyChange previous storeRevision clock)
  let result : StorageBatchResult :=
    ⟨storeRevision, true, results, requestDigest, idempotencyKey⟩
  keepReceipt idempotencyKey result
  return result

def applyBatch (changes : List StorageChange) (expectedRevision : Option String)
    (idempotencyKey requestDigest : Option String) (clock : AssetKey → Time) :
    Versioning StorageBatchResult := do
  liftM (validateBatchReceiptIdentity idempotencyKey requestDigest)
  liftM backend.requireWritable
  let store ← get
  match idempotencyKey.bind store.batchReceipts with
  | some previousReceipt => do
    liftM (refuse (previousReceipt.requestDigest ≠ requestDigest)
      (Raised.ai .idempotencyConflict))
    return previousReceipt
  | none => backend.applyFresh changes expectedRevision idempotencyKey requestDigest clock

end AssetBackend

open Library.Action Function List

variable {backend : AssetBackend} {store middle after : AssetStore} {key : AssetKey}
  {value : Bytes} {expected : Option Nat} {metadata : Option JsonMapping} {now : Time}
  {operation : StorageOperation} {info : AssetInfo}

def StorageOperation.status : StorageOperation → StorageEntryStatus
  | .put => .normal
  | .delete => .deleted
  | .reset => .reset

variable {previous : Option AssetEntry} {status : StorageEntryStatus}

theorem nextInfo_ok
    (made : backend.nextInfo store key value previous status metadata now = .ok info) :
    info.key = key ∧ info.revision = AssetBackend.previousRevision store key previous + 1 ∧
      info.digest = backend.digest value ∧ info.status = status ∧
      info.metadata = metadata.getD [] := by
  rw [AssetBackend.nextInfo] at made
  obtain ⟨normalized, accepted, made⟩ := bind_eq_ok.mp made
  cases made
  refine ⟨rfl, rfl, rfl, rfl, ?_⟩
  cases metadata with
  | none =>
    cases accepted
    rfl
  | some fields =>
    obtain ⟨_, _, same⟩ := bind_eq_ok.mp accepted
    cases same
    rfl

theorem exists_nextInfo (named : ∀ fields ∈ metadata, fieldsNamed fields = true) :
    ∃ info, backend.nextInfo store key value previous status metadata now = .ok info := by
  cases metadata with
  | none => exact ⟨_, rfl⟩
  | some fields =>
    have accepted : ¬fieldsNamed fields = false := by
      rw [named fields rfl]
      exact Bool.noConfusion
    refine ⟨_, bind_eq_ok.mpr ⟨fields, ?_, rfl⟩⟩
    rw [normalizeStorageMetadata, refuse_of_not accepted]
    rfl

/-- The checks that a single change passes before it looks at its entry. -/
def Admits (backend : AssetBackend) (store : AssetStore) (key : AssetKey)
    (expected : Option Nat) : Prop :=
  backend.writable = true ∧ checkRevision (store.entries key) expected = .ok ()

inductive ChangeEnds (backend : AssetBackend) (store : AssetStore)
    (operation : StorageOperation) (key : AssetKey) (value : Bytes) (expected : Option Nat)
    (metadata : Option JsonMapping) (now : Time) : Except Raised StorageResult × AssetStore → Prop
  | refused (refused : ¬Admits backend store key expected) :
      ChangeEnds backend store operation key value expected metadata now (.error raised, store)
  | unchanged {result : StorageResult} (admits : Admits backend store key expected)
      (same : backend.changeMutates operation value (store.entries key) = false) :
      ChangeEnds backend store operation key value expected metadata now (.ok result, store)
  | late (admits : Admits backend store key expected)
      (mutates : backend.changeMutates operation value (store.entries key) = true)
      (unnamed : ∃ fields ∈ metadata, fieldsNamed fields = false) :
      ChangeEnds backend store operation key value expected metadata now
        (.error raised, store.advance)
  | written {result : StorageResult} {info : AssetInfo} (admits : Admits backend store key expected)
      (mutates : backend.changeMutates operation value (store.entries key) = true)
      (made : backend.nextInfo store.advance key value (store.entries key) operation.status
        metadata now = .ok info) :
      ChangeEnds backend store operation key value expected metadata now
        (.ok result, store.advance.record info value)

theorem runOn_recordNext : runOn (backend.recordNext key value previous status metadata now) store =
      match backend.nextInfo store key value previous status metadata now with
      | .ok info => (.ok info, store.record info value)
      | .error raised => (.error raised, store) := by
  rw [AssetBackend.recordNext, runOn_bind_get]
  cases backend.nextInfo store key value previous status metadata now with
  | ok info => rfl
  | error raised => rfl

theorem ChangeEnds.of_write {finish : AssetInfo → Versioning StorageResult}
    (admits : Admits backend store key expected)
    (mutates : backend.changeMutates operation value (store.entries key) = true)
    (answers : ∀ info last, ∃ result, runOn (finish info) last = (.ok result, last)) :
    ChangeEnds backend store operation key value expected metadata now
      (runOn (do
        modify AssetStore.advance
        let info ← backend.recordNext key value (store.entries key) operation.status metadata now
        finish info) store) := by
  change ChangeEnds _ _ _ _ _ _ _ _
    (runOn (backend.recordNext key value (store.entries key) operation.status metadata now >>=
      finish) store.advance)
  rw [runOn_bind, runOn_recordNext]
  cases made : backend.nextInfo store.advance key value (store.entries key) operation.status
      metadata now with
  | error raised =>
    refine .late admits mutates ?_
    by_contra none
    have named : ∀ fields ∈ metadata, fieldsNamed fields = true := by
      intro fields given
      by_contra unnamed
      exact none ⟨fields, given, Bool.eq_false_iff.mpr unnamed⟩
    obtain ⟨info, accepted⟩ := exists_nextInfo named
    rw [made] at accepted
    cases accepted
  | ok info =>
    obtain ⟨result, answered⟩ := answers info (store.advance.record info value)
    dsimp only
    rw [answered]
    exact .written admits mutates made

theorem ChangeEnds.of_checks {change : AssetStore → Versioning StorageResult}
    (ends : Admits backend store key expected →
      ChangeEnds backend store operation key value expected metadata now
        (runOn (change store) store)) :
    ChangeEnds backend store operation key value expected metadata now
      (runOn (do
        liftM backend.requireWritable
        let last ← get
        liftM (checkRevision (last.entries key) expected)
        change last) store) := by
  cases writable : backend.requireWritable with
  | error raised =>
    refine .refused fun admits => ?_
    rw [AssetBackend.requireWritable, admits.1] at writable
    cases writable
  | ok =>
    rw [runOn_ok_bind, runOn_bind_get]
    cases checked : checkRevision (store.entries key) expected with
    | error raised =>
      refine .refused fun admits => ?_
      rw [admits.2] at checked
      cases checked
    | ok =>
      rw [runOn_ok_bind]
      refine ends ⟨?_, checked⟩
      rw [AssetBackend.requireWritable, refuse_eq_ok] at writable
      simpa using writable

theorem changeMutates_put : backend.changeMutates .put value previous =
      (previous.filter fun previous =>
        previous.1.status = .normal ∧ previous.1.digest = backend.digest value).isNone := by
  cases previous with
  | none => rfl
  | some previous =>
    rw [AssetBackend.changeMutates, Option.filter_some]
    by_cases same : previous.1.status = .normal ∧ previous.1.digest = backend.digest value
    case pos =>
      rw [if_pos (decide_eq_true same), same.1, same.2]
      simp
    case neg =>
      rw [if_neg (by rwa [decide_eq_true_eq])]
      simp only [not_and_or] at same
      simpa using same

theorem changeMutates_clears (clears : operation ≠ .put) :
    backend.changeMutates operation value previous = false ↔
      previous.isNone = true ∨ previous.map (·.1.status) = some operation.status := by
  cases operation with
  | put => exact absurd rfl clears
  | delete =>
    cases previous with
    | none => simp [AssetBackend.changeMutates]
    | some previous => simp [AssetBackend.changeMutates, StorageOperation.status]
  | reset =>
    cases previous with
    | none => simp [AssetBackend.changeMutates]
    | some previous => simp [AssetBackend.changeMutates, StorageOperation.status]

theorem put_ends : ChangeEnds backend store .put key value expected metadata now
      (runOn (backend.put key value expected metadata now) store) := by
  apply ChangeEnds.of_checks
  intro admits
  have mutates : backend.changeMutates .put value (store.entries key) = _ := changeMutates_put
  dsimp only
  split
  case h_1 previous same =>
    rw [same] at mutates
    exact .unchanged admits mutates
  case h_2 different =>
    rw [different] at mutates
    exact .of_write admits mutates fun info last => ⟨_, rfl⟩

/-- A change that marks an entry, unless there is none or it has the mark. -/
theorem ChangeEnds.of_clears {answer : AssetStore → StorageResult}
    {finish : AssetInfo → Versioning StorageResult} (clears : operation ≠ .put)
    (answers : ∀ info last, ∃ result, runOn (finish info) last = (.ok result, last)) :
    ChangeEnds backend store operation key [] expected metadata now
      (runOn (do
        liftM backend.requireWritable
        let last ← get
        liftM (checkRevision (last.entries key) expected)
        match last.entries key with
        | none => return answer last
        | some previous =>
          if previous.1.status = operation.status then return answer last
          else do
            modify AssetStore.advance
            let info ← backend.recordNext key [] (some previous) operation.status metadata now
            finish info) store) := by
  apply ChangeEnds.of_checks
  intro admits
  have mutates : backend.changeMutates operation [] (store.entries key) = false ↔ _ :=
    changeMutates_clears clears
  cases stored : store.entries key with
  | none => exact .unchanged admits (mutates.mpr (.inl (by rw [stored]; rfl)))
  | some previous =>
    dsimp only
    by_cases same : previous.1.status = operation.status
    case pos =>
      rw [if_pos same]
      exact .unchanged admits (mutates.mpr (.inr (by rw [stored]; exact congrArg some same)))
    case neg =>
      rw [if_neg same, ← stored]
      refine .of_write admits (Bool.of_not_eq_false fun unchanged => ?_) answers
      rcases mutates.mp unchanged with none | marked
      · rw [stored] at none
        cases none
      · rw [stored] at marked
        exact same (Option.some_inj.mp marked)

theorem delete_ends : ChangeEnds backend store .delete key [] expected metadata now
      (runOn (backend.delete key expected metadata now) store) :=
  .of_clears nofun fun _ _ => ⟨_, rfl⟩

theorem reset_ends : ChangeEnds backend store .reset key [] expected metadata now
      (runOn (backend.reset key expected metadata now) store) :=
  .of_clears nofun fun _ _ => ⟨_, rfl⟩

structure Versioned (store : AssetStore) : Prop where
  numbered : ∀ key, (store.versions key).map (·.1.revision) =
    range' 1 (store.versions key).length
  current : ∀ key, store.entries key = (store.versions key).getLast?

theorem versioned_empty : Versioned {} where
  numbered _ := rfl
  current _ := rfl

def Grows (store after : AssetStore) : Prop :=
  ∀ key, store.versions key <+: after.versions key

theorem Grows.refl (store : AssetStore) : Grows store store := fun _ => prefix_rfl

theorem Grows.trans (left : Grows store middle) (right : Grows middle after) : Grows store after :=
  fun key => (left key).trans (right key)

theorem record_grows : Grows store (store.record info value) := by
  intro key
  change _ <+: update store.versions info.key _ key
  by_cases own : key = info.key
  case pos =>
    rw [own, update_self]
    exact prefix_append _ _
  case neg => simp only [update_of_ne own, prefix_rfl]

section

variable (versioned : Versioned store)
include versioned

theorem Versioned.previousRevision :
    AssetBackend.previousRevision store key (store.entries key) = (store.versions key).length := by
  have numbered := versioned.numbered key
  have last : ((store.versions key).getLast?.map (·.1.revision)).getD 0 =
      (store.versions key).length := by
    rw [← getLast?_map, numbered, getLast?_range']
    cases (store.versions key).length with
    | zero => rfl
    | succ length =>
      rw [if_neg (Nat.succ_ne_zero length), Option.getD_some]
      omega
  have current := versioned.current key
  cases stored : store.entries key with
  | none => exact last
  | some previous =>
    rw [current] at stored
    rw [stored] at last
    exact last

theorem Versioned.previousRevision_eq :
    AssetBackend.previousRevision store key (store.entries key) =
      ((store.entries key).map (·.1.revision)).getD 0 := by
  cases stored : store.entries key with
  | none =>
    have current := versioned.current key
    rw [stored] at current
    unfold AssetBackend.previousRevision
    rw [← current]
  | some previous => rfl

theorem Versioned.record (next : info.revision = (store.versions info.key).length + 1) :
    Versioned (store.record info value) where
  numbered key := by
    change (update store.versions info.key _ key).map _ =
      range' 1 (update store.versions info.key _ key).length
    by_cases own : key = info.key
    case pos =>
      rw [own, update_self, map_append, versioned.numbered, length_append,
        map_singleton, length_singleton, range'_concat, next, one_mul,
        add_comm 1]
    case neg =>
      rw [update_of_ne own]
      exact versioned.numbered key
  current key := by
    change update store.entries info.key _ key =
      (update store.versions info.key _ key).getLast?
    by_cases own : key = info.key
    case pos => rw [own, update_self, update_self, getLast?_concat]
    case neg =>
      rw [update_of_ne own, update_of_ne own]
      exact versioned.current key

theorem Versioned.advance : Versioned store.advance :=
  ⟨versioned.numbered, versioned.current⟩

theorem Versioned.getAtRevision (later : Versioned after) (grows : Grows store after)
    (stored : store.entries key = some entry) :
    after.getAtRevision key entry.1.revision = store.get key := by
  have current := versioned.current key
  rw [stored] at current
  have member : entry ∈ after.versions key := (grows key).subset (mem_of_getLast? current.symm)
  have distinct : ((after.versions key).map (·.1.revision)).Nodup := by
    rw [later.numbered]
    exact nodup_range'
  have found : (after.versions key).find?
      (fun other => other.1.revision = entry.1.revision) = some entry := by
    rw [find?_eq_some_iff_append]
    obtain ⟨before, rest, split⟩ := append_of_mem member
    refine ⟨decide_eq_true rfl, before, rest, split, ?_⟩
    intro other earlier
    rw [split, map_append, map_cons, nodup_append] at distinct
    have apart := distinct.2.2 _ (mem_map_of_mem earlier) _ mem_cons_self
    simpa using apart
  unfold AssetStore.getAtRevision AssetStore.get
  rw [found, stored]

end

/-- A call that changes something moves the store revision by one, and no other call does. -/
def Accounts (store after : AssetStore) : Prop :=
  (after.entries = store.entries ∧ after.versions = store.versions ∧
    after.revision = store.revision) ∨
  (∃ key, after.versions key ≠ store.versions key) ∧ after.revision = store.revision + 1

theorem accounts_refl : Accounts store store := .inl ⟨rfl, rfl, rfl⟩

theorem record_changes : (store.record info value).versions info.key ≠ store.versions info.key := by
  change update store.versions info.key _ info.key ≠ _
  rw [update_self]
  intro same
  have lengths := congrArg List.length same
  rw [length_append, length_singleton] at lengths
  omega

def RefusesLate (backend : AssetBackend) (store : AssetStore) (operation : StorageOperation)
    (key : AssetKey) (value : Bytes) (expected : Option Nat) (metadata : Option JsonMapping) :
    Prop :=
  Admits backend store key expected ∧
    backend.changeMutates operation value (store.entries key) = true ∧
    ∃ fields ∈ metadata, fieldsNamed fields = false

structure Sound (store after : AssetStore) : Prop where
  versioned : Versioned after
  grows : Grows store after
  accounts : Accounts store after
  receipts : ∀ key receipt, store.batchReceipts key = some receipt →
    after.batchReceipts key = some receipt

theorem Sound.refl (versioned : Versioned store) : Sound store store :=
  ⟨versioned, .refl store, accounts_refl, fun _ _ stored => stored⟩

theorem ChangeEnds.sound
    (ends : ChangeEnds backend store operation key value expected metadata now result)
    (versioned : Versioned store)
    (timely : ¬RefusesLate backend store operation key value expected metadata) :
    Sound store result.2 ∧ (∀ raised, result.1 = .error raised → result.2 = store) := by
  cases ends with
  | refused => exact ⟨.refl versioned, fun _ _ => rfl⟩
  | unchanged => exact ⟨.refl versioned, fun _ _ => rfl⟩
  | late admits mutates unnamed => exact absurd ⟨admits, mutates, unnamed⟩ timely
  | @written answer info admits mutates made =>
    obtain ⟨rfl, next, _⟩ := nextInfo_ok made
    have numbered : info.revision = (store.advance.versions info.key).length + 1 := by
      rw [next, ← versioned.advance.previousRevision]
      rfl
    refine ⟨⟨versioned.advance.record numbered, ?_, ?_, fun _ _ stored => stored⟩, nofun⟩
    · exact fun key => record_grows key
    · exact .inr ⟨⟨info.key, record_changes⟩, rfl⟩

end Linktools.Asset
