import Linktools.Core.Value
import Linktools.Library.Actions
import Linktools.Library.Checked
import Linktools.Library.Overlay
import Mathlib.Data.Prod.Lex
import Mathlib.Data.String.Basic

namespace Linktools.State

open Linktools.Core Library

/-! The rows of a state store and the queries on them.  A digest of thirty-two bytes is
written in hexadecimal, which keeps the order of the bytes. -/

abbrev Digest := String

inductive Failure
  | raised (error : Raised)
  | runtimeError (message : String)
  | overflowError
  | other (name : String)

namespace Failure

def valueError (message : String) : Failure := .raised (.valueError message)

def conflict : Failure := .raised .conflict

end Failure

def requireDigest (value : Digest) (name : String) : Except Raised Unit :=
  refuse (isSha256 value = false) (.valueError (name ++ " must be a 32-byte digest"))

theorem requireDigest_ok {value : Digest} {name : String} (valid : isSha256 value = true) :
    requireDigest value name = .ok () := by
  rw [requireDigest, valid]
  rfl

def requireOptionalDigest (value : Option Digest) (name : String) : Except Raised Unit :=
  match value with
  | some value => requireDigest value name
  | none => .ok ()

def isAscii (value : String) : Bool :=
  value.toList.all fun character => decide (character.toNat < 128)

def pathSeparated (kind : String) : Bool :=
  kind == "." || kind == ".." ||
    kind.toList.any fun character => character == '/' || character == '\\'

def validKind (kind : String) : Bool :=
  decide (0 < kind.length) && decide (kind.length ≤ 32)

def requireState (state : Option String) (name : String) (required : Bool) :
    Except Raised Unit := do
  refuse (required = true ∧ state = some "") (.valueError (name ++ " is required"))
  refuse (state.any fun state => 64 < state.length)
    (.valueError (name ++ " must contain at most 64 characters"))

/-- The checks of a record that no change of its revision or lease can touch. -/
def checkRecordIdentity (keyDigest : Digest) (scopeDigest parentDigest : Option Digest)
    (kind sortKey : String) (state : Option String) : Except Raised Unit := do
  requireDigest keyDigest "key_digest"
  requireOptionalDigest scopeDigest "scope_digest"
  requireOptionalDigest parentDigest "parent_digest"
  refuse (validKind kind = false) (.valueError "record kind must contain at most 32 characters")
  refuse (pathSeparated kind) (.valueError "record kind contains a path separator")
  refuse (sortKey = "" ∨ isAscii sortKey = false)
    (.valueError "record sort_key must contain non-empty ASCII characters")
  requireState state "record state" false

structure StoredRecord where
  keyDigest : Digest
  scopeDigest : Option Digest
  parentDigest : Option Digest
  kind : String
  sortKey : String
  state : Option String
  storageRevision : Nat
  leaseOwner : Option String
  leaseFence : Nat
  leaseExpiresAt : Option Time
  data : JsonMapping
  identified : checkRecordIdentity keyDigest scopeDigest parentDigest kind sortKey state = .ok ()

theorem StoredRecord.position_valid (record : StoredRecord) :
    isSha256 record.keyDigest = true ∧ record.sortKey ≠ "" ∧ isAscii record.sortKey = true := by
  have identified := record.identified
  simp only [checkRecordIdentity, requireDigest, bind_eq_ok, refuse_eq_ok] at identified
  obtain ⟨_, digest, _, _, _, _, _, _, _, _, _, sorted, _⟩ := identified
  rw [not_or, Bool.not_eq_false] at sorted
  exact ⟨(Bool.not_eq_false _).mp digest, sorted.1, sorted.2⟩

structure StoredFact where
  streamDigest : Digest
  sequence : Nat
  ownerKeyDigest : Digest
  kind : String
  subjectDigest : Option Digest
  state : Option String
  data : JsonMapping

structure StoredOperation where
  keyDigest : Digest
  streamDigest : Digest
  sequence : Nat
  state : String
  compactable : Bool
  data : JsonMapping

structure RecordReplacement where
  record : StoredRecord
  expectedStorageRevision : Nat

def validateRecordReplacement (current candidate : StoredRecord) : Except Raised Unit :=
  refuse (current.keyDigest ≠ candidate.keyDigest ∨ current.scopeDigest ≠ candidate.scopeDigest ∨
    current.parentDigest ≠ candidate.parentDigest ∨
    current.kind ≠ candidate.kind ∨ current.sortKey ≠ candidate.sortKey)
    (.valueError "record physical identity cannot change")

def validateOperationReplacement (current candidate : StoredOperation) : Except Raised Unit :=
  refuse (current.keyDigest ≠ candidate.keyDigest ∨ current.streamDigest ≠ candidate.streamDigest ∨
    current.sequence ≠ candidate.sequence ∨ current.compactable ≠ candidate.compactable)
    (.valueError "operation physical identity cannot change")

theorem validateOperationReplacement_eq_ok :
    validateOperationReplacement current candidate = .ok done ↔
      current.keyDigest = candidate.keyDigest ∧ current.streamDigest = candidate.streamDigest ∧
        current.sequence = candidate.sequence ∧ current.compactable = candidate.compactable := by
  rw [validateOperationReplacement, refuse_eq_ok]
  simp only [not_or, not_not]

def validateLimit (limit : Option Int) : Except Raised Unit :=
  refuse (limit.any fun limit => ¬(0 < limit ∧ limit ≤ 1000))
    (.valueError "limit must be between 1 and 1000")

def encodeSortKey (value : String) : Except Raised String := do
  refuse (value = "") (.valueError "sort key is required")
  refuse (isAscii value = false) (.valueError "sort key must contain ASCII characters")
  return value

structure RecordQueryFields where
  scopeDigest : Option Digest := none
  parentDigest : Option Digest := none
  kind : Option String := none
  states : Option (List String) := none
  sortKeyPrefix : Option String := none
  afterSortKey : Option String := none
  afterKeyDigest : Option Digest := none
  limit : Option Int := none

namespace RecordQueryFields

variable (fields : RecordQueryFields)

def checkCursor : Except Raised Unit := do
  refuse (fields.afterSortKey.isNone ≠ fields.afterKeyDigest.isNone)
    (.valueError "record cursor requires both sort key and key digest")
  match fields.afterSortKey with
  | some sortKey => (fun _ => ()) <$> encodeSortKey sortKey
  | none => .ok ()
  requireOptionalDigest fields.afterKeyDigest "after_key_digest"

def check : Except Raised Unit := do
  refuse (fields.kind = none ∧ fields.scopeDigest = none ∧ fields.parentDigest = none)
    (.valueError "RecordQuery requires a query dimension")
  requireOptionalDigest fields.scopeDigest "scope_digest"
  requireOptionalDigest fields.parentDigest "parent_digest"
  refuse (fields.kind.any fun kind => validKind kind = false ∨ pathSeparated kind)
    (.valueError "record kind contains a path separator")
  refuse (fields.sortKeyPrefix.any fun part => part = "" ∨ isAscii part = false)
    (.valueError "record sort key prefix must contain non-empty ASCII characters")
  fields.checkCursor
  validateLimit fields.limit

end RecordQueryFields

structure RecordQuery extends RecordQueryFields where
  checked : toRecordQueryFields.check = .ok ()

def RecordQuery.build (fields : RecordQueryFields) : Except Raised RecordQuery :=
  match checked : fields.check with
  | .ok () => .ok { toRecordQueryFields := fields, checked := checked }
  | .error error => .error error

/-- `_matches_record`. -/
def RecordQueryFields.matchesRecord (query : RecordQueryFields) (record : StoredRecord) : Bool :=
  query.scopeDigest.all (fun scope => record.scopeDigest = some scope) &&
    query.parentDigest.all (fun parent => record.parentDigest = some parent) &&
    query.kind.all (fun kind => record.kind = kind) &&
    query.sortKeyPrefix.all (fun part => record.sortKey.startsWith part) &&
    query.states.all fun states => record.state.any fun state => states.contains state

structure OperationQuery where
  streamDigest : Option Digest := none
  states : Option (List String) := none
  throughSequence : Option Nat := none
  compactable : Option Bool := none
  limit : Option Nat := none
  afterSequence : Option Nat := none
  limited : validateLimit (limit.map Int.ofNat) = .ok () := by rfl

def OperationQuery.matchesOperation (query : OperationQuery) (operation : StoredOperation) : Bool :=
  query.streamDigest.all (fun stream => operation.streamDigest = stream) &&
    query.states.all (fun states => states.contains operation.state) &&
    query.afterSequence.all (fun sequence => sequence < operation.sequence) &&
    query.throughSequence.all (fun sequence => operation.sequence ≤ sequence) &&
    query.compactable.all fun compactable => operation.compactable = compactable

inductive LeaseOperation
  | acquire
  | renew
  | release
  | guard
  | guardAvailable
deriving DecidableEq

namespace LeaseOperation

def value : LeaseOperation → String
  | .acquire => "acquire"
  | .renew => "renew"
  | .release => "release"
  | .guard => "guard"
  | .guardAvailable => "guard_available"

def Guards (operation : LeaseOperation) : Prop :=
  operation = .guard ∨ operation = .guardAvailable

def NeedsAvailable (operation : LeaseOperation) : Prop :=
  operation = .acquire ∨ operation = .guardAvailable

def Unlimited (operation : LeaseOperation) : Prop :=
  operation = .release ∨ operation.Guards

instance : DecidablePred Guards := fun _ => inferInstanceAs (Decidable (_ ∨ _))

instance : DecidablePred NeedsAvailable := fun _ => inferInstanceAs (Decidable (_ ∨ _))

instance : DecidablePred Unlimited := fun _ => inferInstanceAs (Decidable (_ ∨ _))

end LeaseOperation

/-- The duration is in the microseconds to which `timedelta` rounds `lease_seconds`. -/
def checkLeaseTransition (operation : LeaseOperation) (owner : Option String)
    (duration : Option Int) : Except Raised Unit := do
  refuse (¬(operation = .guardAvailable ∧ owner = none) ∧ owner.all blank)
    (.valueError "lease owner is required")
  if operation.Unlimited then
    refuse (duration ≠ none) (.valueError (operation.value ++ " does not accept a lease duration"))
  else
    refuse (duration.all fun duration => duration ≤ 0)
      (.valueError "lease_seconds must be finite and positive")

structure RecordLeaseTransition where
  operation : LeaseOperation
  owner : Option String
  fence : Nat
  duration : Option Int := none
  checked : checkLeaseTransition operation owner duration = .ok ()

/-- The last instant that a `datetime` holds. -/
def datetimeMax : Time := 253402300799999999

def StoredRecord.Live (record : StoredRecord) (now : Time) : Prop :=
  record.leaseOwner ≠ none ∧ record.leaseExpiresAt.all fun expiry => now < expiry

instance {record : StoredRecord} {now : Time} : Decidable (record.Live now) :=
  inferInstanceAs (Decidable (_ ∧ _))

namespace RecordLeaseTransition

variable (transition : RecordLeaseTransition) (record : StoredRecord) (now : Time)

def Refuses : Prop :=
  if transition.operation.NeedsAvailable then
    record.Live now ∨ transition.operation = .guardAvailable ∧ record.leaseOwner ≠ transition.owner
  else
    ¬record.Live now ∨ record.leaseOwner ≠ transition.owner ∨ record.leaseExpiresAt = none

instance : Decidable (transition.Refuses record now) := by
  unfold Refuses
  infer_instance

def leased : StoredRecord :=
  { record with
    storageRevision := record.storageRevision + 1
    leaseOwner := if transition.operation = .release then none else transition.owner
    leaseFence := transition.fence + if transition.operation = .acquire then 1 else 0
    leaseExpiresAt := transition.duration.map fun duration => now + duration }

def apply : Except Failure (Option StoredRecord) :=
  if record.leaseFence ≠ transition.fence then .ok none
  else if transition.Refuses record now then .ok none
  else if transition.operation.Guards then
    .ok (some { record with storageRevision := record.storageRevision + 1 })
  else if transition.duration.any fun duration => datetimeMax < now + duration then
    .error .overflowError
  else .ok (some (transition.leased record now))

end RecordLeaseTransition

/-! The in-memory transaction: one overlay for each table, the changes of the operation index,
and the records that it guards. A failed operation keeps what it wrote. -/

/-- The tables of one store.  The index of operations is kept by stream and sequence. -/
structure MemoryTables where
  records : Table Digest StoredRecord := ∅
  aliases : Table Digest Digest := ∅
  sequences : Table Digest Nat := ∅
  facts : Table (Digest × Nat) StoredFact := ∅
  operations : Table Digest StoredOperation := ∅
  operationStreams : Table (Digest × Nat) Digest := ∅

structure MemoryTransaction where
  records : Overlay Digest StoredRecord
  aliases : Overlay Digest Digest
  sequences : Overlay Digest Nat
  facts : Overlay (Digest × Nat) StoredFact
  operations : Overlay Digest StoredOperation
  operationStreams : Table (Digest × Nat) Digest
  operationStreamChanges : Table (Digest × Nat) (Option Digest) := ∅
  guardedRecordKeys : List Digest := []
  mutationError : Option Failure := none

abbrev Transact := Action MemoryTransaction Failure

namespace MemoryTransaction

def begin (tables : MemoryTables) : MemoryTransaction where
  records := .onto tables.records
  aliases := .onto tables.aliases
  sequences := .onto tables.sequences
  facts := .onto tables.facts
  operations := .onto tables.operations
  operationStreams := tables.operationStreams

section Changes

variable (tx : MemoryTransaction)

def setRecord (key : Digest) (record : StoredRecord) : MemoryTransaction :=
  { tx with
    records := tx.records.set key record
    guardedRecordKeys := key :: tx.guardedRecordKeys }

def setAlias (aliasDigest key : Digest) : MemoryTransaction :=
  { tx with aliases := tx.aliases.set aliasDigest key }

def setSequence (key : Digest) (value : Nat) : MemoryTransaction :=
  { tx with sequences := tx.sequences.set key value }

def eraseSequences (keys : List Digest) : MemoryTransaction :=
  { tx with sequences := tx.sequences.eraseAll keys }

def setFact (fact : StoredFact) : MemoryTransaction :=
  { tx with facts := tx.facts.set (fact.streamDigest, fact.sequence) fact }

def setOperation (value : StoredOperation) : MemoryTransaction :=
  { tx with operations := tx.operations.set value.keyDigest value }

/-- `_set_operation_key`. -/
def setOperationKey (position : Digest × Nat) (key : Option Digest) : MemoryTransaction :=
  { tx with
    operationStreamChanges := tx.operationStreamChanges.insert position key }

def eraseOperation (value : StoredOperation) : MemoryTransaction :=
  { tx with
    operations := tx.operations.erase value.keyDigest
    operationStreamChanges :=
      tx.operationStreamChanges.insert (value.streamDigest, value.sequence) none }

def aliasesOf (keys : List Digest) : List Digest :=
  (tx.aliases.items.filter fun entry => entry.2 ∈ keys).map Prod.fst

def factsOf (keys : List Digest) : List (Digest × Nat) :=
  (tx.facts.items.filter fun entry => entry.2.ownerKeyDigest ∈ keys).map Prod.fst

def eraseFactsOf (keys : List Digest) : MemoryTransaction :=
  { tx with facts := tx.facts.eraseAll (tx.factsOf keys) }

/-- `_delete_record_owners`. -/
def deleteRecordOwners (keys : List Digest) : MemoryTransaction :=
  { tx with
    aliases := tx.aliases.eraseAll (tx.aliasesOf keys)
    facts := tx.facts.eraseAll (tx.factsOf keys)
    records := tx.records.eraseAll keys
    guardedRecordKeys := tx.guardedRecordKeys.filter fun key => key ∉ keys }

def noteError (error : Failure) : MemoryTransaction :=
  { tx with mutationError := some (tx.mutationError.getD error) }

/-- `_operation_key`. -/
def operationKey (position : Digest × Nat) : Option Digest :=
  match tx.operationStreamChanges.lookup position with
  | some change => change
  | none => tx.operationStreams.lookup position

def listRecords (query : RecordQueryFields) : List StoredRecord :=
  let values := (tx.records.items.map Prod.snd).filter query.matchesRecord
  let ordered := values.insertionSort fun left right =>
    toLex (left.sortKey, left.keyDigest) ≤ toLex (right.sortKey, right.keyDigest)
  let later :=
    match query.afterSortKey, query.afterKeyDigest with
    | some sortKey, some keyDigest => ordered.filter fun record =>
      toLex (sortKey, keyDigest) < toLex (record.sortKey, record.keyDigest)
    | _, _ => ordered
  match query.limit with
  | some limit => later.take limit.toNat
  | none => later

def listOperations (query : OperationQuery) : List StoredOperation :=
  let values := (tx.operations.items.map Prod.snd).filter query.matchesOperation
  let ordered := values.insertionSort fun left right =>
    toLex (left.sequence, left.keyDigest) ≤ toLex (right.sequence, right.keyDigest)
  match query.limit with
  | some limit => ordered.take limit
  | none => ordered

/-- The checks that `replace_records` makes record by record. -/
def checkReplacement (replacement : RecordReplacement) : Except Failure Unit :=
  match tx.records.lookup replacement.record.keyDigest with
  | none => .error .conflict
  | some current => do
    refuse (current.storageRevision ≠ replacement.expectedStorageRevision) .conflict
    (validateRecordReplacement current replacement.record).mapError .raised

end Changes

def requireRevision (expected : Int) : Except Failure Unit :=
  refuse (expected < 0) (.valueError "expected_storage_revision must be a non-negative integer")

def insertRecords (records : List StoredRecord) : Transact PUnit := do
  refuse (¬(records.map (·.keyDigest)).Nodup)
    (Failure.valueError "insert_records contains duplicate keys")
  let tx ← get
  refuse (records.any fun record => (tx.records.lookup record.keyDigest).isSome)
    Failure.conflict
  records.forM fun record =>
    modify fun tx => tx.setRecord record.keyDigest record

def guardRecordRevision (key : Digest) (expected : Int) : Transact (Option Nat) := do
  requireRevision expected
  let tx ← get
  match tx.records.lookup key with
  | none => return none
  | some current =>
    if key ∈ tx.guardedRecordKeys then return some current.storageRevision
    else if (current.storageRevision : Int) ≠ expected then return none
    else do
      let revision := current.storageRevision + 1
      modify fun tx =>
        tx.setRecord key { current with storageRevision := revision }
      return some revision

def guardRecord (key : Digest) (expected : Int) : Transact (Option StoredRecord) := do
  let revision ← guardRecordRevision key expected
  let tx ← get
  return revision.bind fun _ => tx.records.lookup key

def orderReplacements (replacements : List RecordReplacement) : List RecordReplacement :=
  replacements.insertionSort fun left right => left.record.keyDigest ≤ right.record.keyDigest

def raiseReplacementError (replacements : List RecordReplacement) (error : Failure) :
    Transact PUnit := do
  if 1 < replacements.length then modify fun tx => tx.noteError error
  throw error

def writeReplacement (replacement : RecordReplacement) : Transact PUnit :=
  modify fun tx =>
    tx.setRecord replacement.record.keyDigest replacement.record

def applyReplacements (replacements : List RecordReplacement) : Transact PUnit := do
  let tx ← get
  match (orderReplacements replacements).forM tx.checkReplacement with
  | .error error => raiseReplacementError replacements error
  | .ok _ => (orderReplacements replacements).forM writeReplacement

def replaceRecords (replacements : List RecordReplacement) : Transact PUnit := do
  refuse (¬(replacements.map (·.record.keyDigest)).Nodup)
    (Failure.valueError "replace_records contains duplicate keys")
  refuse (replacements.any fun replacement =>
      replacement.record.storageRevision ≠ replacement.expectedStorageRevision + 1)
    (Failure.valueError "replacement must increment storage_revision exactly once")
  applyReplacements replacements

/-- The one-record replacement answers a conflict instead of raising it. -/
def answerConflict (error : Failure) : Transact Bool :=
  match error with
  | .raised (.ai .storageConflict _) => pure false
  | error => throw error

def replaceRecord (record : StoredRecord) (expected : Nat) : Transact Bool :=
  tryCatch (do
    replaceRecords [⟨record, expected⟩]
    return true) answerConflict

/-- `update_record_lease`. -/
def updateRecordLease (key : Digest) (expected : Int) (leaseOwner : Option String)
    (leaseFence : Int) (leaseExpiresAt : Option Time) : Transact Bool := do
  refuse (expected < 0 ∨ leaseFence < 0)
    (Failure.valueError "record lease integer fields are invalid")
  let tx ← get
  match tx.records.lookup key with
  | none => return false
  | some current =>
    if (current.storageRevision : Int) ≠ expected then return false
    else do
      modify fun tx => tx.setRecord key { current with
        storageRevision := current.storageRevision + 1
        leaseOwner := leaseOwner
        leaseFence := leaseFence.toNat
        leaseExpiresAt := leaseExpiresAt }
      return true

def writeLease (key : Digest) (expected : Int) (transition : RecordLeaseTransition)
    (candidate : Option StoredRecord) : Transact (Option StoredRecord) :=
  match candidate with
  | none => return none
  | some candidate =>
    if transition.operation.Guards then do
      modify fun tx => tx.setRecord key candidate
      return some candidate
    else do
      let written ← updateRecordLease key expected candidate.leaseOwner
        candidate.leaseFence candidate.leaseExpiresAt
      return if written then some candidate else none

/-- `transition_record_lease` at the instant that it reads. -/
def transitionRecordLease (key : Digest) (expected : Int)
    (transition : RecordLeaseTransition) (now : Time) : Transact (Option StoredRecord) := do
  requireRevision expected
  let tx ← get
  match tx.records.lookup key with
  | none => return none
  | some current =>
    if (current.storageRevision : Int) ≠ expected then return none
    else do
      let candidate ← transition.apply current now
      writeLease key expected transition candidate

def requireOptionalRevision (expected : Option Int) : Except Failure Unit :=
  refuse (expected.any fun expected => expected < 0)
    (.valueError "expected_storage_revision must be a non-negative integer or None")

def deleteRecord (key : Digest) (expected : Option Int) : Transact Bool := do
  requireOptionalRevision expected
  let tx ← get
  match tx.records.lookup key with
  | none => return false
  | some current => do
    let guarded ← guardRecord key (expected.getD current.storageRevision)
    if guarded.isNone then return false
    else do
      modify fun tx => tx.deleteRecordOwners [key]
      return true

def requireGuard (key : Digest) (record : StoredRecord) : Transact PUnit := do
  let guarded ← guardRecord key record.storageRevision
  refuse guarded.isNone Failure.conflict

def getRecords (tx : MemoryTransaction) (keys : List Digest) :
    List (Digest × StoredRecord) :=
  keys.dedup.filterMap fun key => (tx.records.lookup key).map fun record => (key, record)

def deleteRecords (keys : List Digest) : Transact PUnit := do
  let tx ← get
  let records := tx.getRecords keys
  records.forM fun entry => requireGuard entry.1 entry.2
  modify fun tx => tx.deleteRecordOwners (records.map Prod.fst)

def insertAlias (aliasDigest key : Digest) : Transact PUnit := do
  let tx ← get
  refuse ((tx.aliases.lookup aliasDigest).any fun current => current ≠ key)
    Failure.conflict
  refuse (key ∉ tx.guardedRecordKeys)
    (Failure.runtimeError "alias owner must be guarded in the current transaction")
  modify fun tx => tx.setAlias aliasDigest key

def insertAliases (aliases : List (Digest × Digest)) : Transact PUnit :=
  (aliases.insertionSort fun left right => left.1 ≤ right.1).forM fun entry =>
    insertAlias entry.1 entry.2

def getSequence (tx : MemoryTransaction) (key : Digest) : Nat :=
  (tx.sequences.lookup key).getD 0

def nextSequence (key : Digest) : Transact Nat := do
  let tx ← get
  let value := tx.getSequence key + 1
  modify fun tx => tx.setSequence key value
  return value

/-- Every value is reserved from the sequences as they are before the first one. -/
def reserveSequences (requests : List (Digest × Int)) : Transact (List (Digest × Nat)) := do
  refuse (requests.any fun request => request.2 < 1)
    (Failure.valueError "sequence reservation count must be a positive integer")
  let tx ← get
  let values := (requests.insertionSort fun left right => left.1 ≤ right.1).map fun request =>
    (request.1, tx.getSequence request.1 + request.2.toNat)
  values.forM fun entry => modify fun tx => tx.setSequence entry.1 entry.2
  return values

def advanceSequence (key : Digest) (expected : Int) : Transact Nat := do
  refuse (expected < 0) (Failure.valueError "expected sequence must be a non-negative integer")
  let tx ← get
  refuse ((tx.getSequence key : Int) ≠ expected) Failure.conflict
  nextSequence key

def deleteSequences (keys : List Digest) : Transact PUnit :=
  modify fun tx => tx.eraseSequences keys

def insertFact (fact : StoredFact) : Transact PUnit := do
  let tx ← get
  refuse (tx.facts.lookup (fact.streamDigest, fact.sequence)).isSome Failure.conflict
  refuse (fact.ownerKeyDigest ∉ tx.guardedRecordKeys)
    (Failure.runtimeError "fact owner must be guarded in the current transaction")
  modify fun tx => tx.setFact fact

def insertFacts (facts : List StoredFact) : Transact PUnit := facts.forM insertFact

def deleteFactStreams (ownerKey : Digest) : Transact PUnit :=
  modify fun tx => tx.eraseFactsOf [ownerKey]

def insertOperation (value : StoredOperation) : Transact PUnit := do
  let tx ← get
  refuse (tx.operations.lookup value.keyDigest).isSome Failure.conflict
  refuse (tx.operationKey (value.streamDigest, value.sequence)).isSome Failure.conflict
  modify fun tx => (tx.setOperation value).setOperationKey
    (value.streamDigest, value.sequence) (some value.keyDigest)

def replaceOperation (value : StoredOperation) (expectedState : String) : Transact Bool := do
  let tx ← get
  match tx.operations.lookup value.keyDigest with
  | none => return false
  | some current =>
    if current.state ≠ expectedState then return false
    else do
      (validateOperationReplacement current value).mapError Failure.raised
      modify fun tx => tx.setOperation value
      return true

def deleteOperations (query : OperationQuery) : Transact (List StoredOperation) := do
  let tx ← get
  let values := tx.listOperations query
  values.forM fun value => modify fun tx => tx.eraseOperation value
  return values

end MemoryTransaction

inductive TransactionCall
  | insertRecords (records : List StoredRecord)
  | guardRecord (key : Digest) (expected : Int)
  | guardRecordRevision (key : Digest) (expected : Int)
  | replaceRecord (record : StoredRecord) (expected : Nat)
  | replaceRecords (replacements : List RecordReplacement)
  | transitionRecordLease (key : Digest) (expected : Int) (transition : RecordLeaseTransition)
      (now : Time)
  | updateRecordLease (key : Digest) (expected : Int) (leaseOwner : Option String)
      (leaseFence : Int) (leaseExpiresAt : Option Time)
  | deleteRecord (key : Digest) (expected : Option Int)
  | deleteRecords (keys : List Digest)
  | insertAliases (aliases : List (Digest × Digest))
  | nextSequence (key : Digest)
  | reserveSequences (requests : List (Digest × Int))
  | advanceSequence (key : Digest) (expected : Int)
  | deleteSequences (keys : List Digest)
  | insertFacts (facts : List StoredFact)
  | deleteFactStreams (ownerKey : Digest)
  | insertOperation (value : StoredOperation)
  | replaceOperation (value : StoredOperation) (expectedState : String)
  | deleteOperations (query : OperationQuery)

inductive TransactionAnswer
  | done
  | flag (value : Bool)
  | record (value : Option StoredRecord)
  | revision (value : Option Nat)
  | sequence (value : Nat)
  | sequences (values : List (Digest × Nat))
  | operations (values : List StoredOperation)

namespace TransactionCall

def perform : TransactionCall → Transact TransactionAnswer
  | .insertRecords records => do MemoryTransaction.insertRecords records; return .done
  | .guardRecord key expected => .record <$> MemoryTransaction.guardRecord key expected
  | .guardRecordRevision key expected =>
    .revision <$> MemoryTransaction.guardRecordRevision key expected
  | .replaceRecord record expected => .flag <$> MemoryTransaction.replaceRecord record expected
  | .replaceRecords replacements => do
    MemoryTransaction.replaceRecords replacements
    return .done
  | .transitionRecordLease key expected transition now =>
    .record <$> MemoryTransaction.transitionRecordLease key expected transition now
  | .updateRecordLease key expected leaseOwner leaseFence leaseExpiresAt =>
    .flag <$> MemoryTransaction.updateRecordLease key expected leaseOwner leaseFence
      leaseExpiresAt
  | .deleteRecord key expected => .flag <$> MemoryTransaction.deleteRecord key expected
  | .deleteRecords keys => do MemoryTransaction.deleteRecords keys; return .done
  | .insertAliases aliases => do MemoryTransaction.insertAliases aliases; return .done
  | .nextSequence key => .sequence <$> MemoryTransaction.nextSequence key
  | .reserveSequences requests => .sequences <$> MemoryTransaction.reserveSequences requests
  | .advanceSequence key expected =>
    .sequence <$> MemoryTransaction.advanceSequence key expected
  | .deleteSequences keys => do MemoryTransaction.deleteSequences keys; return .done
  | .insertFacts facts => do MemoryTransaction.insertFacts facts; return .done
  | .deleteFactStreams ownerKey => do MemoryTransaction.deleteFactStreams ownerKey; return .done
  | .insertOperation value => do MemoryTransaction.insertOperation value; return .done
  | .replaceOperation value expectedState =>
    .flag <$> MemoryTransaction.replaceOperation value expectedState
  | .deleteOperations query => .operations <$> MemoryTransaction.deleteOperations query

end TransactionCall

end Linktools.State
