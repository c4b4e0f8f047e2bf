import Linktools.Library.Machine
import Linktools.Task.Admission

namespace Linktools.Memory

open Linktools.Core Library List

/-! Paths and versions of memory files, and the receipt that a mutation leaves in the operation
ledger. -/

inductive MemoryError
  | valueError (text : String)
  | versionConflict
  | operationConflict
  | ai (code : ErrorCode)
  | objectStore
deriving DecidableEq

def integrity : MemoryError := .ai .storageIntegrityError

def storeSegment (part : List Char) : Bool :=
  1 ≤ part.length && part.length ≤ 200 && part.all fun character =>
    ('A' ≤ character && character ≤ 'Z') || ('a' ≤ character && character ≤ 'z') ||
      ('0' ≤ character && character ≤ '9') || ['_', '.', '-'].contains character

def hasDoubleDot : List Char → Bool
  | '.' :: '.' :: _ => true
  | _ :: rest => hasDoubleDot rest
  | [] => false

def normalizePath (path : String) : Except MemoryError String := do
  refuse (path = "" ∨ path.toList.head? = some '/' ∨ '\\' ∈ path.toList ∨ '\x00' ∈ path.toList)
    (.valueError "memory path is invalid")
  let parts := path.toList.splitOn '/'
  refuse (∃ part ∈ parts, storeSegment part = false ∨ hasDoubleDot part = true)
    (.valueError "memory path is invalid")
  return String.ofList (['/'].intercalate parts)

theorem normalizePath_eq (normalized : normalizePath path = .ok result) : result = path := by
  unfold normalizePath at normalized
  obtain ⟨_, _, normalized⟩ := bind_eq_ok.mp normalized
  obtain ⟨_, _, normalized⟩ := bind_eq_ok.mp normalized
  rw [intercalate_splitOn, pure_eq_ok, String.ofList_toList] at normalized
  exact normalized.symm

def isMemoryVersion (value : String) : Bool :=
  value.toList.take 3 == ['m', '1', ':'] && isSha256 (String.ofList (value.toList.drop 3))

theorem isMemoryVersion_append (shaped : isSha256 digest = true) :
    isMemoryVersion ("m1:" ++ digest) = true := by
  have characters : ("m1:" ++ digest).toList = ['m', '1', ':'] ++ digest.toList :=
    String.toList_append
  simp [isMemoryVersion, characters, shaped]

inductive MutationKind
  | write
  | delete
deriving DecidableEq

structure MutationReceipt where
  path : String
  version : Option String
  existed : Bool
  kind : MutationKind
deriving DecidableEq

structure MemoryMutation where
  version : Option String
  replayed : Bool
  existed : Bool
deriving DecidableEq

namespace MutationReceipt

def status (receipt : MutationReceipt) : String :=
  match receipt.kind, receipt.existed with
  | .delete, true => "deleted"
  | .delete, false => "not_found"
  | .write, true => "updated"
  | .write, false => "created"

def encode (receipt : MutationReceipt) : JsonValue :=
  .obj [("result", .obj [("file", .str receipt.path), ("status", .str receipt.status),
    ("version", (receipt.version.map JsonValue.str).getD .null)]), ("version", .int 1)]

def decodeOutcome (path status : String) (version : JsonValue) :
    Except MemoryError MutationReceipt := do
  if status = "created" ∨ status = "updated" then
    let version ← orRaise (version.string?.filter fun version => isMemoryVersion version) integrity
    return ⟨path, some version, status = "updated", .write⟩
  else do
    refuse (¬(status = "deleted" ∨ status = "not_found")) integrity
    refuse (version ≠ .null) integrity
    return ⟨path, none, status = "deleted", .delete⟩

def decode : JsonValue → Except MemoryError MutationReceipt
  | .obj raw =>
    match raw.lookup "version", raw.lookup "result" with
    | some (.int 1), some (.obj result) =>
      match result.lookup "file", result.lookup "version", result.lookup "status" with
      | some (.str file), some version, some (.str status) =>
        match normalizePath file with
        | .ok path => decodeOutcome path status version
        | .error _ => .error integrity
      | _, _, _ => .error integrity
    | _, _ => .error integrity
  | _ => .error integrity

def deleteReplayResult : JsonValue → Except MemoryError Bool
  | .obj raw =>
    match raw.lookup "version", raw.lookup "result" with
    | some (.int version), some result => do
      refuse (version < 1) integrity
      refuse (version ≠ 1) (.ai .storageVersionUnsupported)
      match result with
      | .obj result =>
        match result.lookup "file", result.lookup "version", result.lookup "status" with
        | some (.str _), some .null, some (.str status) => do
          refuse (¬(status = "deleted" ∨ status = "not_found")) integrity
          return status = "deleted"
        | _, _, _ => .error integrity
      | _ => .error integrity
    | _, _ => .error integrity
  | _ => .error integrity

def mutation (receipt : MutationReceipt) (replayed : Bool) : MemoryMutation :=
  ⟨receipt.version, replayed, receipt.existed⟩

def requireTarget (receipt : MutationReceipt) (path : String) (kind : MutationKind) :
    Except MemoryError Unit :=
  refuse (receipt.path ≠ path ∨ receipt.kind ≠ kind) .operationConflict

structure Sound (receipt : MutationReceipt) : Prop where
  path : normalizePath receipt.path = .ok receipt.path
  version : match receipt.kind with
    | .write => ∃ version, receipt.version = some version ∧ isMemoryVersion version = true
    | .delete => receipt.version = none

variable {receipt : MutationReceipt}

theorem decode_encode (sound : receipt.Sound) : decode receipt.encode = .ok receipt := by
  obtain ⟨path, version, existed, kind⟩ := receipt
  obtain ⟨normal, carried⟩ := sound
  dsimp only at normal carried
  cases kind with
  | write =>
    obtain ⟨token, rfl, shaped⟩ := carried
    cases existed <;>
      simp [encode, decode, status, lookup_cons, normal, decodeOutcome,
        JsonValue.string?, Option.filter, shaped, orRaise]
  | delete =>
    cases carried
    cases existed <;>
      simp [encode, decode, status, lookup_cons, normal, decodeOutcome, refuse, ok_bind]

theorem deleteReplayResult_encode (deletes : receipt.kind = .delete)
    (none : receipt.version = none) : deleteReplayResult receipt.encode = .ok receipt.existed := by
  obtain ⟨path, version, existed, kind⟩ := receipt
  cases deletes
  cases none
  cases existed <;>
    simp [encode, deleteReplayResult, status, lookup_cons, refuse, ok_bind]

end MutationReceipt

inductive StoredContent
  | inline (text : String)
  | object (reference : String)
deriving DecidableEq

structure MemoryMetadata where
  path : String
  version : String
  operationId : String
deriving DecidableEq

structure MemoryRecord where
  memoryId : String
  memoryScopeDigest : String
  content : StoredContent
  metadata : MemoryMetadata
  revision : Nat
  createdAt : Time
  updatedAt : Time
deriving DecidableEq

/-- `resultRef` is the JSON value that its text denotes. -/
structure OperationLedgerInput where
  operationId : String
  tenantId : String
  resourceKind : ResourceKind
  resourceId : String
  executionId : Option String
  operationKind : OperationKind
  status : OperationStatus
  requestDigest : String
  resultRef : Option JsonValue
  resultDigest : Option String
  errorCode : Option String
  compactable : Bool
  createdAt : Time
  updatedAt : Time
deriving DecidableEq

structure OperationLedgerRecord extends OperationLedgerInput where
  sequence : Nat

def operationReplayMatches (record : OperationLedgerRecord) (candidate : OperationLedgerInput) :
    Prop :=
  { record.toOperationLedgerInput with
    createdAt := candidate.createdAt
    updatedAt := candidate.updatedAt } = candidate

instance (record : OperationLedgerRecord) (candidate : OperationLedgerInput) :
    Decidable (operationReplayMatches record candidate) := by
  unfold operationReplayMatches
  infer_instance

def resourceMemory : ResourceKind := .other "MEMORY"

def MutationKind.operation : MutationKind → OperationKind
  | .write => .other "MEMORY_WRITE"
  | .delete => .other "MEMORY_DELETE"

theorem MutationKind.operation_inj {left right : MutationKind} :
    left.operation = right.operation ↔ left = right := by
  cases left <;> cases right <;> decide

structure MemoryStore where
  records : String → Option MemoryRecord := fun _ => none
  operations : String → Option OperationLedgerRecord := fun _ => none
  sequences : String → Nat := fun _ => 0

/-- What the repository answers: what was stored or whether something was deleted, and whether the
operation was there already. -/
structure Applied (α : Type) where
  result : α
  replayed : Bool

namespace MemoryStore

variable (store : MemoryStore)

def reserveOperation (operation : OperationLedgerInput) :
    Except MemoryError (OperationLedgerRecord × Bool) :=
  match store.operations operation.operationId with
  | some current =>
    if operationReplayMatches current operation then .ok (current, true)
    else .error (.ai .storageConflict)
  | none => .ok ({ operation with sequence := store.sequences operation.resourceId + 1 }, false)

def insertOperation (record : OperationLedgerRecord) : MemoryStore :=
  { store with
    operations := Function.update store.operations record.operationId (some record)
    sequences := Function.update store.sequences record.resourceId record.sequence }

def setRecord (memoryId : String) (record : Option MemoryRecord) : MemoryStore :=
  { store with records := Function.update store.records memoryId record }

def checkOperation (tenantId memoryId : String) (kind : MutationKind)
    (operation : OperationLedgerInput) : Except MemoryError Unit := do
  refuse (operation.tenantId ≠ tenantId) (.ai .storageOwnerMismatch)
  refuse (operation.resourceKind ≠ resourceMemory ∨ operation.resourceId ≠ memoryId ∨
    operation.operationKind ≠ kind.operation) integrity

def nextValue (record : MemoryRecord) (expectedRevision : Option Nat) :
    Option MemoryRecord → Except MemoryError MemoryRecord
  | none => do
    refuse (expectedRevision ≠ none ∧ expectedRevision ≠ some 0) (.ai .storageConflict)
    return { record with revision := 1 }
  | some value => do
    refuse (value.revision < 1) integrity
    refuse (expectedRevision ≠ some value.revision) (.ai .storageConflict)
    return { record with revision := value.revision + 1 }

def applyWrite (tenantId : String) (record : MemoryRecord) (expectedRevision : Option Nat)
    (operation : OperationLedgerInput) :
    Except MemoryError (Applied (Option MemoryRecord) × MemoryStore) := do
  checkOperation tenantId record.memoryId .write operation
  let (operationRecord, replayed) ← store.reserveOperation operation
  if replayed then return (⟨none, true⟩, store)
  else do
    let next ← nextValue record expectedRevision (store.records record.memoryId)
    return (⟨some next, false⟩,
      (store.setRecord record.memoryId (some next)).insertOperation operationRecord)

/-- What becomes of the record that a deletion finds, and whether it is deleted.  A revision of zero
says that the caller has seen no record. -/
def deleted (expectedRevision : Option Nat) :
    Option MemoryRecord → Except MemoryError (Bool × Option MemoryRecord)
  | none => do
    refuse (expectedRevision ≠ none ∧ expectedRevision ≠ some 0) (.ai .storageConflict)
    return (false, none)
  | some value => do
    refuse (value.revision < 1) integrity
    if expectedRevision = some 0 then return (false, some value)
    else do
      refuse (expectedRevision ≠ some value.revision) (.ai .storageConflict)
      return (true, none)

def applyDelete (tenantId memoryId : String) (expectedRevision : Option Nat)
    (operation : OperationLedgerInput) : Except MemoryError (Applied Bool × MemoryStore) := do
  checkOperation tenantId memoryId .delete operation
  let (operationRecord, replayed) ← store.reserveOperation operation
  if replayed then do
    let receipt ← orRaise
      (operationRecord.resultRef.filter fun _ => operationRecord.status = .succeeded) integrity
    let existed ← MutationReceipt.deleteReplayResult receipt
    return (⟨existed, true⟩, store)
  else do
    let (existed, left) ← deleted expectedRevision (store.records memoryId)
    return (⟨existed, false⟩, (store.setRecord memoryId left).insertOperation operationRecord)

end MemoryStore

/-! The writes and deletions of memory files, each in its separate looks at the repository. -/

structure MemoryOperation where
  id : String
  fingerprint : String
deriving DecidableEq

/-- The store of one memory scope.  `memoryId` and `operationId` are the digests that name a path
and an operation of the scope. -/
structure RuntimeMemoryStore where
  namespaceId : String
  tenantId : String
  memoryScopeDigest : String
  sha256 : Task.CanonicalSha256
  memoryId : String → String
  operationId : String → String
  fitsInline : String → Bool
  memoryId_injective : Function.Injective memoryId
  operationId_injective : Function.Injective operationId

inductive MutationBody
  | write (content : String)
  | delete
deriving DecidableEq

def MutationBody.kind : MutationBody → MutationKind
  | .write _ => .write
  | .delete => .delete

structure MutationRequest where
  path : String
  body : MutationBody
  expectedVersion : Option String
  operation : MemoryOperation
deriving DecidableEq

def validateContent : MutationBody → Except MemoryError Unit
  | .write content =>
    refuse (65536 < content.length ∨ '\x00' ∈ content.toList)
      (.valueError "memory content is invalid")
  | .delete => .ok ()

def validateExpectedVersion (value : Option String) : Except MemoryError Unit :=
  refuse (∃ version ∈ value, isMemoryVersion version = false)
    (.valueError "memory version is invalid")

def validateOperation (operation : MemoryOperation) : Except MemoryError Unit :=
  refuse (operation.id = "" ∨ isSha256 operation.fingerprint = false)
    (.valueError "memory operation is invalid")

def MutationRequest.validate (request : MutationRequest) : Except MemoryError MutationRequest := do
  let logicalPath ← normalizePath request.path
  validateContent request.body
  validateExpectedVersion request.expectedVersion
  validateOperation request.operation
  return { request with path := logicalPath }

def checkVersion (record : Option MemoryRecord) (expected : Option String) :
    Except MemoryError Unit :=
  match record with
  | none => refuse (expected ≠ none) .versionConflict
  | some record => do
    refuse (isMemoryVersion record.metadata.version = false) integrity
    refuse (expected ≠ some record.metadata.version) .versionConflict

namespace RuntimeMemoryStore

variable (runtime : RuntimeMemoryStore) (store : MemoryStore)

def versionToken (path identity : String) : String :=
  "m1:" ++ runtime.sha256.digest (.obj [("namespace", .str runtime.namespaceId),
    ("tenant_id", .str runtime.tenantId), ("scope", .str runtime.memoryScopeDigest),
    ("path", .str path), ("identity", .str (runtime.sha256.digest (.str identity)))])

theorem versionToken_valid : isMemoryVersion (runtime.versionToken path identity) = true :=
  isMemoryVersion_append (runtime.sha256.digest_isSha256 _)

def operationInput (operation : MemoryOperation) (receipt : MutationReceipt) (now : Time) :
    OperationLedgerInput where
  operationId := runtime.operationId operation.id
  tenantId := runtime.tenantId
  resourceKind := resourceMemory
  resourceId := runtime.memoryId receipt.path
  executionId := none
  operationKind := receipt.kind.operation
  status := .succeeded
  requestDigest := operation.fingerprint
  resultRef := some receipt.encode
  resultDigest := none
  errorCode := none
  compactable := true
  createdAt := now
  updatedAt := now

def decodeRow (operation : MemoryOperation) (record : OperationLedgerRecord) :
    Except MemoryError MutationReceipt := do
  refuse (record.requestDigest ≠ operation.fingerprint) .operationConflict
  refuse (record.operationId ≠ runtime.operationId operation.id ∨
    record.resourceKind ≠ resourceMemory ∨ record.status ≠ .succeeded ∨
    record.executionId ≠ none ∨ record.resultDigest ≠ none ∨ record.errorCode ≠ none ∨
    record.compactable = false ∨ record.sequence < 1) integrity
  let value ← orRaise record.resultRef integrity
  let receipt ← MutationReceipt.decode value
  refuse (record.resourceId ≠ runtime.memoryId receipt.path ∨
    record.operationKind ≠ receipt.kind.operation) integrity
  refuse (∃ version ∈ receipt.version,
    version ≠ runtime.versionToken receipt.path operation.id) integrity
  return receipt

def getReceipt (operation : MemoryOperation) : Except MemoryError (Option MutationReceipt) := do
  validateOperation operation
  match store.operations (runtime.operationId operation.id) with
  | none => return none
  | some record => some <$> runtime.decodeRow operation record

def validateRecord (path : String) (record : MemoryRecord) : Except MemoryError Unit :=
  refuse (record.memoryId ≠ runtime.memoryId path ∨
    record.memoryScopeDigest ≠ runtime.memoryScopeDigest ∨ record.revision < 1 ∨
    isMemoryVersion record.metadata.version = false ∨ record.metadata.path ≠ path) integrity

def record (path : String) : Except MemoryError (Option MemoryRecord) :=
  match store.records (runtime.memoryId path) with
  | none => .ok none
  | some record => do
    runtime.validateRecord path record
    return some record

/-- The content of a write, where `reference` is that of the object it is put into, if it can be. -/
def storedContent (content : String) (reference : Option String) :
    Except MemoryError StoredContent :=
  if runtime.fitsInline content then .ok (.inline content)
  else StoredContent.object <$> orRaise reference .objectStore

def nextRecord (request : MutationRequest) (current : Option MemoryRecord)
    (content : StoredContent) (now : Time) : MemoryRecord where
  memoryId := runtime.memoryId request.path
  memoryScopeDigest := runtime.memoryScopeDigest
  content := content
  metadata := ⟨request.path, runtime.versionToken request.path request.operation.id,
    runtime.operationId request.operation.id⟩
  revision := 0
  createdAt := (current.map MemoryRecord.createdAt).getD now
  updatedAt := now

end RuntimeMemoryStore

inductive Prepared
  | write (next : MemoryRecord)
  | delete
deriving DecidableEq

inductive CallPhase
  | lookingUp
  | reading
  | applying (current : Option MemoryRecord) (receipt : MutationReceipt) (prepared : Prepared)
  | conflicted
  | replaying
  | done (answer : Except MemoryError MemoryMutation)
deriving DecidableEq

namespace RuntimeMemoryStore

variable (runtime : RuntimeMemoryStore) (store : MemoryStore) (request : MutationRequest)

def replay (receipt : MutationReceipt) : Except MemoryError MemoryMutation := do
  receipt.requireTarget request.path request.body.kind
  return receipt.mutation true

def lookUp : CallPhase :=
  match runtime.getReceipt store request.operation with
  | .error error => .done (.error error)
  | .ok none => .reading
  | .ok (some receipt) => .done (replay request receipt)

def prepare (now : Time) (reference : Option String) (current : Option MemoryRecord) :
    Except MemoryError (MutationReceipt × Prepared) :=
  match request.body with
  | .write content => do
    let stored ← runtime.storedContent content reference
    return (⟨request.path, some (runtime.versionToken request.path request.operation.id),
      current.isSome, .write⟩, .write (runtime.nextRecord request current stored now))
  | .delete => return (⟨request.path, none, current.isSome, .delete⟩, .delete)

def read (now : Time) (reference : Option String) : Except MemoryError CallPhase := do
  let current ← runtime.record store request.path
  checkVersion current request.expectedVersion
  let (receipt, prepared) ← runtime.prepare request now reference current
  return .applying current receipt prepared

def failed (error : MemoryError) : CallPhase :=
  if error = .ai .storageConflict then .conflicted else .done (.error error)

def apply (now : Time) (current : Option MemoryRecord) (receipt : MutationReceipt) :
    Prepared → MemoryStore × CallPhase
  | .write next =>
    match store.applyWrite runtime.tenantId next (current.map MemoryRecord.revision)
        (runtime.operationInput request.operation receipt now) with
    | .error error => (store, failed error)
    | .ok (applied, after) =>
      (after,
        if applied.replayed then .replaying
        else if applied.result = none then .done (.error integrity)
        else .done (.ok (receipt.mutation false)))
  | .delete =>
    match store.applyDelete runtime.tenantId (runtime.memoryId request.path)
        (some ((current.map MemoryRecord.revision).getD 0))
        (runtime.operationInput request.operation receipt now) with
    | .error error => (store, failed error)
    | .ok (applied, after) =>
      (after,
        if applied.replayed then .replaying
        else if applied.result ≠ current.isSome then .done (.error integrity)
        else .done (.ok (receipt.mutation false)))

def mapMutationError : MemoryError :=
  if (store.operations (runtime.operationId request.operation.id)).isSome then .operationConflict
  else .versionConflict

def replayed : Except MemoryError MemoryMutation := do
  let receipt ← runtime.getReceipt store request.operation
  let receipt ← orRaise receipt integrity
  replay request receipt

def advance (now : Time) (reference : Option String) : CallPhase → MemoryStore × CallPhase
  | .lookingUp => (store, runtime.lookUp store request)
  | .reading =>
    (store, match runtime.read store request now reference with
      | .ok phase => phase
      | .error error => .done (.error error))
  | .applying current receipt prepared => runtime.apply store request now current receipt prepared
  | .conflicted => (store, .done (.error (runtime.mapMutationError store request)))
  | .replaying => (store, .done (runtime.replayed store request))
  | .done answer => (store, .done answer)

end RuntimeMemoryStore

/-- A call; `readAt` is the length of the log when it read the record. -/
structure MemoryCall where
  request : MutationRequest
  phase : CallPhase
  readAt : Nat := 0

structure Committed where
  request : MutationRequest
  receipt : MutationReceipt
  readAt : Nat
deriving DecidableEq

structure MemorySystem where
  store : MemoryStore := {}
  calls : List MemoryCall := []
  log : List Committed := []

inductive MemoryEvent
  | call (request : MutationRequest)
  | advance (index : Nat) (now : Time) (reference : Option String)

def MemoryCall.start (request : MutationRequest) : MemoryCall :=
  match request.validate with
  | .ok request => { request := request, phase := .lookingUp }
  | .error error => { request := request, phase := .done (.error error) }

/-- What a step of a call has committed: the operation that was not in the ledger and now is. -/
def MemoryCall.committed (call : MemoryCall) (key : String) (before after : MemoryStore) :
    List Committed :=
  match call.phase with
  | .applying _ receipt _ =>
    if before.operations key = none ∧ after.operations key ≠ none then
      [⟨call.request, receipt, call.readAt⟩]
    else []
  | _ => []

namespace MemorySystem

variable (runtime : RuntimeMemoryStore) (system : MemorySystem)

def advance (index : Nat) (call : MemoryCall) (now : Time) (reference : Option String) :
    MemorySystem :=
  let after := runtime.advance system.store call.request now reference call.phase
  { store := after.1
    calls := system.calls.set index
      { call with
        phase := after.2
        readAt := if call.phase = .reading then system.log.length else call.readAt }
    log := system.log ++
      call.committed (runtime.operationId call.request.operation.id) system.store after.1 }

def respond : MemoryEvent → MemorySystem
  | .call request => { system with calls := system.calls ++ [.start request] }
  | .advance index now reference =>
    match system.calls[index]? with
    | none => system
    | some call => system.advance runtime index call now reference

end MemorySystem

def memoryMachine (runtime : RuntimeMemoryStore) : Machine MemorySystem MemoryEvent where
  initial system := system = {}
  step system event next := next = system.respond runtime event

def Committed.effect (path : String) (record : Option (String × Nat)) (entry : Committed) :
    Option (String × Nat) :=
  if entry.receipt.path ≠ path then record
  else
    match entry.receipt.version with
    | some version => some (version, (record.map Prod.snd).getD 0 + 1)
    | none => if entry.receipt.existed then none else record

def recordAfter (path : String) (log : List Committed) : Option (String × Nat) :=
  log.foldl (Committed.effect path) none

def Committed.Removes (entry : Committed) (path : String) : Prop :=
  entry.receipt.path = path ∧ entry.receipt.version = none ∧ entry.receipt.existed = true

structure ReceiptOf (runtime : RuntimeMemoryStore) (request : MutationRequest)
    (receipt : MutationReceipt) : Prop where
  path : receipt.path = request.path
  kind : receipt.kind = request.body.kind
  normal : normalizePath request.path = .ok request.path
  version : receipt.version = match request.body with
    | .write _ => some (runtime.versionToken request.path request.operation.id)
    | .delete => none

/-- What held when a mutation was committed after the mutations in `earlier`. -/
structure Guarded (earlier : List Committed) (entry : Committed) : Prop where
  readBefore : entry.readAt ≤ earlier.length
  expected : entry.request.expectedVersion =
    (recordAfter entry.request.path (earlier.take entry.readAt)).map Prod.fst
  existed : entry.receipt.existed =
    (recordAfter entry.request.path (earlier.take entry.readAt)).isSome
  revision : entry.receipt.version ≠ none ∨ entry.receipt.existed = true →
    (recordAfter entry.request.path earlier).map Prod.snd =
      (recordAfter entry.request.path (earlier.take entry.readAt)).map Prod.snd

variable {path : String} {log more : List Committed} {entry : Committed}

theorem recordAfter_append_single :
    recordAfter path (log ++ [entry]) = entry.effect path (recordAfter path log) := by
  rw [recordAfter, foldl_append]
  rfl

theorem effect_revision_le (record : Option (String × Nat)) (stays : ¬entry.Removes path) :
    (record.map Prod.snd).getD 0 ≤ ((entry.effect path record).map Prod.snd).getD 0 ∧
      (entry.effect path record = record ∨
        (record.map Prod.snd).getD 0 < ((entry.effect path record).map Prod.snd).getD 0) := by
  unfold Committed.effect
  split
  case isTrue => exact ⟨le_refl _, .inl rfl⟩
  case isFalse here =>
    split
    case h_1 version _ => exact ⟨Nat.le_succ _, .inr (Nat.lt_succ_self _)⟩
    case h_2 deletes =>
      split
      case isTrue existed => exact absurd ⟨not_not.mp here, deletes, existed⟩ stays
      case isFalse => exact ⟨le_refl _, .inl rfl⟩

theorem recordAfter_eq_of_revision (kept : ∀ entry ∈ more, ¬entry.Removes path)
    (same : (recordAfter path (log ++ more)).map Prod.snd = (recordAfter path log).map Prod.snd) :
    recordAfter path (log ++ more) = recordAfter path log := by
  have grows : ∀ more : List Committed, (∀ entry ∈ more, ¬entry.Removes path) →
      recordAfter path (log ++ more) = recordAfter path log ∨
        ((recordAfter path log).map Prod.snd).getD 0 <
          ((recordAfter path (log ++ more)).map Prod.snd).getD 0 := by
    intro more
    induction more using reverseRecOn with
    | nil => exact fun _ => .inl (congrArg _ (append_nil log))
    | append_singleton more entry ih =>
      intro kept
      have stays := kept entry (mem_append_right _ mem_cons_self)
      have step := effect_revision_le (recordAfter path (log ++ more)) stays
      rw [← append_assoc, recordAfter_append_single]
      cases ih fun entry member => kept entry (mem_append_left _ member) with
      | inl unchanged =>
        rw [unchanged] at step ⊢
        exact step.2
      | inr grown => exact .inr (lt_of_lt_of_le grown step.1)
  cases grows more kept with
  | inl unchanged => exact unchanged
  | inr grown =>
    rw [same] at grown
    exact absurd grown (lt_irrefl _)

theorem Guarded.version_met (guarded : Guarded earlier entry)
    (changes : entry.receipt.version ≠ none ∨ entry.receipt.existed = true)
    (kept : ∀ other ∈ earlier.drop entry.readAt, ¬other.Removes entry.request.path) :
    entry.request.expectedVersion = (recordAfter entry.request.path earlier).map Prod.fst := by
  have same : (recordAfter entry.request.path
      (earlier.take entry.readAt ++ earlier.drop entry.readAt)).map Prod.snd =
        (recordAfter entry.request.path (earlier.take entry.readAt)).map Prod.snd := by
    rw [take_append_drop]
    exact guarded.revision changes
  have unchanged := recordAfter_eq_of_revision kept same
  rw [take_append_drop] at unchanged
  rw [guarded.expected, unchanged]

end Linktools.Memory
