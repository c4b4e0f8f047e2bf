import Linktools.Core.Value
import Linktools.Library.Checked
import Linktools.Library.Versions

namespace Linktools.Tool

open Linktools.Core Library

/-! The durable record of a tool operation, and the checks that every record has passed. -/

inductive ToolOperationStatus
  | pending
  | claimed
  | completed
  | failed
  | cancelled
  | effectUnknown
deriving DecidableEq

inductive PayloadEncoding
  | json
  | utf8
  | base64
deriving DecidableEq

inductive PayloadField
  | int (value : Int)
  | text (value : String)
  | other (value : String)
deriving DecidableEq

/-- An inline value: the JSON object that its bytes decode to, or any other text. -/
inductive PayloadValue
  | mapping (fields : List (String × PayloadField))
  | plain (text : String)
deriving DecidableEq

inductive PayloadSource
  | inline (encoding : PayloadEncoding) (value : PayloadValue)
  | object (storeId key : String)
deriving DecidableEq

structure StoredPayload where
  digest : String
  size : Nat
  source : PayloadSource
deriving DecidableEq

structure CapabilityRef where
  kind : String
  id : String
  revision : Nat
deriving DecidableEq

/-- The kind that the failure of a tool call declares, by its error code. -/
def failureKind (errorCode : String) : String :=
  if errorCode = ErrorCode.toolRetryRequired.value then "tool_call_rejected"
  else "tool_call_failed"

def decodeToolOperationFailure (errorCode : Option String)
    (errorPayload : Option StoredPayload) : Except Raised String := do
  let code ← orRaise errorCode .integrity
  refuse (code ≠ ErrorCode.toolRetryRequired.value ∧ code ≠ ErrorCode.toolExecutionFailed.value)
    .integrity
  let payload ← orRaise errorPayload .integrity
  match payload.source with
  | .inline .base64 (.mapping fields) => do
    refuse (fields.lookup "version" ≠ some (.int 1)) (.ai .storageVersionUnsupported)
    refuse ((fields.map Prod.fst).isPerm ["version", "kind", "message"] = false) .integrity
    match fields.lookup "kind", fields.lookup "message" with
    | some (.text kind), some (.text message) => do
      refuse (kind ≠ failureKind code ∨ blank message ∨ 2048 < message.length) .integrity
      return message
    | _, _ => .error .integrity
  | _ => .error .integrity

/-- The record's errors are those of its own fields, but for an unsupported version. -/
def toolFailureContract (errorCode : Option String) (errorPayload : Option StoredPayload) :
    Except Raised Unit :=
  match decodeToolOperationFailure errorCode errorPayload with
  | .ok _ => .ok ()
  | .error raised =>
    if raised.code? = some .storageVersionUnsupported then .error raised
    else .error (.valueError "tool failure contract is invalid")

@[ext]
structure ToolOperationFields where
  toolOperationId : String
  executionId : String
  agentRunId : String
  toolCallId : String
  idempotencyKeyDigest : String
  toolName : String
  argumentsDigest : String
  bindingDigest : String
  replaySafe : Bool
  status : ToolOperationStatus
  owner : Option String
  fence : Nat
  errorCode : Option String
  createdAt : Time
  updatedAt : Time
  producerGeneration : Option Nat := none
  argumentsPayload : Option StoredPayload := none
  resultPayload : Option StoredPayload := none
  errorPayload : Option StoredPayload := none
  effectStartedAt : Option Time := none
  effectEndedAt : Option Time := none
  effectIdempotencyKey : Option String := none
  effectSummary : Option String := none
  capabilityRef : Option CapabilityRef := none
deriving DecidableEq

def validateToolArgumentsPayload (argumentsDigest : String) (payload : Option StoredPayload) :
    Except Raised Unit :=
  refuse (payload.any fun payload => payload.digest ≠ argumentsDigest)
    (.valueError "tool arguments payload does not match its digest")

namespace ToolOperationFields

variable (fields : ToolOperationFields)

def checkOutcome : Except Raised Unit :=
  match fields.status with
  | .pending | .claimed | .cancelled =>
    refuse (fields.resultPayload ≠ none ∨ fields.errorCode ≠ none ∨ fields.errorPayload ≠ none)
      (.valueError "tool operation state cannot carry a terminal payload")
  | .completed =>
    refuse (fields.resultPayload = none ∨ fields.errorCode ≠ none ∨ fields.errorPayload ≠ none)
      (.valueError "completed tool operation payload is invalid")
  | .failed => do
    refuse (fields.resultPayload ≠ none)
      (.valueError "failed tool operation cannot carry a result payload")
    toolFailureContract fields.errorCode fields.errorPayload
  | .effectUnknown =>
    refuse (fields.resultPayload ≠ none ∨ fields.errorPayload ≠ none ∨
      fields.errorCode ≠ none ∧ fields.errorCode ≠ some ErrorCode.toolEffectUnknown.value)
      (.valueError "unknown-effect tool operation payload is invalid")

/-- The checks of `__post_init__`. -/
def check : Except Raised Unit := do
  refuse (fields.producerGeneration.any fun generation => generation < 1)
    (.valueError "tool producer generation is invalid")
  validateToolArgumentsPayload fields.argumentsDigest fields.argumentsPayload
  fields.checkOutcome
  refuse (validResourceId fields.executionId = false ∨
    fields.owner.any fun owner => validLeaseOwner owner = false)
    (.valueError "tool operation lease identity is invalid")

end ToolOperationFields

structure ToolOperationRecord extends ToolOperationFields where
  checked : toToolOperationFields.check = .ok ()

namespace ToolOperationRecord

theorem ext {left right : ToolOperationRecord}
    (same : left.toToolOperationFields = right.toToolOperationFields) : left = right := by
  cases left
  cases right
  cases same
  rfl

instance : DecidableEq ToolOperationRecord := fun left right =>
  decidable_of_iff (left.toToolOperationFields = right.toToolOperationFields)
    ⟨ext, fun same => congrArg toToolOperationFields same⟩

def build (fields : ToolOperationFields) : Except Raised ToolOperationRecord :=
  match checked : fields.check with
  | .ok () => .ok ⟨fields, checked⟩
  | .error raised => .error raised

theorem build_eq_ok {fields : ToolOperationFields} :
    build fields = .ok record ↔ record.toToolOperationFields = fields := by
  unfold build
  split
  case h_1 checked =>
    constructor
    · intro built
      cases built
      rfl
    · intro same
      exact congrArg Except.ok (ext same.symm)
  case h_2 raised failed =>
    constructor
    · intro built
      cases built
    · intro same
      subst same
      cases record.checked.symm.trans failed

end ToolOperationRecord

structure ToolOperationAdmission where
  executionId : String
  toolOperationId : String
  agentRunId : String
  recoveryAgentRunId : Option String
  toolCallId : String
  idempotencyKeyDigest : String
  toolName : String
  argumentsDigest : String
  bindingDigest : String
  replaySafe : Bool
  owner : String
  argumentsPayload : Option StoredPayload := none
  producerGeneration : Option Nat := none
  capabilityRef : Option CapabilityRef := none

structure ToolEffectRecord where
  runId : String
  toolCallId : String
  toolName : String
  status : String
  startedAt : Time
  idempotencyKey : Option String
  effectSummary : Option String

def toolArgumentPayloadsMatch (left right : Option StoredPayload) : Prop :=
  left.map (fun payload => (payload.digest, payload.size)) =
    right.map fun payload => (payload.digest, payload.size)

instance (left right : Option StoredPayload) : Decidable (toolArgumentPayloadsMatch left right) :=
  inferInstanceAs (Decidable (_ = _))

def ToolOperationStatus.Settled (status : ToolOperationStatus) : Prop :=
  status = .completed ∨ status = .failed

instance : DecidablePred ToolOperationStatus.Settled := fun status => by
  unfold ToolOperationStatus.Settled
  infer_instance

namespace ToolOperationRecord

def MatchesAdmission (record : ToolOperationRecord) (request : ToolOperationAdmission) : Prop :=
  record.executionId = request.executionId ∧ record.toolOperationId = request.toolOperationId ∧
  record.toolCallId = request.toolCallId ∧
  record.idempotencyKeyDigest = request.idempotencyKeyDigest ∧ record.toolName = request.toolName ∧
  record.argumentsDigest = request.argumentsDigest ∧
  toolArgumentPayloadsMatch record.argumentsPayload request.argumentsPayload ∧
  record.bindingDigest = request.bindingDigest ∧
  (record.agentRunId = request.agentRunId ∨ request.recoveryAgentRunId = some record.agentRunId) ∧
  (record.status.Settled ∨
    record.replaySafe = request.replaySafe ∧ record.capabilityRef = request.capabilityRef)

instance (record : ToolOperationRecord) (request : ToolOperationAdmission) :
    Decidable (record.MatchesAdmission request) := by
  unfold MatchesAdmission
  infer_instance

/-- `_tool_replay_matches`. -/
def ReplayMatches (left right : ToolOperationRecord) : Prop :=
  left.executionId = right.executionId ∧ left.agentRunId = right.agentRunId ∧
  left.toolCallId = right.toolCallId ∧ left.idempotencyKeyDigest = right.idempotencyKeyDigest ∧
  left.toolName = right.toolName ∧ left.argumentsDigest = right.argumentsDigest ∧
  toolArgumentPayloadsMatch left.argumentsPayload right.argumentsPayload ∧
  left.bindingDigest = right.bindingDigest ∧ (left.status.Settled ∨
    left.replaySafe = right.replaySafe ∧ left.capabilityRef = right.capabilityRef)

instance (left right : ToolOperationRecord) : Decidable (left.ReplayMatches right) := by
  unfold ReplayMatches
  infer_instance

/-- The status of `to_tool_effect`. -/
def effectStatus (record : ToolOperationRecord) : String :=
  match record.status with
  | .completed => "completed"
  | .failed | .cancelled => "failed"
  | _ => "started"

end ToolOperationRecord

open ToolOperationRecord

/-! The repository of tool operations: transactions on the records and on the aliases of the
calls. -/

structure ToolStore where
  operations : String → Option (Observed ToolOperationRecord) := fun _ => none
  aliases : String × String → Option String := fun _ => none

namespace ToolStore

variable (store : ToolStore)

def putOperation (row : Observed ToolOperationRecord) : ToolStore :=
  { store with
    operations := Function.update store.operations row.value.toolOperationId (some row) }

def insertRecord (record : ToolOperationRecord) : Except Raised ToolStore := do
  refuse ((store.operations record.toolOperationId).isSome) .conflict
  return store.putOperation ⟨record, 0⟩

/-- `_replace_tool_in_transaction` at the storage revision of the record that was read. -/
def replaceTool (row : Observed ToolOperationRecord) (value : ToolOperationRecord) :
    Except Raised ToolStore := do
  let current ← orRaise (store.operations value.toolOperationId) .conflict
  refuse (current.storageRevision ≠ row.storageRevision) .conflict
  refuse (value.agentRunId ≠ current.value.agentRunId ∨
    value.executionId ≠ current.value.executionId)
    (.valueError "record physical identity cannot change")
  return store.putOperation ⟨value, row.storageRevision + 1⟩

/-- The storage revision of a record that is guarded without a change. -/
def guardRecord (row : Observed ToolOperationRecord) : Except Raised (Nat × ToolStore) := do
  let current ← orRaise (store.operations row.value.toolOperationId) .conflict
  refuse (current.storageRevision ≠ row.storageRevision) .conflict
  let revision := row.storageRevision + 1
  return (revision, { store with
    operations := Function.update store.operations row.value.toolOperationId
      (some ⟨current.value, revision⟩) })

def resolveAlias (callAlias : String × String) : Except Raised (Option String) :=
  match store.aliases callAlias with
  | none => .ok none
  | some key => do
    refuse ((store.operations key).isNone) .integrity
    return some key

def insertAlias (callAlias : String × String) (key : String) : Except Raised ToolStore := do
  refuse ((store.aliases callAlias).any fun current => current ≠ key) .conflict
  return { store with aliases := Function.update store.aliases callAlias (some key) }

variable {store} {row : Observed ToolOperationRecord} {toolOperationId : String}

@[simp] theorem putOperation_self :
    (store.putOperation row).operations row.value.toolOperationId = some row :=
  Function.update_self ..

theorem putOperation_of_ne (other : toolOperationId ≠ row.value.toolOperationId) :
    (store.putOperation row).operations toolOperationId = store.operations toolOperationId :=
  Function.update_of_ne other ..

end ToolStore

structure ToolRepository where
  tenantId : String

/-- The alias under which a run that recovers a call of another run admits it. -/
def ToolOperationAdmission.alias? (request : ToolOperationAdmission) : Option (String × String) :=
  if request.recoveryAgentRunId ≠ none ∧ request.recoveryAgentRunId ≠ some request.agentRunId then
    some (request.agentRunId, request.toolCallId)
  else none

inductive ToolOutcome
  | completed (resultPayload : StoredPayload)
  | failed (errorCode : String) (errorPayload : StoredPayload)

/-- `_require_tool_claim`. -/
def requireToolClaim (current : ToolOperationRecord) (owner : String) (fence : Nat)
    (allowUnknown : Bool := false) : Except Raised Unit :=
  refuse (¬(current.status = .claimed ∨ allowUnknown = true ∧ current.status = .effectUnknown) ∨
    current.owner ≠ some owner ∨ current.fence ≠ fence) (.ai .toolOperationConflict)

def validateFailure (status : ToolOperationStatus) (errorCode : Option String)
    (errorPayload : Option StoredPayload) : Except Raised Unit :=
  if status = .failed then (fun _ => ()) <$> decodeToolOperationFailure errorCode errorPayload
  else .ok ()

def ToolOutcome.validate : ToolOutcome → Except Raised Unit
  | .completed _ => .ok ()
  | .failed errorCode errorPayload =>
    validateFailure .failed (some errorCode) (some errorPayload)

namespace ToolRepository

variable (repo : ToolRepository) (store : ToolStore) (now : Time)

def resolveRequest (request : ToolOperationAdmission) : Except Raised (Option String) :=
  match request.alias? with
  | some callAlias => store.resolveAlias callAlias
  | none => .ok none

/-- The record an admission acts on and the key its alias resolves to. -/
def admissionSource (request : ToolOperationAdmission)
    (observed : Option (Observed ToolOperationRecord)) (knownNew : Bool) :
    Except Raised (Option (Observed ToolOperationRecord) × Option String) :=
  if knownNew then .ok (none, none)
  else
    match observed with
    | some receipt => do
      let current := receipt.value
      refuse (current.toolOperationId ≠ request.toolOperationId ∨
        current.executionId ≠ request.executionId ∨ ¬(current.agentRunId = request.agentRunId ∨
          request.recoveryAgentRunId = some current.agentRunId) ∨
        current.toolCallId ≠ request.toolCallId) (.ai .idempotencyConflict)
      return (some receipt, none)
    | none => do
      let resolved ← resolveRequest store request
      refuse (resolved.any (fun key => key ≠ request.toolOperationId) ∧
        (store.operations request.toolOperationId).isSome) (.ai .idempotencyConflict)
      return (store.operations (resolved.getD request.toolOperationId), resolved)

def admitNew (request : ToolOperationAdmission) :
    Except Raised (Observed ToolOperationRecord × ToolStore) := do
  let value ← build {
    toolOperationId := request.toolOperationId
    executionId := request.executionId
    agentRunId := request.agentRunId
    toolCallId := request.toolCallId
    idempotencyKeyDigest := request.idempotencyKeyDigest
    toolName := request.toolName
    argumentsDigest := request.argumentsDigest
    bindingDigest := request.bindingDigest
    replaySafe := request.replaySafe
    status := .claimed
    owner := some request.owner
    fence := 1
    errorCode := none
    createdAt := now
    updatedAt := now
    producerGeneration := request.producerGeneration
    argumentsPayload := request.argumentsPayload
    capabilityRef := request.capabilityRef }
  let inserted ← store.insertRecord value
  match request.alias? with
  | none => return (⟨value, 0⟩, inserted)
  | some callAlias => do
    let aliased ← inserted.insertAlias callAlias request.toolOperationId
    return (⟨value, 0⟩, aliased)

/-- The alias of a recovering run is recorded beside a guard of the operation. -/
def recordAlias (request : ToolOperationAdmission) (row : Observed ToolOperationRecord)
    (resolved : Option String) : Except Raised (Observed ToolOperationRecord × ToolStore) :=
  match request.alias?, resolved with
  | some callAlias, none => do
    let (revision, guarded) ← store.guardRecord row
    let aliased ← guarded.insertAlias callAlias row.value.toolOperationId
    return (⟨row.value, revision⟩, aliased)
  | _, _ => .ok (row, store)

def admitStored (request : ToolOperationAdmission) (row : Observed ToolOperationRecord) :
    Except Raised (Observed ToolOperationRecord × ToolStore) :=
  match row.value.status with
  | .completed | .failed | .effectUnknown => .ok (row, store)
  | .cancelled => .error (.ai .toolOperationConflict)
  | .claimed =>
    if row.value.owner = some request.owner then .ok (row, store)
    else .error (.ai .toolOperationConflict)
  | .pending => do
    let value ← build { row.value.toToolOperationFields with
      status := .claimed
      owner := some request.owner
      fence := row.value.fence + 1
      producerGeneration := request.producerGeneration
      updatedAt := now }
    let replaced ← store.replaceTool row value
    return (⟨value, row.storageRevision + 1⟩, replaced)

def admitInTransaction (request : ToolOperationAdmission)
    (observed : Option (Observed ToolOperationRecord)) (knownNew : Bool) :
    Except Raised (Observed ToolOperationRecord × ToolStore) := do
  refuse (validLeaseOwner request.owner = false) (.ai .requestFieldInvalid)
  refuse (knownNew = true ∧ (observed ≠ none ∨ request.recoveryAgentRunId ≠ none))
    (.valueError "known-new admission cannot carry recovery evidence")
  let (found, resolved) ← admissionSource store request observed knownNew
  match found with
  | none => admitNew store now request
  | some row => do
    refuse (¬row.value.MatchesAdmission request) (.ai .idempotencyConflict)
    let (current, recorded) ← recordAlias store request row resolved
    admitStored recorded now request current

def reserve (record : ToolOperationRecord) : Except Raised (ToolOperationRecord × ToolStore) := do
  validateFailure record.status record.errorCode record.errorPayload
  let callAlias := (record.agentRunId, record.toolCallId)
  let aliasKey ← store.resolveAlias callAlias
  let existingKey := aliasKey.getD record.toolOperationId
  match store.operations existingKey with
  | none => do
    let inserted ← store.insertRecord record
    let aliased ← inserted.insertAlias callAlias record.toolOperationId
    return (record, aliased)
  | some existing => do
    refuse (¬existing.value.ReplayMatches record) (.ai .idempotencyConflict)
    match aliasKey with
    | some _ => return (existing.value, store)
    | none => do
      let (_, guarded) ← store.guardRecord existing
      let aliased ← guarded.insertAlias callAlias existingKey
      return (existing.value, aliased)

def deferInTransaction (tenantId toolOperationId owner : String) (fence : Nat) :
    Except Raised (ToolOperationRecord × ToolStore) := do
  refuse (tenantId ≠ repo.tenantId) (.ai .storageOwnerMismatch)
  refuse (validLeaseOwner owner = false) (.ai .requestFieldInvalid)
  let row ← orRaise (store.operations toolOperationId) (.ai .storageNotFound)
  let current := row.value
  if current.status = .pending then
    refuse (¬(current.owner = none ∧ current.fence = fence)) (.ai .toolOperationConflict)
    return (current, store)
  else
    requireToolClaim current owner fence
    let value ← build { current.toToolOperationFields with
      status := .pending
      owner := none
      errorCode := none
      errorPayload := none
      resultPayload := none
      updatedAt := now }
    let replaced ← store.replaceTool row value
    return (value, replaced)

/-- `write` is what the caller publishes in the same transaction. -/
def markEffectUnknown (tenantId toolOperationId owner : String) (fence : Nat)
    (errorCode : Option String) (write : Option (Except Raised Unit)) :
    Except Raised (ToolOperationRecord × ToolStore) := do
  refuse (tenantId ≠ repo.tenantId) (.ai .storageOwnerMismatch)
  refuse (validLeaseOwner owner = false) (.ai .requestFieldInvalid)
  let row ← orRaise (store.operations toolOperationId) (.ai .storageNotFound)
  let current := row.value
  if current.status = .effectUnknown then
    refuse (¬(current.owner = some owner ∧ current.fence = fence ∧
      current.errorCode = errorCode)) (.ai .toolOperationConflict)
    match write with
    | none => return (current, store)
    | some published => do
      let (_, guarded) ← store.guardRecord row
      published
      return (current, guarded)
  else
    requireToolClaim current owner fence
    let value ← build { current.toToolOperationFields with
      status := .effectUnknown
      errorCode := errorCode
      updatedAt := now }
    let replaced ← store.replaceTool row value
    write.getD (.ok ())
    return (value, replaced)

def finishedFields (current : ToolOperationRecord) : ToolOutcome → ToolOperationFields
  | .completed resultPayload => { current.toToolOperationFields with
      status := .completed
      resultPayload := some resultPayload
      errorCode := none
      updatedAt := now }
  | .failed errorCode errorPayload => { current.toToolOperationFields with
      status := .failed
      errorCode := some errorCode
      errorPayload := some errorPayload
      updatedAt := now }

def replayFinish (current : ToolOperationRecord) (owner : String) (fence : Nat) :
    ToolOutcome → Except Raised Unit
  | .completed resultPayload =>
    if current.status = .completed then
      refuse (¬(current.owner = some owner ∧ current.fence = fence ∧
        current.resultPayload = some resultPayload)) (.ai .toolResultConflict)
    else .error (.ai .toolOperationConflict)
  | .failed errorCode errorPayload =>
    refuse (¬(current.status = .failed ∧ current.owner = some owner ∧ current.fence = fence ∧
      current.errorCode = some errorCode ∧ current.errorPayload = some errorPayload))
      (.ai .toolOperationConflict)

/-- The record that a finished call acts on, or the receipt that its caller holds. -/
def finishSource (toolOperationId : String) (observed : Option (Observed ToolOperationRecord)) :
    Except Raised (Observed ToolOperationRecord) :=
  match observed with
  | some receipt => do
    refuse (receipt.value.toolOperationId ≠ toolOperationId) (.ai .idempotencyConflict)
    return receipt
  | none => orRaise (store.operations toolOperationId) (.ai .storageNotFound)

def finishTool (tenantId toolOperationId owner : String) (fence : Nat) (outcome : ToolOutcome)
    (observed : Option (Observed ToolOperationRecord)) :
    Except Raised (Observed ToolOperationRecord × ToolStore) := do
  refuse (tenantId ≠ repo.tenantId) (.ai .storageOwnerMismatch)
  refuse (validLeaseOwner owner = false) (.ai .requestFieldInvalid)
  outcome.validate
  let row ← finishSource store toolOperationId observed
  let current := row.value
  if current.status.Settled then
    replayFinish current owner fence outcome
    return (row, store)
  else
    refuse (current.status = .cancelled) (.ai .toolOperationConflict)
    requireToolClaim current owner fence true
    let value ← build (finishedFields now current outcome)
    let replaced ← store.replaceTool row value
    return (⟨value, row.storageRevision + 1⟩, replaced)

def completeInTransaction (tenantId toolOperationId owner : String) (fence : Nat)
    (resultPayload : StoredPayload) (observed : Option (Observed ToolOperationRecord)) :
    Except Raised (Observed ToolOperationRecord × ToolStore) :=
  finishTool repo store now tenantId toolOperationId owner fence (.completed resultPayload)
    observed

def failInTransaction (tenantId toolOperationId owner : String) (fence : Nat) (errorCode : String)
    (errorPayload : StoredPayload) (observed : Option (Observed ToolOperationRecord)) :
    Except Raised (Observed ToolOperationRecord × ToolStore) :=
  finishTool repo store now tenantId toolOperationId owner fence
    (.failed errorCode errorPayload) observed

def settledStatus (resultPayload : Option StoredPayload) : ToolOperationStatus :=
  if resultPayload ≠ none then .completed else .failed

def settleDeferredResult (expected : ToolOperationRecord) (resultPayload : Option StoredPayload)
    (errorCode : Option String) (errorPayload : Option StoredPayload) :
    Except Raised (ToolOperationRecord × ToolStore) := do
  let row ← orRaise (store.operations expected.toolOperationId) (.ai .storageNotFound)
  let current := row.value
  refuse (¬current.ReplayMatches expected ∨ current.fence ≠ expected.fence)
    (.ai .toolOperationConflict)
  let target := settledStatus resultPayload
  validateFailure target errorCode errorPayload
  if current.status = target then
    refuse (¬(current.resultPayload = resultPayload ∧ current.errorCode = errorCode ∧
      current.errorPayload = errorPayload)) (.ai .toolResultConflict)
    return (current, store)
  else
    refuse (current.status ≠ .pending ∨ current.owner ≠ none) (.ai .toolOperationConflict)
    let value ← build { current.toToolOperationFields with
      status := target
      resultPayload := resultPayload
      errorCode := errorCode
      errorPayload := errorPayload
      updatedAt := now }
    let replaced ← store.replaceTool row value
    return (value, replaced)

def reconcileTurnClaim (toolOperationId executionId : String) (producerGeneration : Nat)
    (producerClaimId : String) (turnStopping : Bool) :
    Except Raised (ToolOperationRecord × ToolStore) := do
  let row ← orRaise (store.operations toolOperationId) (.ai .storageNotFound)
  let current := row.value
  refuse (current.executionId ≠ executionId) (.ai .storageOwnerMismatch)
  let sameTurn : Bool := current.owner = some producerClaimId ∧
    current.producerGeneration = some producerGeneration
  if current.status ≠ .claimed ∨ sameTurn = true ∧ turnStopping = false then
    return (current, store)
  else
    refuse (current.producerGeneration = none ∨
      current.producerGeneration.any (fun generation => producerGeneration < generation) ∨
      current.producerGeneration = some producerGeneration ∧ sameTurn = false)
      (.ai .toolOperationConflict)
    let retry : Bool := current.replaySafe = true ∧ turnStopping = false
    let value ← build { current.toToolOperationFields with
      status := if retry then .pending else .effectUnknown
      owner := if retry then none else current.owner
      errorCode := if retry then none else some ErrorCode.toolEffectUnknown.value
      updatedAt := now }
    let replaced ← store.replaceTool row value
    return (value, replaced)

def resolvedFields (current : ToolOperationRecord) (targetStatus : ToolOperationStatus)
    (resultPayload : Option StoredPayload) (errorCode : Option String)
    (errorPayload : Option StoredPayload) : Except Raised ToolOperationFields :=
  match targetStatus with
  | .completed => .ok { current.toToolOperationFields with
      status := .completed
      resultPayload := resultPayload
      errorCode := none
      errorPayload := none
      updatedAt := now }
  | .pending => .ok { current.toToolOperationFields with
      status := .pending
      owner := none
      errorCode := none
      errorPayload := none
      resultPayload := none
      updatedAt := now }
  | .failed => .ok { current.toToolOperationFields with
      status := .failed
      resultPayload := none
      errorCode := errorCode
      errorPayload := errorPayload
      updatedAt := now }
  | _ => .error (.valueError "unsupported tool effect resolution target")

/-- `admitted` is the admission of the operator's receipt in the same transaction. -/
def resolveEffect (toolOperationId executionId : String) (expectedFence : Nat)
    (targetStatus : ToolOperationStatus) (resultPayload : Option StoredPayload)
    (errorCode : Option String) (errorPayload : Option StoredPayload)
    (admitted : Except Raised Unit) : Except Raised (ToolOperationRecord × ToolStore) := do
  let row ← orRaise (store.operations toolOperationId) (.ai .storageNotFound)
  let current := row.value
  refuse (current.executionId ≠ executionId) .integrity
  refuse (current.status ≠ .effectUnknown ∨ current.fence ≠ expectedFence)
    (.ai .toolOperationConflict)
  let fields ← resolvedFields now current targetStatus resultPayload errorCode errorPayload
  let updated ← build fields
  admitted
  let replaced ← store.replaceTool row updated
  return (updated, replaced)

/-- The record that an effect is found under, or the receipt that its caller holds. -/
def effectSource (effect : ToolEffectRecord) (toolOperationId : String)
    (recoveryAgentRunId : Option String) (observed : Option (Observed ToolOperationRecord)) :
    Except Raised (Observed ToolOperationRecord) :=
  match observed, store.operations toolOperationId, recoveryAgentRunId with
  | some receipt, _, _ => .ok receipt
  | none, some row, _ => .ok row
  | none, none, none => .error (.ai .toolOperationConflict)
  | none, none, some _ => do
    let resolved ← store.resolveAlias (effect.runId, effect.toolCallId)
    orRaise (resolved.bind store.operations) (.ai .toolOperationConflict)

def recordToolEffect (effect : ToolEffectRecord) (executionId toolOperationId : String)
    (bindingDigest : String) (recoveryAgentRunId : Option String)
    (observed : Option (Observed ToolOperationRecord)) :
    Except Raised (Observed ToolOperationRecord × ToolStore) := do
  let row ← effectSource store effect toolOperationId recoveryAgentRunId observed
  let current := row.value
  refuse (current.executionId ≠ executionId ∨ current.toolCallId ≠ effect.toolCallId ∨
    current.toolName ≠ effect.toolName ∨ current.bindingDigest ≠ bindingDigest ∨
    ¬(current.agentRunId = effect.runId ∨ recoveryAgentRunId = some current.agentRunId) ∨
    current.effectStatus ≠ effect.status) (.ai .toolOperationConflict)
  let fields := { current.toToolOperationFields with
    effectStartedAt := some (current.effectStartedAt.getD effect.startedAt)
    effectIdempotencyKey := effect.idempotencyKey.or current.effectIdempotencyKey
    effectSummary := effect.effectSummary.or current.effectSummary }
  if fields = current.toToolOperationFields then
    return (row, store)
  else
    let value ← build { fields with updatedAt := now }
    let replaced ← store.replaceTool row value
    return (⟨value, row.storageRevision + 1⟩, replaced)

end ToolRepository

end Linktools.Tool
