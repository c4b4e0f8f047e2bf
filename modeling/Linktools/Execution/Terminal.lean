import Linktools.Execution.Repository

namespace Linktools.Execution

open Linktools.Core Library Persistence

/-! The terminal publication of an execution: its result, its idempotency update, and turns that
are inserted already finished. -/

structure IdempotencyTerminalUpdate where
  scope : String
  idempotencyKeyDigest : String
  expectedStatus : IdempotencyStatus
  nextStatus : IdempotencyStatus
  requestDigest : String
  resultDigest : Option String
  errorCode : Option String

structure OperationTerminalUpdate where
  operationId : String
  expectedStatus : OperationStatus
  nextStatus : OperationStatus
  resultRef : Option String
  resultDigest : Option String
  errorCode : Option String

/-- A terminal commit carries a terminal execution, and an output exactly if it has
succeeded. -/
structure ExecutionTerminalCommit where
  expectedRevision : Nat
  expectedEventSeq : Nat
  execution : ExecutionRecord
  result : ResultRecord
  terminalEventType : ExecutionEventType
  terminalEventPayload : Payload
  idempotency : Option IdempotencyTerminalUpdate := none
  operation : Option OperationTerminalUpdate := none
  producerGeneration : Option Nat := none
  terminal : TerminalStatus execution.status
  outputs : result.output.isSome = true ↔ execution.status = .succeeded
  failed : execution.status = .failed → terminalEventType = .executionFailed
  produced : ∀ generation ∈ producerGeneration, 1 ≤ generation

/-- The status of the idempotency record of an execution that has ended. -/
def terminalIdempotencyStatus : ExecutionStatus → IdempotencyStatus
  | .succeeded => .completed
  | .cancelled => .cancelled
  | _ => .failed

def terminalEventTypeOf : ExecutionStatus → ExecutionEventType
  | .succeeded => .executionSucceeded
  | .cancelled => .executionCancelled
  | _ => .executionFailed

def pendingAuditTypes : List String :=
  [ExecutionEventType.modelRequestStarted, .modelRequestFinished, .assistantPartCompleted,
    .toolCallStarted, .toolCallFinished].map ExecutionEventType.value

/-- Holds share the revision counter without changing what the execution is. -/
def SameExecutionExceptHoldMetadata (current expected : ExecutionRecord) : Prop :=
  expected.revision ≤ current.revision ∧
    { current.toExecutionFields with
      revision := expected.revision
      updatedAt := expected.updatedAt
      dependencyHoldIds := expected.dependencyHoldIds } = expected.toExecutionFields

instance (current expected : ExecutionRecord) :
    Decidable (SameExecutionExceptHoldMetadata current expected) := by
  unfold SameExecutionExceptHoldMetadata
  infer_instance

def ExecutionTerminalCommit.withExecution (commit : ExecutionTerminalCommit)
    (execution : ExecutionRecord) (same : execution.status = commit.execution.status) :
    ExecutionTerminalCommit :=
  { commit with
    execution
    terminal := same ▸ commit.terminal
    outputs := same ▸ commit.outputs
    failed := same ▸ commit.failed }

/-- `replace` on the execution of a commit; the fields keep its status. -/
def ExecutionTerminalCommit.replaceExecution (commit : ExecutionTerminalCommit)
    (fields : ExecutionFields) (same : fields.status = commit.execution.status) :
    Except Raised ExecutionTerminalCommit :=
  match built : ExecutionRecord.build fields with
  | .ok execution => .ok (commit.withExecution execution
      ((congrArg ExecutionFields.status (ExecutionRecord.build_eq_ok.mp built)).trans same))
  | .error raised => .error raised

namespace ExecutionRepository

variable (repo : ExecutionRepository) (store : ExecutionStore)

/-- The idempotency record that a terminal commit ends, in its next state and with the
storage revision it is replaced at. -/
def terminalIdempotencyReplacement (commit : ExecutionTerminalCommit) (now : Time) :
    Option IdempotencyTerminalUpdate → Except Raised (Option (IdempotencyRecord × Nat))
  | none => .ok none
  | some update => do
    let stored ← orRaise (store.idempotencyAt (update.scope, update.idempotencyKeyDigest))
      .integrity
    let current := stored.value
    refuse (current.resourceKind ≠ executionKind ∨
      current.resourceId ≠ commit.execution.executionId ∨
      current.requestDigest ≠ update.requestDigest) .integrity
    refuse (current.status ≠ update.expectedStatus) (.ai .executionResultConflict)
    return some ({ current with
      status := update.nextStatus
      requestDigest := update.requestDigest
      resultDigest := update.resultDigest
      errorCode := update.errorCode
      updatedAt := now }, stored.storageRevision)

def terminalOperationReplacement (now : Time) :
    Option OperationTerminalUpdate → Except Raised (Option OperationLedgerRecord)
  | none => .ok none
  | some update => do
    let current ← orRaise (store.operations update.operationId) .integrity
    refuse (current.status ≠ update.expectedStatus) (.ai .executionResultConflict)
    return some { current with
      status := update.nextStatus
      resultRef := update.resultRef
      resultDigest := update.resultDigest
      errorCode := update.errorCode
      updatedAt := now }

def replaceTerminalIdempotency : Option (IdempotencyRecord × Nat) → Except Raised ExecutionStore
  | none => .ok store
  | some (record, storageRevision) => store.replaceIdempotency record storageRevision

def replaceTerminalOperation : Option OperationLedgerRecord → ExecutionStore
  | none => store
  | some record =>
    { store with
      operations := Function.update store.operations record.operationId (some record) }

def commitTerminal (commit : ExecutionTerminalCommit)
    (pendingEvents : List ExecutionEventAppend) (now : Time) :
    Except Raised (ExecutionRecord × ExecutionStore) := do
  let stored ← store.loadExecution commit.execution.executionId (.ai .executionResultConflict)
  let current := stored.value
  refuse (current.revision ≠ commit.expectedRevision ∨ current.eventSeq ≠ commit.expectedEventSeq ∨
    current.restartCheckpoints ≠ commit.execution.restartCheckpoints ∨
    current.durableTrace ≠ commit.execution.durableTrace ∨
    current.producerGeneration ≠ commit.execution.producerGeneration ∨
    current.producerClaimId ≠ commit.execution.producerClaimId ∨
    commit.producerGeneration.any (current.producerGeneration ≠ ·)) (.ai .executionResultConflict)
  let idempotency ← terminalIdempotencyReplacement store commit now commit.idempotency
  let operation ← terminalOperationReplacement store now commit.operation
  let next ← ExecutionRecord.build { commit.execution.toExecutionFields with
    revision := current.revision + pendingEvents.length + 1
    eventSeq := current.eventSeq + pendingEvents.length + 1
    result := some commit.result }
  let store ← store.replaceChecked next stored.storageRevision
  let store ← replaceTerminalIdempotency store idempotency
  let store ← store.insertFacts commit.execution.executionId
    (eventFacts (current.eventSeq + 1) pendingEvents ++
      [⟨next.eventSeq, commit.terminalEventType.value, commit.terminalEventPayload⟩])
  return (next, replaceTerminalOperation store operation)

def commitClosedTerminal (commit : ExecutionTerminalCommit)
    (pendingEvents : List ExecutionEventAppend) (now : Time) :
    Except Raised (ExecutionRecord × ExecutionStore) := do
  refuse (commit.execution.durableTrace = true) .integrity
  commitTerminal store commit pendingEvents now

/-- The idempotency update of a terminal commit: of the start identity the caller holds, or
of the only record that names the execution. -/
def terminalIdempotency (commit : ExecutionTerminalCommit) (identity : Option IdempotencyRecord) :
    Except Raised (Option IdempotencyTerminalUpdate) := do
  let identity ←
    match identity with
    | some identity => do
      refuse (identity.resourceKind ≠ executionKind ∨
        identity.resourceId ≠ commit.execution.executionId) .integrity
      Except.ok (some identity)
    | none => do
      let records := store.idempotencyByResource commit.execution.executionId
      refuse (1 < records.length) .integrity
      Except.ok records.head?
  return identity.map fun identity =>
    ⟨identity.scope, identity.idempotencyKeyDigest, identity.status,
      terminalIdempotencyStatus commit.execution.status, identity.requestDigest,
      commit.result.output.map StoredOutput.digest, commit.execution.errorCode⟩

/-- The commit on top of the holds that were changed since the caller's snapshot. -/
def mergeHolds (commit : ExecutionTerminalCommit) :
    Option ExecutionRecord → Except Raised ExecutionTerminalCommit
  | none => .ok commit
  | some expectedExecution => do
    let current ← orRaise (store.executions commit.execution.executionId)
      (.ai .executionResultConflict)
    refuse (¬SameExecutionExceptHoldMetadata current.value expectedExecution)
      (.ai .executionResultConflict)
    let merged ← commit.replaceExecution { commit.execution.toExecutionFields with
      dependencyHoldIds := current.value.dependencyHoldIds
      updatedAt := max commit.execution.updatedAt current.value.updatedAt } rfl
    return { merged with expectedRevision := current.value.revision }

def effectiveTerminalCommit (commit : ExecutionTerminalCommit)
    (expectedExecution : Option ExecutionRecord) (startIdentity : Option IdempotencyRecord) :
    Except Raised ExecutionTerminalCommit := do
  let commit ← mergeHolds store commit expectedExecution
  match commit.idempotency with
  | some _ => return commit
  | none => do
    let idempotency ← terminalIdempotency store commit startIdentity
    return { commit with idempotency }

structure TerminalPublication where
  commit : ExecutionTerminalCommit
  expectedExecution : Option ExecutionRecord := none
  startIdentity : Option IdempotencyRecord := none
  auditEvents : List ExecutionEventAppend := []
  /-- The run projections are published with the commit. -/
  executionRun : Bool := false
  /-- The seal's digest, computed from the run heads. -/
  sealDigest : String := ""

/-- The guard that establishes the publisher: its generation, or the open history. -/
def guardPublisher (commit : ExecutionTerminalCommit) : Except Raised ExecutionStore :=
  match commit.producerGeneration with
  | some generation =>
    Prod.snd <$> requireExecutionProducer store commit.execution.executionId generation
  | none => Prod.snd <$> requireExecutionHistoryWrite store commit.execution.executionId

def sealTerminalCommit (publication : TerminalPublication) :
    Except Raised (ExecutionTerminalCommit × Option ExecutionHistorySealRecord) := do
  let commit := publication.commit
  let historySeal : Option ExecutionHistorySealRecord :=
    if commit.execution.durableTrace then
      some ⟨commit.execution.executionId, publication.sealDigest⟩
    else none
  let commit ← commit.replaceExecution { commit.execution.toExecutionFields with
    historySealDigest := historySeal.map ExecutionHistorySealRecord.sealDigest } rfl
  return (commit, historySeal)

def putTerminalSeal : Option ExecutionHistorySealRecord → Except Raised ExecutionStore
  | none => .ok store
  | some historySeal => Prod.snd <$> putHistorySeal store historySeal

def commitTerminalCheckpoint (publication : TerminalPublication) (now : Time) :
    Except Raised (ExecutionRecord × ExecutionStore) := do
  let (commit, historySeal) ← sealTerminalCommit publication
  if commit.execution.durableTrace = false ∧ publication.executionRun = false then do
    let effective ← effectiveTerminalCommit store commit publication.expectedExecution
      publication.startIdentity
    commitClosedTerminal store effective publication.auditEvents now
  else do
    let store ← guardPublisher store commit
    let effective ← effectiveTerminalCommit store commit publication.expectedExecution
      publication.startIdentity
    let store ← putTerminalSeal store historySeal
    commitTerminal store effective publication.auditEvents now

def SamePendingTurn (reserved final : ExecutionRecord) : Prop :=
  reserved.sessionId = final.sessionId ∧ reserved.binding = final.binding ∧
    reserved.parentExecutionId = final.parentExecutionId ∧
    reserved.rootExecutionId = final.rootExecutionId ∧
    reserved.budgetScopeId = final.budgetScopeId ∧
    reserved.restartCheckpoints = final.restartCheckpoints ∧
    reserved.durableTrace = final.durableTrace ∧ reserved.conversation = final.conversation ∧
    reserved.profile = final.profile

instance (reserved final : ExecutionRecord) : Decidable (SamePendingTurn reserved final) := by
  unfold SamePendingTurn
  infer_instance

def pendingTurnEvents (commit : ExecutionTerminalCommit) (auditEvents : List ExecutionEventAppend) :
    List ExecutionEventAppend :=
  ⟨ExecutionEventType.executionStarted.value, []⟩ :: auditEvents ++
    [⟨commit.terminalEventType.value, commit.terminalEventPayload⟩]

def insertPendingTurn (reservation : ExecutionStartReservation) (commit : ExecutionTerminalCommit)
    (auditEvents : List ExecutionEventAppend) (now : Time) :
    Except Raised (ExecutionRecord × ExecutionStore) := do
  let executionId := reservation.execution.executionId
  refuse (reservation.idempotency.resourceKind ≠ executionKind) .integrity
  refuse (reservation.execution.conversation = false ∨ commit.execution.conversation = false ∨
    commit.execution.executionId ≠ executionId ∨ reservation.idempotency.resourceId ≠ executionId ∨
    reservation.idempotency.status ≠ .reserved ∨
    commit.terminalEventType ≠ terminalEventTypeOf commit.execution.status ∨
    commit.operation ≠ none) .integrity
  refuse (¬SamePendingTurn reservation.execution commit.execution) .integrity
  refuse (∃ event ∈ auditEvents, event.eventType ∉ pendingAuditTypes) .integrity
  let events := pendingTurnEvents commit auditEvents
  let final ← ExecutionRecord.build { commit.execution.toExecutionFields with
    result := some commit.result
    eventSeq := events.length
    retentionClosed := true
    revision := commit.expectedRevision + auditEvents.length + 1 }
  let store ← store.insertExecution final
  let store ← store.insertIdempotency { reservation.idempotency with
    status := terminalIdempotencyStatus commit.execution.status
    resultDigest := commit.result.output.map StoredOutput.digest
    errorCode := commit.execution.errorCode
    updatedAt := now }
  let store ← store.insertFacts executionId (eventFacts 1 events)
  return (final, store)

def commitCancelCheckpoint (commit : ExecutionCancelRequestCommit)
    (expectedStatus : ExecutionStatus) (auditEvents : List ExecutionEventAppend)
    (producerGeneration : Option Nat) : Except Raised (ExecutionRecord × ExecutionStore) :=
  match producerGeneration with
  | none => repo.requestCancel store commit none auditEvents
  | some generation => do
    let (_, store) ← requireExecutionProducer store commit.executionId generation
    repo.requestCancel store commit (some expectedStatus) auditEvents

def commitRecoveryHandoff (checkpoint : ExecutionRecord) (expectedRevision : Nat)
    (producerGeneration : Nat) : Except Raised (ExecutionRecord × ExecutionStore) := do
  refuse (checkpoint.recoveryState ≠ some .handoff ∨
    checkpoint.revision ≠ expectedRevision + 1) .integrity
  let (_, store) ← requireExecutionProducer store checkpoint.executionId producerGeneration
  repo.compareAndSwap store repo.tenantId checkpoint.executionId expectedRevision
    checkpoint

end ExecutionRepository

end Linktools.Execution
