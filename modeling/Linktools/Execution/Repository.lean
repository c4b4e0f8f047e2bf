import Linktools.Execution.Store

namespace Linktools.Execution

open Linktools.Core Library Persistence ExecutionRecord

structure ExecutionRepository where
  tenantId : String

structure ExecutionStartReservation where
  execution : ExecutionRecord
  idempotency : IdempotencyRecord
  budget : Option RunBudget := none
  parentProducerGeneration : Option Nat := none

structure ExecutionStartReservationResult where
  execution : ExecutionRecord
  idempotency : IdempotencyRecord
  created : Bool

structure ExecutionStartClaim where
  executionId : String
  expectedRevision : Nat
  expectedEventSeq : Nat
  scope : String
  idempotencyKeyDigest : String
  requestDigest : String
  startedAt : Time

structure ExecutionCancelRequestCommit where
  executionId : String
  expectedRevision : Nat
  expectedEventSeq : Nat
  operationId : String
  requestedAt : Time

structure ExecutionStartUnknownCommit where
  executionId : String
  expectedRevision : Nat
  expectedEventSeq : Nat
  occurredAt : Time

/-- The statuses of executions that a recovery control step may guard. -/
def RecoverableStatus (status : ExecutionStatus) : Prop :=
  status = .pendingStart ∨ status = .started ∨ status = .recoveryRequired ∨
    status = .cancelling ∨ status = .finalizing

instance : DecidablePred RecoverableStatus := fun status => by
  unfold RecoverableStatus
  infer_instance

def PublishingStatus (allowCancelling : Bool) (status : ExecutionStatus) : Prop :=
  status = .started ∨ allowCancelling = true ∧ (status = .cancelling ∨ status = .finalizing)

instance (allowCancelling : Bool) : DecidablePred (PublishingStatus allowCancelling) :=
  fun status => by
    unfold PublishingStatus
    infer_instance

namespace ExecutionRepository

variable (repo : ExecutionRepository) (store : ExecutionStore)

def requireTenant (tenantId : String) : Except Raised Unit :=
  refuse (tenantId ≠ repo.tenantId) (.ai .storageOwnerMismatch)

def createExecution (execution : ExecutionRecord) :
    Except Raised (ExecutionRecord × ExecutionStore) :=
  match store.executions execution.executionId with
  | some current => do
    refuse (current.value.executionId ≠ execution.executionId) .integrity
    refuse (current.value ≠ execution) .conflict
    return (current.value, store)
  | none => do
    let store ← store.insertExecution execution
    return (execution, store)

def compareAndSwap (tenantId executionId : String) (expectedRevision : Nat)
    (nextRecord : ExecutionRecord) : Except Raised (ExecutionRecord × ExecutionStore) := do
  repo.requireTenant tenantId
  let stored ← store.loadExecution executionId (.ai .storageNotFound)
  refuse (stored.value.revision ≠ expectedRevision ∨ nextRecord.executionId ≠ executionId ∨
    nextRecord.revision ≠ expectedRevision + 1) .conflict
  let store ← store.replaceChecked nextRecord stored.storageRevision
  return (nextRecord, store)

/-- Publishes a prepared boundary with the receipt that its caller holds. -/
def commitBoundary (observed : Observed ExecutionRecord) (nextRecord : ExecutionRecord)
    (expectedProducerGeneration : Nat) (expectedProducerClaimId : String) :
    Except Raised (Observed ExecutionRecord × ExecutionStore) := do
  let current := observed.value
  refuse (current.executionId ≠ nextRecord.executionId ∨ current.status ≠ .started ∨
    current.producerGeneration ≠ expectedProducerGeneration ∨
    current.producerClaimId ≠ some expectedProducerClaimId ∨
    nextRecord.producerGeneration ≠ current.producerGeneration ∨
    nextRecord.producerClaimId ≠ current.producerClaimId ∨
    nextRecord ≠ current ∧ nextRecord.revision ≠ current.revision + 1) .conflict
  if nextRecord = current then do
    let (revision, store) ← orRaise
      (store.guardRecordRevision current.executionId observed.storageRevision) .conflict
    refuse (revision ≠ observed.storageRevision + 1) .conflict
    return (⟨current, revision⟩, store)
  else do
    let store ← store.replaceChecked nextRecord observed.storageRevision
    return (⟨nextRecord, observed.storageRevision + 1⟩, store)

def requireExecutionProducer (executionId : String) (expectedProducerGeneration : Nat)
    (allowCancelling : Bool := true) : Except Raised (ExecutionRecord × ExecutionStore) := do
  refuse (expectedProducerGeneration < 1) .conflict
  let stored ← store.loadExecution executionId .integrity
  refuse (stored.value.producerGeneration ≠ expectedProducerGeneration) .conflict
  refuse (stored.value.status = .cancelling ∧ allowCancelling = false) (.ai .executionCancelled)
  refuse (¬PublishingStatus allowCancelling stored.value.status) .conflict
  let (_, store) ← orRaise (store.guardRecord executionId stored.storageRevision) .conflict
  return (stored.value, store)

/-- The guard of a transition that names its producer's generation, if it does. -/
def requireNamedProducer (executionId : String) (producerGeneration : Option Nat) :
    Except Raised ExecutionStore :=
  match producerGeneration with
  | none => .ok store
  | some generation =>
    Prod.snd <$> requireExecutionProducer store executionId generation

def requireExecutionHistoryWrite (executionId : String) :
    Except Raised (ExecutionRecord × ExecutionStore) := do
  let stored ← store.loadExecution executionId .integrity
  refuse (stored.value.historySealDigest ≠ none ∨ TerminalStatus stored.value.status) .conflict
  let (_, store) ← orRaise (store.guardRecord executionId stored.storageRevision) .conflict
  return (stored.value, store)

def guardRecovery (execution : ExecutionRecord) : Except Raised ExecutionStore := do
  let stored ← store.loadExecution execution.executionId (.ai .storageNotFound)
  refuse (stored.value.revision ≠ execution.revision ∨
    stored.value.eventSeq ≠ execution.eventSeq ∨ stored.value.status ≠ execution.status ∨
    ¬RecoverableStatus stored.value.status) .conflict
  let (_, store) ← orRaise
    (store.guardRecord execution.executionId stored.storageRevision) .conflict
  return store

def putHistorySeal (sealed : ExecutionHistorySealRecord) :
    Except Raised (ExecutionHistorySealRecord × ExecutionStore) :=
  match store.seals sealed.executionId with
  | some existing => do
    refuse (existing ≠ sealed) .integrity
    return (existing, store)
  | none => .ok (sealed, { store with
      seals := Function.update store.seals sealed.executionId (some sealed) })

/-- Orders the admission of a child against the parent's cancel and takeover. -/
def guardSubagentParent (execution : ExecutionRecord) (parentProducerGeneration : Nat) :
    Except Raised ExecutionStore := do
  let parentId ← orRaise execution.parentExecutionId (.ai .storageOwnerMismatch)
  refuse (parentProducerGeneration < 1) (.ai .storageOwnerMismatch)
  let parent ← store.loadExecution parentId .integrity
  refuse (parent.value.rootExecutionId ≠ execution.rootExecutionId) .integrity
  refuse (parent.value.status = .cancelling) (.ai .executionCancelled)
  refuse (parent.value.status ≠ .started) .conflict
  let (_, store) ← requireExecutionProducer store parentId parentProducerGeneration false
  return store

def guardReservationParent (reservation : ExecutionStartReservation) :
    Except Raised ExecutionStore :=
  if reservation.execution.parentExecutionId = none then .ok store
  else do
    let generation ← orRaise reservation.parentProducerGeneration (.ai .storageOwnerMismatch)
    guardSubagentParent store reservation.execution generation

def admitBudget (reservation : ExecutionStartReservation) : Except Raised ExecutionStore :=
  match reservation.execution.budgetScopeId with
  | none => .ok store
  | some scopeId =>
    match reservation.budget, store.budgets scopeId with
    | none, none => .error .integrity
    | none, some _ => .ok store
    | some limits, some current =>
      if current = limits then .ok store
      else .error (.ai .storageConflict [("reason", .str "budget_limits_changed")])
    | some limits, none =>
      .ok { store with budgets := Function.update store.budgets scopeId (some limits) }

/-- `contextPublished` is what publishing the prepared input context does, none if there
is no input context to publish. -/
def reserveStart (reservation : ExecutionStartReservation)
    (contextPublished : Option (Except Raised Unit) := none) :
    Except Raised (ExecutionStartReservationResult × ExecutionStore) := do
  refuse (reservation.idempotency.resourceKind ≠ executionKind) .integrity
  refuse (reservation.budget ≠ none ∧ reservation.execution.budgetScopeId ≠
    some ("execution:" ++ reservation.execution.executionId)) .integrity
  match store.idempotencyAt reservation.idempotency.identityKey with
  | some existing => do
    refuse (¬existing.value.SameIdentity reservation.idempotency) (.ai .idempotencyConflict)
    let winner ← store.loadExecution existing.value.resourceId .integrity
    return (⟨winner.value, existing.value, false⟩, store)
  | none => do
    refuse ((store.executions reservation.execution.executionId).isSome) .integrity
    let store ← guardReservationParent store reservation
    let store ← admitBudget store reservation
    contextPublished.getD (.ok ())
    let store ← store.insertExecution reservation.execution
    let store ← store.insertIdempotency reservation.idempotency
    return (⟨reservation.execution, reservation.idempotency, true⟩, store)

/-- The idempotency record of a claim, found or made, in its started state. -/
def startIdempotency (claim : ExecutionStartClaim) : Except Raised ExecutionStore :=
  match store.idempotencyAt (claim.scope, claim.idempotencyKeyDigest) with
  | none =>
    store.insertIdempotency
      ⟨claim.scope, claim.idempotencyKeyDigest, claim.requestDigest, executionKind,
        claim.executionId, .started, none, none, claim.startedAt, claim.startedAt⟩
  | some stored => do
    let idempotency := stored.value
    refuse (idempotency.requestDigest ≠ claim.requestDigest ∨
      idempotency.resourceKind ≠ executionKind ∨ idempotency.resourceId ≠ claim.executionId ∨
      idempotency.status ≠ .reserved) .conflict
    store.replaceIdempotency { idempotency with status := .started, updatedAt := claim.startedAt }
      stored.storageRevision

def claimStart (claim : ExecutionStartClaim) : Except Raised
    (ExecutionRecord × ExecutionStore) := do
  let stored ← store.loadExecution claim.executionId .conflict
  let current := stored.value
  refuse (current.revision ≠ claim.expectedRevision ∨ current.eventSeq ≠ claim.expectedEventSeq ∨
    current.status ≠ .pendingStart) .conflict
  let next ← build { current.toExecutionFields with
    status := .started
    revision := current.revision + 1
    eventSeq := current.eventSeq + 1
    updatedAt := claim.startedAt
    startedAt := current.startedAt.or (some claim.startedAt)
    recovery := current.recovery.or (if current.binding.isAgent then some {} else none) }
  let store ← startIdempotency store claim
  let store ← store.replaceChecked next stored.storageRevision
  let store ← store.insertFacts claim.executionId
    [⟨next.eventSeq, ExecutionEventType.executionStarted.value, []⟩]
  return (next, store)

/-- The repository's compare-and-swap of an idempotency record by its status. -/
def compareAndSwapIdempotency (tenantId scope idempotencyKeyDigest : String)
    (expectedStatus : IdempotencyStatus) (nextRecord : IdempotencyRecord) :
    Except Raised (IdempotencyRecord × ExecutionStore) := do
  repo.requireTenant tenantId
  refuse (nextRecord.resourceKind ≠ executionKind) .integrity
  let stored ← orRaise (store.idempotencyAt (scope, idempotencyKeyDigest)) .conflict
  refuse (stored.value.status ≠ expectedStatus) .conflict
  let store ← store.replaceIdempotency nextRecord stored.storageRevision
  return (nextRecord, store)

def claimNextAgentRun (tenantId executionId : String) (expectedRevision expectedAgentRunSeq : Nat)
    (producerClaimId : Option String) (recovery : Option ExecutionRecoveryDetail) (now : Time) :
    Except Raised (ExecutionRecord × ExecutionStore) := do
  repo.requireTenant tenantId
  let stored ← store.loadExecution executionId (.ai .storageNotFound)
  let current := stored.value
  refuse (current.status ≠ .started ∨ current.revision ≠ expectedRevision ∨
    current.agentRunSeq ≠ expectedAgentRunSeq ∨
    current.revision + 1 ≤ current.producerGeneration) .conflict
  let next ← build { current.toExecutionFields with
    agentRunSeq := current.agentRunSeq + 1
    recovery := recovery.or current.recovery
    producerGeneration := current.revision + 1
    producerClaimId
    revision := current.revision + 1
    updatedAt := now }
  let store ← store.replaceChecked next stored.storageRevision
  return (next, store)

/-- The record and storage revision that a claim works on: the receipt if there is one. -/
def observedOrStored (executionId : String) (observed : Option (Observed ExecutionRecord))
    (missing : Raised) : Except Raised (Observed ExecutionRecord) :=
  match observed with
  | none => store.loadExecution executionId missing
  | some receipt => do
    refuse (receipt.value.executionId ≠ executionId) .conflict
    return receipt

def claimPreparedAgentRun (tenantId executionId : String)
    (expectedRevision expectedAgentRunSeq : Nat) (inputContext producerClaimId : String)
    (recovery : Option ExecutionRecoveryDetail) (observed : Option (Observed ExecutionRecord))
    (now : Time) : Except Raised (ExecutionRecord × ExecutionStore) := do
  repo.requireTenant tenantId
  let stored ← observedOrStored store executionId observed (.ai .storageNotFound)
  let current := stored.value
  refuse (current.status ≠ .started ∨ current.revision ≠ expectedRevision ∨
    current.agentRunSeq ≠ expectedAgentRunSeq ∨ expectedAgentRunSeq ≠ 0 ∨
    current.inputContext ≠ none ∨ current.revision + 1 ≤ current.producerGeneration) .conflict
  let admitted ← build { current.toExecutionFields with
    agentRunSeq := 1
    revision := current.revision + 1
    producerGeneration := current.revision + 1
    producerClaimId := some producerClaimId
    updatedAt := now
    recovery := recovery.or current.recovery }
  let final ← build { admitted.toExecutionFields with
    inputContext := some inputContext
    revision := admitted.revision + 1 }
  let store ← store.replaceChecked final stored.storageRevision
  return (final, store)

def claimDeferredResume (tenantId executionId : String)
    (expectedRevision expectedEventSeq expectedAgentRunSeq : Nat) (producerClaimId : Option String)
    (recovery : Option ExecutionRecoveryDetail) (now : Time) :
    Except Raised (ExecutionRecord × ExecutionStore) := do
  repo.requireTenant tenantId
  let stored ← store.loadExecution executionId (.ai .storageNotFound)
  let current := stored.value
  refuse (current.status ≠ .waitingDeferred ∨ current.revision ≠ expectedRevision ∨
    current.eventSeq ≠ expectedEventSeq ∨ current.agentRunSeq ≠ expectedAgentRunSeq ∨
    current.revision + 1 ≤ current.producerGeneration) .conflict
  let next ← build { current.toExecutionFields with
    status := .started
    agentRunSeq := current.agentRunSeq + 1
    recovery := recovery.or current.recovery
    producerGeneration := current.revision + 1
    producerClaimId
    revision := current.revision + 1
    updatedAt := now }
  let store ← store.replaceChecked next stored.storageRevision
  return (next, store)

structure TaskState where
  task : TaskAttempt
  errorCode : Option String
  safeErrorDetails : Payload

structure ExecutionTransition where
  executionId : String
  expectedRevision : Nat
  expectedEventSeq : Nat
  nextStatus : ExecutionStatus
  expectedStatus : Option ExecutionStatus := none
  eventType : String
  payload : Payload
  updatedAt : Time
  pendingEvents : List ExecutionEventAppend := []
  taskState : Option TaskState := none
  recovery : Option ExecutionRecoveryDetail := none

def applyTaskState (current : ExecutionRecord) : Option TaskState → Except Raised ExecutionFields
  | none => .ok current.toExecutionFields
  | some update => do
    refuse (current.binding.isAgent = true) .integrity
    return { current.toExecutionFields with
      task := update.task
      errorCode := update.errorCode
      safeErrorDetails := update.safeErrorDetails }

def transitionExecution (tenantId : String) (transition : ExecutionTransition) :
    Except Raised (ExecutionRecord × ExecutionStore) := do
  repo.requireTenant tenantId
  let stored ← store.loadExecution transition.executionId .conflict
  let current := stored.value
  refuse (current.revision ≠ transition.expectedRevision ∨
    current.eventSeq ≠ transition.expectedEventSeq ∨
    transition.expectedStatus.any (current.status ≠ ·)) .conflict
  let eventCount := transition.pendingEvents.length + 1
  let updated ← applyTaskState current transition.taskState
  let next ← build { updated with
    status := transition.nextStatus
    recovery := transition.recovery.or current.recovery
    revision := current.revision + eventCount
    eventSeq := current.eventSeq + eventCount
    updatedAt := transition.updatedAt }
  let store ← store.replaceChecked next stored.storageRevision
  let store ← store.insertFacts transition.executionId
    (eventFacts (current.eventSeq + 1) transition.pendingEvents ++
      [⟨next.eventSeq, transition.eventType, transition.payload⟩])
  return (next, store)

def enterDeferredWait (tenantId executionId : String)
    (expectedRevision expectedEventSeq expectedAgentRunSeq : Nat)
    (auditEvents deferredEvents : List ExecutionEventAppend) (occurredAt : Time)
    (recovery : Option ExecutionRecoveryDetail) :
    Except Raised (ExecutionRecord × ExecutionStore) := do
  refuse (deferredEvents = [] ∨ ∃ event ∈ deferredEvents,
    event.eventType ≠ ExecutionEventType.approvalRequested.value ∧
      event.eventType ≠ ExecutionEventType.externalRequested.value)
    (.valueError "deferred wait requires deferred events")
  repo.requireTenant tenantId
  let stored ← store.loadExecution executionId .conflict
  refuse (stored.value.status ≠ .started ∨ stored.value.revision ≠ expectedRevision ∨
    stored.value.eventSeq ≠ expectedEventSeq ∨
    stored.value.agentRunSeq ≠ expectedAgentRunSeq) .conflict
  let last ← orRaise deferredEvents.getLast? .conflict
  let (updated, store) ← repo.transitionExecution store tenantId
    { executionId, expectedRevision, expectedEventSeq
      expectedStatus := some .started
      nextStatus := .waitingDeferred
      pendingEvents := auditEvents ++ deferredEvents.dropLast
      eventType := last.eventType
      payload := last.payload
      updatedAt := occurredAt
      recovery }
  refuse (updated.agentRunSeq ≠ expectedAgentRunSeq) .integrity
  return (updated, store)

def transitionTaskExecution (tenantId executionId : String)
    (expectedRevision expectedEventSeq : Nat) (expectedStatus nextStatus : ExecutionStatus)
    (taskState : TaskState) (event : ExecutionEventAppend) (occurredAt : Time) :
    Except Raised (ExecutionRecord × ExecutionStore) :=
  repo.transitionExecution store tenantId
    { executionId, expectedRevision, expectedEventSeq
      expectedStatus := some expectedStatus
      nextStatus
      eventType := event.eventType
      payload := event.payload
      updatedAt := occurredAt
      taskState := some taskState }

def markStartUnknown (commit : ExecutionStartUnknownCommit) :
    Except Raised (ExecutionRecord × ExecutionStore) :=
  repo.transitionExecution store repo.tenantId
    { executionId := commit.executionId
      expectedRevision := commit.expectedRevision
      expectedEventSeq := commit.expectedEventSeq
      nextStatus := .startUnknown
      eventType := ExecutionEventType.executionStartUnknown.value
      payload := []
      updatedAt := commit.occurredAt }

def requestCancel (commit : ExecutionCancelRequestCommit)
    (expectedStatus : Option ExecutionStatus := none)
    (pendingEvents : List ExecutionEventAppend := [])
    (recovery : Option ExecutionRecoveryDetail := none) :
    Except Raised (ExecutionRecord × ExecutionStore) :=
  repo.transitionExecution store repo.tenantId
    { executionId := commit.executionId
      expectedRevision := commit.expectedRevision
      expectedEventSeq := commit.expectedEventSeq
      expectedStatus
      nextStatus := .cancelling
      eventType := ExecutionEventType.cancelRequested.value
      payload := [("operation_id", commit.operationId)]
      updatedAt := commit.requestedAt
      pendingEvents
      recovery }

/-- `admitted` is what admitting the operation's receipt does in the same transaction. -/
def recordRecoveryCancel (execution : ExecutionRecord) (operationId : String)
    (admitted : Except Raised OperationLedgerRecord) (now : Time) :
    Except Raised (OperationLedgerRecord × ExecutionStore) := do
  let stored ← store.loadExecution execution.executionId (.ai .storageNotFound)
  let current := stored.value
  refuse (current.status ≠ .recoveryRequired ∨ current.revision ≠ execution.revision ∨
    current.eventSeq ≠ execution.eventSeq) .conflict
  let operation ← admitted
  let updated ← build { current.toExecutionFields with
    revision := current.revision + 1
    eventSeq := current.eventSeq + 1
    updatedAt := now }
  let store ← store.replaceChecked updated stored.storageRevision
  let store ← store.insertFacts execution.executionId
    [⟨updated.eventSeq, ExecutionEventType.cancelRequested.value, [("operation_id", operationId)]⟩]
  return (operation, store)

structure RecoveryTransition where
  nextStatus : ExecutionStatus
  eventType : ExecutionEventType
  eventPayload : Payload
  nextErrorCode : Option String
  nextSafeErrorDetails : Payload
  auditEvents : List ExecutionEventAppend := []
  producerGeneration : Option Nat := none
  agentRunSeq : Option Nat := none
  recovery : Option ExecutionRecoveryDetail := none

namespace RecoveryTransition

variable (transition : RecoveryTransition)

def events : List ExecutionEventAppend :=
  transition.auditEvents ++ [⟨transition.eventType.value, transition.eventPayload⟩]

def resumes : Prop := transition.eventType = .executionResumed

instance : Decidable transition.resumes := by
  unfold resumes
  infer_instance

end RecoveryTransition

def transitionRecovery (execution : ExecutionRecord) (transition : RecoveryTransition)
    (now : Time) : Except Raised (ExecutionRecord × ExecutionStore) := do
  let events := transition.events
  let store ← requireNamedProducer store execution.executionId transition.producerGeneration
  let stored ← store.loadExecution execution.executionId (.ai .storageNotFound)
  let current := stored.value
  refuse (current.revision ≠ execution.revision ∨ current.eventSeq ≠ execution.eventSeq ∨
    current.status ≠ execution.status) .conflict
  refuse (transition.agentRunSeq.any fun sequence =>
    ¬transition.resumes ∨ sequence ≠ current.agentRunSeq + 1) .conflict
  refuse (transition.resumes ∧
    execution.revision + events.length ≤ current.producerGeneration) .conflict
  let updated ← build { current.toExecutionFields with
    status := transition.nextStatus
    producerGeneration :=
      if transition.resumes then execution.revision + events.length
      else current.producerGeneration
    producerClaimId :=
      if transition.resumes then transition.eventPayload.lookup "producer_claim_id"
      else current.producerClaimId
    agentRunSeq := transition.agentRunSeq.getD current.agentRunSeq
    recovery := transition.recovery.or current.recovery
    revision := execution.revision + events.length
    eventSeq := execution.eventSeq + events.length
    errorCode := transition.nextErrorCode
    safeErrorDetails := transition.nextSafeErrorDetails
    errorDiagnostics := none
    updatedAt := now }
  let store ← store.replaceChecked updated stored.storageRevision
  let store ← store.insertFacts execution.executionId (eventFacts (execution.eventSeq + 1) events)
  return (updated, store)

def appendMany (tenantId executionId : String) (events : List ExecutionEventAppend)
    (expectedEventSeq : Option Nat) (now : Time) :
    Except Raised (List ExecutionEventRecord × ExecutionStore) := do
  repo.requireTenant tenantId
  if events = [] then return ([], store)
  else do
    let stored ← store.loadExecution executionId (.ai .storageNotFound)
    let execution := stored.value
    refuse (expectedEventSeq.any (execution.eventSeq ≠ ·)) .conflict
    let next ← build { execution.toExecutionFields with
      eventSeq := execution.eventSeq + events.length
      revision := execution.revision + events.length
      updatedAt := now }
    let store ← store.replaceChecked next stored.storageRevision
    let facts := eventFacts (execution.eventSeq + 1) events
    let store ← store.insertFacts executionId facts
    return (facts, store)

def sortedHolds (holds : List String) : List String :=
  holds.insertionSort (· ≤ ·)

def acquireDependencyHold (tenantId executionId holdId : String) (now : Time) :
    Except Raised (Bool × ExecutionStore) := do
  repo.requireTenant tenantId
  refuse (blank holdId = true) (.ai .requestFieldInvalid)
  let stored ← store.loadExecution executionId (.ai .storageNotFound)
  let current := stored.value
  refuse (current.retentionClosed = true) .conflict
  if holdId ∈ current.dependencyHoldIds then return (false, store)
  else do
    let next ← build { current.toExecutionFields with
      dependencyHoldIds := sortedHolds (current.dependencyHoldIds ++ [holdId])
      revision := current.revision + 1
      updatedAt := now }
    let store ← store.replaceChecked next stored.storageRevision
    return (true, store)

def releaseDependencyHold (tenantId executionId holdId : String) (now : Time) :
    Except Raised (ExecutionRecord × ExecutionStore) := do
  repo.requireTenant tenantId
  refuse (blank holdId = true) (.ai .requestFieldInvalid)
  let stored ← store.loadExecution executionId (.ai .storageNotFound)
  let current := stored.value
  if holdId ∉ current.dependencyHoldIds then return (current, store)
  else do
    let next ← build { current.toExecutionFields with
      dependencyHoldIds := current.dependencyHoldIds.filter (· ≠ holdId)
      revision := current.revision + 1
      updatedAt := now }
    let store ← store.replaceChecked next stored.storageRevision
    return (next, store)

/-- The record that a closing works on, none if there is nothing left to close. -/
def retentionSource (executionId : String) (observed : Option (Observed ExecutionRecord)) :
    Except Raised (Option (Observed ExecutionRecord)) :=
  match observed, store.executions executionId with
  | none, none => .ok none
  | _, _ => some <$> observedOrStored store executionId observed .integrity

def closeRetention (tenantId executionId : String)
    (observed : Option (Observed ExecutionRecord)) (now : Time) :
    Except Raised ((Bool × Option ExecutionRecord) × ExecutionStore) := do
  repo.requireTenant tenantId
  match ← retentionSource store executionId observed with
  | none => return ((true, none), store)
  | some stored =>
    let current := stored.value
    if ¬TerminalStatus current.status ∨ current.dependencyHoldIds ≠ [] ∨
        current.recoveryState = some .handoff then return ((false, some current), store)
    else if current.retentionClosed = true then return ((true, some current), store)
    else do
      let next ← build { current.toExecutionFields with
        retentionClosed := true
        revision := current.revision + 1
        updatedAt := now }
      let store ← store.replaceChecked next stored.storageRevision
      return ((true, some next), store)

end ExecutionRepository

end Linktools.Execution
