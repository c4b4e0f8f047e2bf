import Linktools.Execution.Terminal
import Linktools.Library.Machine

namespace Linktools.Execution

open Linktools.Core Library Persistence ExecutionRepository Function

/-! The calls on executions as one type of labels, and the system that takes them one by one and
keeps its past stores for the receipts of the callers. -/

inductive ExecutionCall
  | createExecution (execution : ExecutionRecord)
  | compareAndSwap (tenantId executionId : String) (expectedRevision : Nat)
      (nextRecord : ExecutionRecord)
  | commitBoundary (observed : Observed ExecutionRecord) (nextRecord : ExecutionRecord)
      (expectedProducerGeneration : Nat) (expectedProducerClaimId : String)
  | requireExecutionProducer (executionId : String) (expectedProducerGeneration : Nat)
      (allowCancelling : Bool)
  | requireExecutionHistoryWrite (executionId : String)
  | guardRecovery (execution : ExecutionRecord)
  | reserveStart (reservation : ExecutionStartReservation)
      (contextPublished : Option (Except Raised Unit))
  | claimStart (claim : ExecutionStartClaim)
  | compareAndSwapIdempotency (tenantId scope idempotencyKeyDigest : String)
      (expectedStatus : IdempotencyStatus) (nextRecord : IdempotencyRecord)
  | claimNextAgentRun (tenantId executionId : String) (expectedRevision expectedAgentRunSeq : Nat)
      (producerClaimId : Option String) (recovery : Option ExecutionRecoveryDetail)
  | claimPreparedAgentRun (tenantId executionId : String)
      (expectedRevision expectedAgentRunSeq : Nat) (inputContext producerClaimId : String)
      (recovery : Option ExecutionRecoveryDetail) (observed : Option (Observed ExecutionRecord))
  | claimDeferredResume (tenantId executionId : String)
      (expectedRevision expectedEventSeq expectedAgentRunSeq : Nat)
      (producerClaimId : Option String) (recovery : Option ExecutionRecoveryDetail)
  | enterDeferredWait (tenantId executionId : String)
      (expectedRevision expectedEventSeq expectedAgentRunSeq : Nat)
      (auditEvents deferredEvents : List ExecutionEventAppend) (occurredAt : Time)
      (recovery : Option ExecutionRecoveryDetail)
  | transitionTaskExecution (tenantId executionId : String)
      (expectedRevision expectedEventSeq : Nat) (expectedStatus nextStatus : ExecutionStatus)
      (taskState : TaskState) (event : ExecutionEventAppend) (occurredAt : Time)
  | markStartUnknown (commit : ExecutionStartUnknownCommit)
  | requestCancel (commit : ExecutionCancelRequestCommit) (expectedStatus : Option ExecutionStatus)
      (pendingEvents : List ExecutionEventAppend) (recovery : Option ExecutionRecoveryDetail)
  | recordRecoveryCancel (execution : ExecutionRecord) (operationId : String)
      (admitted : Except Raised OperationLedgerRecord)
  | transitionRecovery (execution : ExecutionRecord) (transition : RecoveryTransition)
  | appendMany (tenantId executionId : String) (events : List ExecutionEventAppend)
      (expectedEventSeq : Option Nat)
  | acquireDependencyHold (tenantId executionId holdId : String)
  | releaseDependencyHold (tenantId executionId holdId : String)
  | closeRetention (tenantId executionId : String) (observed : Option (Observed ExecutionRecord))
  | commitTerminal (commit : ExecutionTerminalCommit) (pendingEvents : List ExecutionEventAppend)
  | commitClosedTerminal (commit : ExecutionTerminalCommit)
      (pendingEvents : List ExecutionEventAppend)
  | commitTerminalCheckpoint (publication : TerminalPublication)
  | insertPendingTurn (reservation : ExecutionStartReservation) (commit : ExecutionTerminalCommit)
      (auditEvents : List ExecutionEventAppend)
  | commitCancelCheckpoint (commit : ExecutionCancelRequestCommit)
      (expectedStatus : ExecutionStatus) (auditEvents : List ExecutionEventAppend)
      (producerGeneration : Option Nat)
  | commitRecoveryHandoff (checkpoint : ExecutionRecord) (expectedRevision producerGeneration : Nat)

def committed {answer : Type} (outcome : Except Raised (answer × ExecutionStore)) :
    Except Raised ExecutionStore :=
  outcome.map Prod.snd

theorem committed_eq_ok {answer : Type} {outcome : Except Raised (answer × ExecutionStore)}
    {after : ExecutionStore} :
    committed outcome = .ok after ↔ ∃ value, outcome = .ok (value, after) := by
  change Prod.snd <$> outcome = .ok after ↔ _
  simp only [map_eq_ok, Prod.exists, exists_eq_right]

namespace ExecutionCall

def run (repo : ExecutionRepository) (store : ExecutionStore) (now : Time) :
    ExecutionCall → Except Raised ExecutionStore
  | .createExecution execution => committed (ExecutionRepository.createExecution store execution)
  | .compareAndSwap tenantId executionId expectedRevision nextRecord =>
    committed (repo.compareAndSwap store tenantId executionId expectedRevision nextRecord)
  | .commitBoundary observed nextRecord generation claimId =>
    committed (ExecutionRepository.commitBoundary store observed nextRecord generation claimId)
  | .requireExecutionProducer executionId generation allowCancelling =>
    committed (ExecutionRepository.requireExecutionProducer store executionId generation
    allowCancelling)
  | .requireExecutionHistoryWrite executionId =>
    committed (ExecutionRepository.requireExecutionHistoryWrite store executionId)
  | .guardRecovery execution => ExecutionRepository.guardRecovery store execution
  | .reserveStart reservation contextPublished =>
    committed (ExecutionRepository.reserveStart store reservation contextPublished)
  | .claimStart claim => committed (ExecutionRepository.claimStart store claim)
  | .compareAndSwapIdempotency tenantId scope digest expectedStatus nextRecord =>
    committed (repo.compareAndSwapIdempotency store tenantId scope digest expectedStatus
      nextRecord)
  | .claimNextAgentRun tenantId executionId revision agentRunSeq claimId recovery =>
    committed (repo.claimNextAgentRun store tenantId executionId revision agentRunSeq
      claimId recovery now)
  | .claimPreparedAgentRun tenantId executionId revision agentRunSeq context claimId recovery
      observed =>
      committed (repo.claimPreparedAgentRun store tenantId executionId revision agentRunSeq
        context claimId recovery observed now)
  | .claimDeferredResume tenantId executionId revision eventSeq agentRunSeq claimId recovery =>
    committed (repo.claimDeferredResume store tenantId executionId revision eventSeq
      agentRunSeq claimId recovery now)
  | .enterDeferredWait tenantId executionId revision eventSeq agentRunSeq audit deferred
      occurredAt recovery =>
      committed (repo.enterDeferredWait store tenantId executionId revision eventSeq
        agentRunSeq audit deferred occurredAt recovery)
  | .transitionTaskExecution tenantId executionId revision eventSeq expectedStatus nextStatus
      taskState event occurredAt =>
      committed (repo.transitionTaskExecution store tenantId executionId revision eventSeq
        expectedStatus nextStatus taskState event occurredAt)
  | .markStartUnknown commit => committed (repo.markStartUnknown store commit)
  | .requestCancel commit expectedStatus pendingEvents recovery =>
    committed (repo.requestCancel store commit expectedStatus pendingEvents recovery)
  | .recordRecoveryCancel execution operationId admitted =>
    committed (ExecutionRepository.recordRecoveryCancel store execution operationId admitted now)
  | .transitionRecovery execution transition =>
    committed (ExecutionRepository.transitionRecovery store execution transition now)
  | .appendMany tenantId executionId events expectedEventSeq =>
    committed (repo.appendMany store tenantId executionId events expectedEventSeq now)
  | .acquireDependencyHold tenantId executionId holdId =>
    committed (repo.acquireDependencyHold store tenantId executionId holdId now)
  | .releaseDependencyHold tenantId executionId holdId =>
    committed (repo.releaseDependencyHold store tenantId executionId holdId now)
  | .closeRetention tenantId executionId observed =>
    committed (repo.closeRetention store tenantId executionId observed now)
  | .commitTerminal commit pendingEvents =>
    committed (ExecutionRepository.commitTerminal store commit pendingEvents now)
  | .commitClosedTerminal commit pendingEvents =>
    committed (ExecutionRepository.commitClosedTerminal store commit pendingEvents now)
  | .commitTerminalCheckpoint publication =>
    committed (ExecutionRepository.commitTerminalCheckpoint store publication now)
  | .insertPendingTurn reservation commit auditEvents =>
    committed (ExecutionRepository.insertPendingTurn store reservation commit auditEvents now)
  | .commitCancelCheckpoint commit expectedStatus auditEvents generation =>
    committed (repo.commitCancelCheckpoint store commit expectedStatus auditEvents
      generation)
  | .commitRecoveryHandoff checkpoint expectedRevision generation =>
    committed (repo.commitRecoveryHandoff store checkpoint expectedRevision generation)

def target : ExecutionCall → String
  | .createExecution execution => execution.executionId
  | .compareAndSwap _ executionId _ _ => executionId
  | .commitBoundary _ nextRecord _ _ => nextRecord.executionId
  | .requireExecutionProducer executionId _ _ => executionId
  | .requireExecutionHistoryWrite executionId => executionId
  | .guardRecovery execution => execution.executionId
  | .reserveStart reservation _ => reservation.execution.executionId
  | .claimStart claim => claim.executionId
  | .compareAndSwapIdempotency _ _ _ _ nextRecord => nextRecord.resourceId
  | .claimNextAgentRun _ executionId _ _ _ _ => executionId
  | .claimPreparedAgentRun _ executionId _ _ _ _ _ _ => executionId
  | .claimDeferredResume _ executionId _ _ _ _ _ => executionId
  | .enterDeferredWait _ executionId _ _ _ _ _ _ _ => executionId
  | .transitionTaskExecution _ executionId _ _ _ _ _ _ _ => executionId
  | .markStartUnknown commit => commit.executionId
  | .requestCancel commit _ _ _ => commit.executionId
  | .recordRecoveryCancel execution _ _ => execution.executionId
  | .transitionRecovery execution _ => execution.executionId
  | .appendMany _ executionId _ _ => executionId
  | .acquireDependencyHold _ executionId _ => executionId
  | .releaseDependencyHold _ executionId _ => executionId
  | .closeRetention _ executionId _ => executionId
  | .commitTerminal commit _ => commit.execution.executionId
  | .commitClosedTerminal commit _ => commit.execution.executionId
  | .commitTerminalCheckpoint publication => publication.commit.execution.executionId
  | .insertPendingTurn reservation _ _ => reservation.execution.executionId
  | .commitCancelCheckpoint commit _ _ _ => commit.executionId
  | .commitRecoveryHandoff checkpoint _ _ => checkpoint.executionId

def terminalEvent (commit : ExecutionTerminalCommit) : ExecutionEventAppend :=
  ⟨commit.terminalEventType.value, commit.terminalEventPayload⟩

def cancelEvent (operationId : String) : ExecutionEventAppend :=
  ⟨ExecutionEventType.cancelRequested.value, [("operation_id", operationId)]⟩

def events : ExecutionCall → List ExecutionEventAppend
  | .claimStart _ => [⟨ExecutionEventType.executionStarted.value, []⟩]
  | .enterDeferredWait _ _ _ _ _ audit deferred _ _ => audit ++ deferred
  | .transitionTaskExecution _ _ _ _ _ _ _ event _ => [event]
  | .markStartUnknown _ => [⟨ExecutionEventType.executionStartUnknown.value, []⟩]
  | .requestCancel commit _ pendingEvents _ => pendingEvents ++ [cancelEvent commit.operationId]
  | .recordRecoveryCancel _ operationId _ => [cancelEvent operationId]
  | .transitionRecovery _ transition => transition.events
  | .appendMany _ _ events _ => events
  | .commitTerminal commit pendingEvents => pendingEvents ++ [terminalEvent commit]
  | .commitClosedTerminal commit pendingEvents => pendingEvents ++ [terminalEvent commit]
  | .commitTerminalCheckpoint publication =>
    publication.auditEvents ++ [terminalEvent publication.commit]
  | .insertPendingTurn _ commit auditEvents => pendingTurnEvents commit auditEvents
  | .commitCancelCheckpoint commit _ auditEvents _ =>
    auditEvents ++ [cancelEvent commit.operationId]
  | _ => []

end ExecutionCall

structure ExecutionSystem where
  store : ExecutionStore := {}
  past : List ExecutionStore := []

namespace ExecutionSystem

def respond (repo : ExecutionRepository) (system : ExecutionSystem) (now : Time)
    (call : ExecutionCall) : ExecutionSystem :=
  match call.run repo system.store now with
  | .ok store => ⟨store, system.store :: system.past⟩
  | .error _ => system

def Witnessed (system : ExecutionSystem) (row : Observed ExecutionRecord) : Prop :=
  ∃ store ∈ system.store :: system.past, store.executions row.value.executionId = some row

end ExecutionSystem

def executionMachine (repo : ExecutionRepository) :
    Machine ExecutionSystem (ExecutionCall × Time) where
  initial system := system = {}
  step first label last := last = first.respond repo label.2 label.1

structure NewExecution (record : ExecutionRecord) : Prop where
  status : record.status = .pendingStart
  revision : record.revision = 0
  eventSeq : record.eventSeq = 0
  producerGeneration : record.producerGeneration = 0
  errorCode : record.errorCode = none
  result : record.result = none
  historySealDigest : record.historySealDigest = none
  dependencyHoldIds : record.dependencyHoldIds = []
  retentionClosed : record.retentionClosed = false
  recovery : record.recoveryState ≠ some .handoff

/-- A record that its caller derives from a snapshot for a compare-and-swap. -/
structure SnapshotUpdate (current next : ExecutionRecord) : Prop where
  fields : next.toExecutionFields = { current.toExecutionFields with
    status := next.status
    recovery := next.recovery
    inputContext := next.inputContext
    updatedAt := next.updatedAt
    revision := current.revision + 1 }
  status : next.status = current.status ∨ current.status = .started ∧ next.status = .finalizing ∨
    current.status = .recoveryRequired ∧ next.status = .cancelling
  handoff : TerminalStatus current.status → next.recoveryState = some .handoff →
    current.recoveryState = some .handoff

structure TerminalRecord (current final : ExecutionRecord) : Prop where
  fields : final.toExecutionFields = { current.toExecutionFields with
    status := final.status
    profile := final.profile
    recovery := final.recovery
    errorCode := final.errorCode
    safeErrorDetails := final.safeErrorDetails
    errorDiagnostics := final.errorDiagnostics
    updatedAt := final.updatedAt
    historySealDigest := final.historySealDigest
    revision := final.revision
    eventSeq := final.eventSeq }
  handoff : final.recoveryState = some .handoff → current.recoveryState = some .handoff

/-- The commit that is published says what the caller's commit says. -/
structure SamePublication (commit published : ExecutionTerminalCommit) : Prop where
  executionId : published.execution.executionId = commit.execution.executionId
  status : published.execution.status = commit.execution.status
  errorCode : published.execution.errorCode = commit.execution.errorCode
  durableTrace : published.execution.durableTrace = commit.execution.durableTrace
  generation : published.execution.producerGeneration = commit.execution.producerGeneration
  result : published.result = commit.result
  event : ExecutionCall.terminalEvent published = ExecutionCall.terminalEvent commit
  expectedEventSeq : published.expectedEventSeq = commit.expectedEventSeq
  producer : published.producerGeneration = commit.producerGeneration

theorem SamePublication.trans (left : SamePublication commit middle)
    (right : SamePublication middle published) : SamePublication commit published :=
  ⟨right.executionId.trans left.executionId, right.status.trans left.status,
    right.errorCode.trans left.errorCode, right.durableTrace.trans left.durableTrace,
    right.generation.trans left.generation, right.result.trans left.result,
    right.event.trans left.event, right.expectedEventSeq.trans left.expectedEventSeq,
    right.producer.trans left.producer⟩

namespace ExecutionCall

def Expects (record : ExecutionRecord) : ExecutionCall → Prop
  | .enterDeferredWait _ _ revision eventSeq _ _ _ _ _ =>
    record.revision = revision ∧ record.eventSeq = eventSeq ∧ record.status = .started
  | .transitionTaskExecution _ _ revision eventSeq expectedStatus _ _ _ _ =>
    record.revision = revision ∧ record.eventSeq = eventSeq ∧ record.status = expectedStatus
  | .markStartUnknown commit =>
    record.revision = commit.expectedRevision ∧ record.eventSeq = commit.expectedEventSeq
  | .requestCancel commit expectedStatus _ _ =>
    record.revision = commit.expectedRevision ∧ record.eventSeq = commit.expectedEventSeq ∧
      ∀ status ∈ expectedStatus, record.status = status
  | .commitCancelCheckpoint commit _ _ generation =>
    record.revision = commit.expectedRevision ∧ record.eventSeq = commit.expectedEventSeq ∧
      (generation.isSome → PublishingStatus true record.status)
  | .transitionRecovery execution transition =>
    record.revision = execution.revision ∧ record.eventSeq = execution.eventSeq ∧
      record.status = execution.status ∧
      (transition.producerGeneration.isSome → PublishingStatus true record.status)
  | .commitTerminal commit _ =>
    record.revision = commit.expectedRevision ∧ record.eventSeq = commit.expectedEventSeq
  | .commitClosedTerminal commit _ =>
    record.revision = commit.expectedRevision ∧ record.eventSeq = commit.expectedEventSeq
  | .commitTerminalCheckpoint publication =>
    record.eventSeq = publication.commit.expectedEventSeq ∧ (publication.expectedExecution = none →
        record.revision = publication.commit.expectedRevision) ∧
      (∀ expected ∈ publication.expectedExecution,
        SameExecutionExceptHoldMetadata record expected) ∧
      (publication.commit.execution.durableTrace = true ∨ publication.executionRun = true →
        ¬TerminalStatus record.status)
  | _ => False

def Moves (status : ExecutionStatus) : ExecutionCall → Prop
  | .enterDeferredWait _ _ _ _ _ _ _ _ _ => status = .waitingDeferred
  | .transitionTaskExecution _ _ _ _ _ nextStatus _ _ _ => status = nextStatus
  | .markStartUnknown _ => status = .startUnknown
  | .requestCancel _ _ _ _ => status = .cancelling
  | .commitCancelCheckpoint _ _ _ _ => status = .cancelling
  | .transitionRecovery _ transition => status = transition.nextStatus
  | _ => False

def Ends (published : ExecutionTerminalCommit) : ExecutionCall → Prop
  | .commitTerminal commit _ => published = commit
  | .commitClosedTerminal commit _ => published = commit
  | .commitTerminalCheckpoint publication => SamePublication publication.commit published
  | _ => False

end ExecutionCall

section

variable (call : ExecutionCall) (current next : ExecutionRecord)

inductive Update : List ExecutionEventAppend → Prop
  | started (startedAt : Time) (pending : current.status = .pendingStart)
      (fields : next.toExecutionFields = { current.toExecutionFields with
        status := .started
        revision := current.revision + 1
        eventSeq := current.eventSeq + 1
        updatedAt := startedAt
        startedAt := current.startedAt.or (some startedAt)
        recovery := current.recovery.or (if current.binding.isAgent then some {} else none) }) :
      Update [⟨ExecutionEventType.executionStarted.value, []⟩]
  | claimed (producerClaimId inputContext : Option String)
      (recovery : Option ExecutionRecoveryDetail) (further : Nat) (now : Time)
      (running : current.status = .started ∨ current.status = .waitingDeferred)
      (behind : current.producerGeneration < current.revision + 1)
      (fields : next.toExecutionFields = { current.toExecutionFields with
        status := .started
        agentRunSeq := current.agentRunSeq + 1
        recovery := recovery.or current.recovery
        producerGeneration := current.revision + 1
        producerClaimId
        inputContext
        revision := current.revision + 1 + further
        updatedAt := now }) : Update []
  | transitioned (transition : ExecutionTransition) (expects : call.Expects current)
      (moves : call.Moves transition.nextStatus)
      (fields : next.toExecutionFields = { current.toExecutionFields with
        status := transition.nextStatus
        recovery := transition.recovery.or current.recovery
        task := next.task
        errorCode := next.errorCode
        safeErrorDetails := next.safeErrorDetails
        revision := current.revision + (transition.pendingEvents.length + 1)
        eventSeq := current.eventSeq + (transition.pendingEvents.length + 1)
        updatedAt := transition.updatedAt }) : Update
        (transition.pendingEvents ++ [⟨transition.eventType, transition.payload⟩])
  | cancelRecorded (operationId : String) (now : Time)
      (waiting : current.status = .recoveryRequired)
      (fields : next.toExecutionFields = { current.toExecutionFields with
        revision := current.revision + 1
        eventSeq := current.eventSeq + 1
        updatedAt := now }) : Update [ExecutionCall.cancelEvent operationId]
  | recovered (transition : RecoveryTransition) (now : Time) (expects : call.Expects current)
      (moves : call.Moves transition.nextStatus) (behind : transition.resumes →
        current.producerGeneration < current.revision + transition.events.length)
      (fields : next.toExecutionFields = { current.toExecutionFields with
        status := transition.nextStatus
        producerGeneration :=
          if transition.resumes then current.revision + transition.events.length
          else current.producerGeneration
        producerClaimId :=
          if transition.resumes then transition.eventPayload.lookup "producer_claim_id"
          else current.producerClaimId
        agentRunSeq := transition.agentRunSeq.getD current.agentRunSeq
        recovery := transition.recovery.or current.recovery
        revision := current.revision + transition.events.length
        eventSeq := current.eventSeq + transition.events.length
        errorCode := transition.nextErrorCode
        safeErrorDetails := transition.nextSafeErrorDetails
        errorDiagnostics := none
        updatedAt := now }) : Update transition.events
  | appended (events : List ExecutionEventAppend) (now : Time) (some : events ≠ [])
      (fields : next.toExecutionFields = { current.toExecutionFields with
        eventSeq := current.eventSeq + events.length
        revision := current.revision + events.length
        updatedAt := now }) : Update events
  | held (holdId : String) (now : Time) (retained : current.retentionClosed = false)
      (fields : next.toExecutionFields = { current.toExecutionFields with
        dependencyHoldIds := sortedHolds (current.dependencyHoldIds ++ [holdId])
        revision := current.revision + 1
        updatedAt := now }) : Update []
  | released (holdId : String) (now : Time)
      (fields : next.toExecutionFields = { current.toExecutionFields with
        dependencyHoldIds := current.dependencyHoldIds.filter (· ≠ holdId)
        revision := current.revision + 1
        updatedAt := now }) : Update []
  | closed (now : Time) (terminal : TerminalStatus current.status)
      (unheld : current.dependencyHoldIds = []) (settled : current.recoveryState ≠ some .handoff)
      (fields : next.toExecutionFields = { current.toExecutionFields with
        retentionClosed := true
        revision := current.revision + 1
        updatedAt := now }) : Update []
  | swapped (update : SnapshotUpdate current next) : Update []
  | ended (commit : ExecutionTerminalCommit) (pendingEvents : List ExecutionEventAppend)
      (expects : call.Expects current) (ends : call.Ends commit)
      (handoff : next.recoveryState = some .handoff → current.recoveryState = some .handoff)
      (fields : next.toExecutionFields = { current.toExecutionFields with
        status := commit.execution.status
        profile := next.profile
        recovery := next.recovery
        errorCode := commit.execution.errorCode
        safeErrorDetails := commit.execution.safeErrorDetails
        errorDiagnostics := commit.execution.errorDiagnostics
        updatedAt := next.updatedAt
        historySealDigest := next.historySealDigest
        revision := current.revision + pendingEvents.length + 1
        eventSeq := current.eventSeq + pendingEvents.length + 1
        result := some commit.result }) :
      Update (pendingEvents ++ [ExecutionCall.terminalEvent commit])

end

/-- The turn's record is the one that its producer has kept in memory. -/
structure PendingTurn (commit : ExecutionTerminalCommit) : Prop where
  claimed : 1 ≤ commit.expectedRevision
  producer : commit.execution.producerGeneration ≤ commit.expectedRevision
  unheld : commit.execution.dependencyHoldIds = []
  settled : commit.execution.recoveryState ≠ some .handoff

inductive Admission (record : ExecutionRecord) : List ExecutionEventAppend → Prop
  | reserved (fresh : NewExecution record) : Admission record []
  | turn (reservation : ExecutionStartReservation) (commit : ExecutionTerminalCommit)
      (auditEvents : List ExecutionEventAppend) (turn : PendingTurn commit)
      (fields : record.toExecutionFields = { commit.execution.toExecutionFields with
        result := some commit.result
        eventSeq := (pendingTurnEvents commit auditEvents).length
        retentionClosed := true
        revision := commit.expectedRevision + auditEvents.length + 1 }) :
      Admission record (pendingTurnEvents commit auditEvents)

inductive Kept : Option (Observed ExecutionRecord) → Option (Observed ExecutionRecord) → Prop
  | same (row : Option (Observed ExecutionRecord)) : Kept row row
  | guarded (row : Observed ExecutionRecord) (revision : Nat)
      (grows : row.storageRevision < revision) : Kept (some row) (some ⟨row.value, revision⟩)

/-- What a committed call does to the row of one execution, with the events it appends. -/
inductive RowChange (call : ExecutionCall) : Option (Observed ExecutionRecord) → Option
    (Observed ExecutionRecord) → List ExecutionEventAppend → Prop
  | kept (row next : Option (Observed ExecutionRecord)) (kept : Kept row next) :
      RowChange call row next []
  | inserted (record : ExecutionRecord) (events : List ExecutionEventAppend)
      (admission : Admission record events) : RowChange call none (some ⟨record, 0⟩) events
  | updated (row : Observed ExecutionRecord) (next : ExecutionRecord) (revision : Nat)
      (events : List ExecutionEventAppend) (grows : row.storageRevision < revision)
      (update : Update call row.value next events) :
      RowChange call (some row) (some ⟨next, revision⟩) events

/-! Every committed call guards rows, and changes the row and the events of its target in one
of the listed ways. -/

def lastSequence : Option (Observed ExecutionRecord) → Nat
  | none => 0
  | some row => row.value.eventSeq

structure Guarded (store after : ExecutionStore) : Prop where
  rows : ∀ executionId, Kept (store.executions executionId) (after.executions executionId)
  events : after.events = store.events
  idempotency : after.idempotency = store.idempotency
  seals : after.seals = store.seals
  budgets : after.budgets = store.budgets
  operations : after.operations = store.operations

namespace ExecutionCall

/-- The calls that write an idempotency record beside the execution. -/
def WritesIdempotency : ExecutionCall → Prop
  | .reserveStart _ _ => True
  | .claimStart _ => True
  | .compareAndSwapIdempotency _ _ _ _ _ => True
  | .commitTerminal _ _ => True
  | .commitClosedTerminal _ _ => True
  | .commitTerminalCheckpoint _ => True
  | .insertPendingTurn _ _ _ => True
  | _ => False

def WritesSeal : ExecutionCall → Prop
  | .commitTerminalCheckpoint _ => True
  | _ => False

end ExecutionCall

/-- The records beside the executions are left, unless the call writes them. -/
structure TableFrame (call : ExecutionCall) (store after : ExecutionStore) : Prop where
  idempotency : ¬call.WritesIdempotency → after.idempotency = store.idempotency
  seals : ¬call.WritesSeal → after.seals = store.seals

/-- The target is changed with the events, and all other executions are kept. -/
structure Changes (call : ExecutionCall) (store after : ExecutionStore) (target : String)
    (events : List ExecutionEventAppend) : Prop where
  row : RowChange call (store.executions target) (after.executions target) events
  others : ∀ executionId, executionId ≠ target →
    Kept (store.executions executionId) (after.executions executionId)
  appended : after.events target = store.events target ++
    eventFacts (lastSequence (store.executions target) + 1) events
  silent : ∀ executionId, executionId ≠ target → after.events executionId = store.events executionId
  tables : TableFrame call store after

section Rows

variable {call : ExecutionCall} {first middle last : Option (Observed ExecutionRecord)}
  {events : List ExecutionEventAppend}

theorem Kept.trans (left : Kept first middle) (right : Kept middle last) : Kept first last := by
  cases left with
  | same => exact right
  | guarded row revision grows =>
    cases right with
    | same => exact .guarded row revision grows
    | guarded _ later further => exact .guarded row later (lt_trans grows further)

theorem Kept.lastSequence_eq (kept : Kept first last) : lastSequence last = lastSequence first := by
  cases kept with
  | same => rfl
  | guarded => rfl

theorem Kept.change (kept : Kept first middle) (change : RowChange call middle last events) :
    RowChange call first last events := by
  cases change with
  | kept _ _ further => exact .kept first last (kept.trans further)
  | inserted record events admission =>
    cases kept with
    | same => exact .inserted record events admission
  | updated row next revision events grows update =>
    cases kept with
    | same => exact .updated row next revision events grows update
    | guarded old _ behind =>
      exact .updated old next revision events (lt_trans behind grows) update

end Rows

variable {call : ExecutionCall} {store middle after : ExecutionStore}
  {target executionId : String}
  {events : List ExecutionEventAppend}

theorem Guarded.refl : Guarded store store := ⟨fun _ => .same _, rfl, rfl, rfl, rfl, rfl⟩

variable {row : Observed ExecutionRecord} {revision : Nat}

theorem Guarded.of_row (found : store.executions executionId = some row)
    (grows : row.storageRevision < revision) :
    Guarded store { store with
      executions := Function.update store.executions executionId
        (some ⟨row.value, revision⟩) } where
  rows other := by
    change Kept _ (Function.update store.executions executionId (some ⟨row.value, revision⟩) other)
    by_cases equal : other = executionId
    case pos =>
      subst equal
      rw [found, update_self]
      exact .guarded row revision grows
    case neg =>
      rw [update_of_ne equal]
      exact .same _
  events := rfl
  idempotency := rfl
  seals := rfl
  budgets := rfl
  operations := rfl

theorem Guarded.found (guarded : Guarded store after)
    (stored : after.executions executionId = some row) :
    ∃ old, store.executions executionId = some old ∧ old.value = row.value := by
  have kept := guarded.rows executionId
  rw [stored] at kept
  generalize store.executions executionId = before at kept
  cases kept with
  | same => exact ⟨row, rfl, rfl⟩
  | guarded old => exact ⟨old, rfl, rfl⟩

theorem TableFrame.refl : TableFrame call store store := ⟨fun _ => rfl, fun _ => rfl⟩

theorem TableFrame.trans (left : TableFrame call store middle)
    (right : TableFrame call middle after) : TableFrame call store after :=
  ⟨fun quiet => (right.idempotency quiet).trans (left.idempotency quiet),
    fun quiet => (right.seals quiet).trans (left.seals quiet)⟩

theorem Guarded.tables (guarded : Guarded store after) : TableFrame call store after :=
  ⟨fun _ => guarded.idempotency, fun _ => guarded.seals⟩

theorem Guarded.then (guarded : Guarded store middle)
    (changes : Changes call middle after target events) :
    Changes call store after target events where
  row := (guarded.rows target).change changes.row
  others executionId other := (guarded.rows executionId).trans (changes.others executionId other)
  appended := by
    rw [changes.appended, guarded.events, (guarded.rows target).lastSequence_eq]
  silent executionId other := by
    rw [changes.silent executionId other, guarded.events]
  tables := guarded.tables.trans changes.tables

theorem appended_nil : Function.update store.events executionId
    (store.events executionId ++ eventFacts first []) = store.events := by
  rw [eventFacts, List.zipIdx_nil, List.map_nil, List.append_nil, update_eq_self]

theorem Changes.of_same (executions : after.executions = store.executions)
    (same : after.events = store.events) (tables : TableFrame call store after) :
    Changes call store after target [] where
  row := by
    rw [executions]
    exact .kept _ _ (.same _)
  others executionId _ := by
    rw [executions]
    exact .same _
  appended := by
    rw [same]
    exact (List.append_nil _).symm
  silent executionId _ := by rw [same]
  tables := tables

theorem Changes.refl : Changes call store store target [] := .of_same rfl rfl .refl

theorem Changes.of_eq (changes : Changes call middle after target events)
    (executions : middle.executions = store.executions) (same : middle.events = store.events)
    (tables : TableFrame call store middle) : Changes call store after target events :=
  ⟨executions ▸ changes.row, executions ▸ changes.others,
    by rw [changes.appended, executions, same], same ▸ changes.silent, tables.trans changes.tables⟩

theorem Guarded.changes (guarded : Guarded store after) : Changes call store after target [] :=
  guarded.then .refl

theorem Changes.of_put {row : Option (Observed ExecutionRecord)} {next : ExecutionRecord}
    (found : store.executions target = row)
    (change : RowChange call row (some ⟨next, revision⟩) events)
    (executions : after.executions = Function.update store.executions target
    (some ⟨next, revision⟩)) (appended : after.events = Function.update store.events target
      (store.events target ++ eventFacts (lastSequence row + 1) events))
    (tables : TableFrame call store after) : Changes call store after target events where
  row := by
    rw [executions, update_self, found]
    exact change
  others executionId other := by
    rw [executions, update_of_ne other]
    exact .same _
  appended := by rw [appended, update_self, found]
  silent executionId other := by rw [appended, update_of_ne other]
  tables := tables

section Replacements

variable {current next : ExecutionRecord}

/-- The fields that no call changes. -/
def ExecutionFields.identity (fields : ExecutionFields) :=
  (fields.executionId, fields.sessionId, fields.parentExecutionId, fields.rootExecutionId,
    fields.binding, fields.budgetScopeId, fields.restartCheckpoints, fields.durableTrace,
    fields.conversation)

theorem Update.identity (update : Update call current next events) :
    next.identity = current.identity := by
  cases update with
  | transitioned _ _ _ fields => rw [fields]; rfl
  | swapped update => rw [update.fields]; rfl
  | started _ _ fields => rw [fields]; rfl
  | claimed _ _ _ _ _ _ _ fields => rw [fields]; rfl
  | cancelRecorded _ _ _ fields => rw [fields]; rfl
  | recovered _ _ _ _ _ fields => rw [fields]; rfl
  | appended _ _ _ fields => rw [fields]; rfl
  | held _ _ _ fields => rw [fields]; rfl
  | released _ _ fields => rw [fields]; rfl
  | closed _ _ _ _ fields => rw [fields]; rfl
  | ended _ _ _ _ _ fields => rw [fields]; rfl

theorem Update.executionId_eq (update : Update call current next events) :
    next.executionId = current.executionId :=
  congrArg (·.1) update.identity

section

variable (found : store.executions executionId = some row)
include found

section

variable (named : row.value.executionId = executionId)
include named

theorem Changes.of_replace (update : Update call row.value next events)
    (replaced : store.replaceChecked next row.storageRevision = .ok middle)
    (executions : after.executions = middle.executions)
    (appended : after.events = Function.update middle.events executionId
      (middle.events executionId ++ eventFacts (row.value.eventSeq + 1) events))
    (tables : TableFrame call middle after) : Changes call store after executionId events := by
  have same : next.executionId = executionId := update.executionId_eq.trans named
  obtain ⟨_, _, _, _, _, rfl⟩ := ExecutionStore.replaceChecked_ok replaced
  refine .of_put found (.updated row next _ events (Nat.lt_succ_self _) update) ?_ appended
    ⟨tables.idempotency, tables.seals⟩
  rw [executions, ExecutionStore.putExecution]
  exact congrArg (fun key => Function.update store.executions key _) same

theorem Changes.of_replace_facts (update : Update call row.value next events)
    (replaced : store.replaceChecked next row.storageRevision = .ok middle)
    (inserted : middle.insertFacts executionId (eventFacts (row.value.eventSeq + 1) events) =
      .ok after) : Changes call store after executionId events := by
  have facts := ExecutionStore.insertFacts_ok inserted
  exact .of_replace found named update replaced (by rw [facts]) (by rw [facts])
    ⟨fun _ => by rw [facts], fun _ => by rw [facts]⟩

theorem Changes.of_replace_silent (update : Update call row.value next [])
    (replaced : store.replaceChecked next row.storageRevision = .ok after) :
    Changes call store after executionId [] :=
  .of_replace found named update replaced rfl appended_nil.symm .refl

end

end

theorem TerminalRecord.of_sameExceptHolds (ending : TerminalRecord snapshot final)
    (same : SameExecutionExceptHoldMetadata current snapshot)
    (fields : merged.toExecutionFields = { final.toExecutionFields with
      dependencyHoldIds := current.dependencyHoldIds
      updatedAt }) : TerminalRecord current merged := by
  have metadata := same.2
  have record := ending.fields
  simp only [ExecutionFields.ext_iff] at metadata record fields
  constructor
  · simp only [ExecutionFields.ext_iff]
    grind
  · intro handoff
    have before := ending.handoff
    unfold ExecutionFields.recoveryState at before handoff ⊢
    grind

end Replacements

end Linktools.Execution
