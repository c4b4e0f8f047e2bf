import Linktools.Persistence.TaskRuns

namespace Linktools.Persistence

open Linktools.Core Library Linktools.Task

/-! What a call does when the store does not say that its transaction was committed: it reads
back and compares. -/

/-- The reports after which a call reads back, `_COMMIT_READBACK_CODES`. -/
inductive CommitReport
  | conflict
  | commitUnknown

def commitReportOf : Raised → Option CommitReport
  | .ai .storageConflict _ => some .conflict
  | .ai .storageCommitUnknown _ => some .commitUnknown
  | _ => none

def CommitReport.unresolved (report : CommitReport) (phase graphId nodeId : String) : Raised :=
  match report with
  | .conflict => .ai .storageConflict
  | .commitUnknown =>
    .ai .storageRecoveryRequired
      [("phase", .str phase), ("graph_id", .str graphId), ("node_id", .str nodeId)]

namespace Store

def readNode (store : Store) (graphId nodeId : String) : Except Raised TaskNodeView := do
  let records ← orRaise (store.graphs graphId) (.ai .storageNotFound)
  let node ← orRaise (records.entryAt nodeId) (.ai .storageNotFound)
  return node.view records.graphId

def readResult (store : Store) (graphId nodeId : String) :
    Except Raised (Option TaskResultRecord) :=
  let result := (store.graphs graphId).bind fun records => records.resultAt nodeId
  if ∃ found ∈ result, found.graphId ≠ graphId ∨ found.nodeId ≠ nodeId then
    .error .integrity
  else .ok result

/-- The graph as its rows call for, and whether the header reads so. -/
def projectionReadback (store : Store) (graphId : String) :
    Except Raised (TaskGraphView × Bool) := do
  let records ← orRaise (store.graphs graphId) (.ai .storageNotFound)
  requireCanonicalGraphStatus records.status
  let state ← records.eventState
  let status ← effectiveGraphStatus state.graph state.nodeStates
  return (⟨state.graph.graphId, status, state.graph.nodes⟩, records.status = status)

end Store

namespace TaskRepository

def handoffExecutionReadback (lease : TaskLease) (executionId : String)
    (occupiesConcurrency : Bool) (report : CommitReport) (store : Store) :
    Except Raised TaskNodeView := do
  let current ← store.readNode lease.graphId lease.nodeId
  let unresolved :=
    report.unresolved "task_execution_handoff" lease.graphId lease.nodeId
  let bound := current.state.executionId = some executionId
  refuse (current.state.fence ≠ lease.fence) (.ai .taskFenceStale)
  if current.state.status = .waiting ∧ bound then
    if current.state.owner = none ∧ current.state.leaseExpiresAt = none ∧
        current.state.occupiesConcurrency = occupiesConcurrency then
      return current
    else throw (.ai .storageConflict)
  else if bound ∧ (current.state.status.Terminal ∨ current.state.status = .recoveryRequired) then
    throw (.ai .taskNotReady)
  else if current.state.status = .running ∧ bound then throw unresolved
  else if current.state.executionId ≠ none then throw .integrity
  else if current.state.owner ≠ some lease.owner then
    throw (.ai .taskOwnerConflict)
  else throw unresolved

def requeueWaitingRetryReadback (graphId nodeId : String) (expectedFence : Int)
    (executionId : String) (nextAttemptAt : Time) (report : CommitReport)
    (store : Store) : Except Raised TaskNodeView := do
  let current ← store.readNode graphId nodeId
  if current.state.status = .ready ∧ (current.state.fence : Int) = expectedFence ∧
      current.state.executionId = some executionId ∧
      current.state.nextAttemptAt = some nextAttemptAt then
    return current
  else throw (report.unresolved "task_waiting_retry" graphId nodeId)

def markRecoveryRequiredReadback (request : MarkRecoveryRequired)
    (target : TargetNode) (report : CommitReport) (store : Store) : Except Raised TaskNodeView := do
  let current ← store.readNode target.graphId target.nodeId
  let (view, converged) ← store.projectionReadback target.graphId
  let stale := ∃ lease ∈ request.lease, current.state.fence ≠ lease.fence
  if converged ∧ view.status = .recoveryRequired ∧
      current.state.status = .recoveryRequired ∧ ¬stale ∧
      ¬fenceUnexpected request.expectedFence current.state.fence ∧
      current.state.errorCode = some request.errorCode ∧
      current.state.errorDigest = some request.errorDigest ∧
      current.state.executionId = request.executionId then
    return current
  else if stale then throw (.ai .taskFenceStale)
  else
    throw (report.unresolved "task_recovery_required" target.graphId target.nodeId)

def requeueRecoveryReadback (graphId nodeId : String) (expectedFence : Int)
    (executionId : Option String) (nextAttemptAt : Option Time)
    (report : CommitReport) (store : Store) : Except Raised TaskGraphView := do
  let (view, converged) ← store.projectionReadback graphId
  let current := (store.graphs graphId).bind fun records => records.entryAt nodeId
  if converged ∧ ∃ node ∈ current, node.status = .ready ∧
      (node.state.fence : Int) = expectedFence ∧ node.state.executionId ≠ none ∧
      (executionId = none ∨ node.state.executionId = executionId) ∧
      node.state.nextAttemptAt = nextAttemptAt then
    return view
  else throw (report.unresolved "task_requeue_recovery" graphId nodeId)

/-- `expectedFence` is the fence that the transaction meant to write. -/
def claimReadback (graphId nodeId tenantId owner : String)
    (expectedFence : Option Nat) (report : CommitReport) (store : Store) :
    Except Raised TaskLease := do
  let current ← store.readNode graphId nodeId
  if current.state.status = .running then do
    refuse (current.state.owner ≠ some owner) (.ai .taskOwnerConflict)
    refuse (expectedFence ≠ some current.state.fence) (.ai .taskFenceStale)
    let expires ← orRaise current.state.leaseExpiresAt .integrity
    TaskLease.build graphId nodeId tenantId owner current.state.fence expires
      current.state.executionId
  else if current.state.status.Terminal ∨ current.state.status = .recoveryRequired then
    throw (.ai .taskNotReady)
  else throw (report.unresolved "task_claim" graphId nodeId)

def requireStoredResult (lease : TaskLease) (current : TaskNodeView) (store : Store) :
    Except Raised Unit :=
  if current.state.status = .succeeded then do
    let result ← store.readResult lease.graphId lease.nodeId
    refuse (∃ found ∈ result, some found.resultDigest ≠ current.state.resultDigest) .integrity
    refuse (result = none ∨ ∃ found ∈ result,
      some found.executionId ≠ current.state.executionId) .integrity
  else .ok ()

/-- `answered` is the reading of the clock that stamps the answer. -/
def classifyTerminalReadback (answered : Time) (lease : TaskLease)
    (status : TaskStatus) (executionId resultDigest errorCode errorDigest :
      Option String) (report : CommitReport) (store : Store) :
    Except Raised TaskTerminalRecord := do
  let current ← store.readNode lease.graphId lease.nodeId
  refuse (current.state.fence ≠ lease.fence) (.ai .taskFenceStale)
  if current.state.status = status then do
    refuse (current.state.resultDigest ≠ resultDigest ∨ current.state.errorCode ≠ errorCode ∨
        current.state.errorDigest ≠ errorDigest ∨
        (executionId ≠ none ∧ current.state.executionId ≠ executionId))
      (.ai .taskResultConflict)
    requireStoredResult lease current store
    let record : TaskTerminalRecord :=
      { nodeId := lease.nodeId, owner := some lease.owner, fence := lease.fence
        status := status, resultDigest := resultDigest, errorCode := errorCode
        errorDigest := errorDigest, completedAt := answered
        executionId := current.state.executionId }
    record.check
    return record
  else if current.state.status.Terminal ∨ current.state.status = .recoveryRequired then
    throw (.ai .taskTerminalConflict)
  else if current.state.owner ≠ some lease.owner then throw (.ai .taskFenceStale)
  else
    throw (report.unresolved "task_terminal_commit" lease.graphId lease.nodeId)

def completeReadback (answered : Time) (request : Complete) (target : TargetNode)
    (report : CommitReport) (store : Store) : Except Raised TaskTerminalRecord :=
  match request.lease with
  | some lease =>
    classifyTerminalReadback answered lease .succeeded request.executionId
      (some request.resultDigest) none none report store
  | none => do
    let current ← store.readNode target.graphId target.nodeId
    if current.state.status = .succeeded ∧ current.state.resultDigest = some request.resultDigest ∧
        current.state.executionId = request.executionId then do
      let record : TaskTerminalRecord :=
        { nodeId := target.nodeId, owner := none, fence := current.state.fence
          status := .succeeded, resultDigest := some request.resultDigest
          errorCode := none, errorDigest := none, completedAt := answered
          executionId := current.state.executionId }
      record.check
      return record
    else
      throw (report.unresolved "task_terminal_commit" target.graphId target.nodeId)

def failReadback (answered : Time) (request : Fail) (target : TargetNode)
    (report : CommitReport) (store : Store) : Except Raised TaskTerminalRecord :=
  match request.lease with
  | some lease =>
    classifyTerminalReadback answered lease .failed request.executionId none
      (some request.errorCode) (some request.errorDigest) report store
  | none => do
    let current ← store.readNode target.graphId target.nodeId
    if current.state.status = .failed ∧ current.state.executionId = request.executionId ∧
        current.state.errorCode = some request.errorCode ∧
        current.state.errorDigest = some request.errorDigest ∧
        current.state.errorOrigin = some request.errorOrigin ∧
        current.state.safeErrorDetails.same request.details = true ∧
        ¬fenceUnexpected request.expectedFence current.state.fence then do
      let record : TaskTerminalRecord :=
        { nodeId := target.nodeId, owner := none, fence := current.state.fence
          status := .failed, resultDigest := none
          errorCode := some request.errorCode
          errorDigest := some request.errorDigest, completedAt := answered
          executionId := current.state.executionId }
      record.check
      return record
    else
      throw (report.unresolved "task_terminal_commit" target.graphId target.nodeId)

end TaskRepository

inductive NodeOperation
  | handoffExecution (lease : TaskLease) (tenantId executionId : String)
      (occupiesConcurrency : Bool)
  | requeueWaitingRetry (graphId nodeId tenantId : String) (expectedFence : Int)
      (executionId : String) (nextAttemptAt : Time)
  | markRecoveryRequired (request : TaskRepository.MarkRecoveryRequired)
  | requeueRecovery (graphId nodeId tenantId : String) (expectedFence : Int)
      (executionId : Option String) (nextAttemptAt : Option Time)
  | claim (graphId nodeId tenantId owner : String) (leaseSeconds : Int)
  | complete (request : TaskRepository.Complete)
  | fail (request : TaskRepository.Fail)

namespace NodeOperation

def operation : NodeOperation → Operation
  | .handoffExecution lease tenantId executionId occupiesConcurrency =>
    .handoffExecution lease tenantId executionId occupiesConcurrency
  | .requeueWaitingRetry graphId nodeId tenantId expectedFence executionId
      nextAttemptAt =>
      .requeueWaitingRetry graphId nodeId tenantId expectedFence executionId nextAttemptAt
  | .markRecoveryRequired request => .markRecoveryRequired request
  | .requeueRecovery graphId nodeId tenantId expectedFence executionId
      nextAttemptAt =>
      .requeueRecovery graphId nodeId tenantId expectedFence executionId nextAttemptAt
  | .claim graphId nodeId tenantId owner leaseSeconds =>
    .claim graphId nodeId tenantId owner leaseSeconds
  | .complete request => .complete request
  | .fail request => .fail request

def readBack (answered : Time) (expectedFence : Option Nat) (report : CommitReport)
    (store : Store) : NodeOperation → Except Raised Outcome
  | .handoffExecution lease _ executionId occupiesConcurrency =>
    .node <$> TaskRepository.handoffExecutionReadback lease executionId
      occupiesConcurrency report store
  | .requeueWaitingRetry graphId nodeId _ expectedFence executionId nextAttemptAt =>
    .node <$> TaskRepository.requeueWaitingRetryReadback graphId nodeId
      expectedFence executionId nextAttemptAt report store
  | .markRecoveryRequired request => do
    let target ← request.target
    .node <$> TaskRepository.markRecoveryRequiredReadback request target report store
  | .requeueRecovery graphId nodeId _ expectedFence executionId nextAttemptAt =>
    .graph <$> TaskRepository.requeueRecoveryReadback graphId nodeId expectedFence
      executionId nextAttemptAt report store
  | .claim graphId nodeId tenantId owner _ =>
    .lease <$> TaskRepository.claimReadback graphId nodeId tenantId owner
      expectedFence report store
  | .complete request => do
    let target ← TaskRepository.terminalTarget request.lease request.tenantId
      request.graphId request.nodeId
    .terminal <$> TaskRepository.completeReadback answered request target report store
  | .fail request => do
    let target ← TaskRepository.terminalTarget request.lease request.tenantId
      request.graphId request.nodeId
    .terminal <$> TaskRepository.failReadback answered request target report store

end NodeOperation

inductive Ending
  | acknowledged
  | committedUnknown
  | dropped (report : CommitReport)

def Outcome.claimedFence : Outcome → Option Nat
  | .lease held => some held.fence
  | _ => none

def Outcome.answeredAt (answered : Time) : Outcome → Outcome
  | .terminal record => .terminal { record with completedAt := answered }
  | outcome => outcome

namespace TaskRepository

/-- A whole call: the transaction, and the read-back where one is made. -/
def callUnder (repo : TaskRepository) (ending : Ending) (clock : Clock)
    (answered : Time) (call : NodeOperation) (store : Store) : Except Raised Outcome × Store :=
  match repo.perform clock call.operation store with
  | .ok (outcome, after) =>
    match ending with
    | .acknowledged => (.ok outcome, after)
    | .committedUnknown =>
      (call.readBack answered outcome.claimedFence .commitUnknown after, after)
    | .dropped report =>
      (call.readBack answered outcome.claimedFence report store, store)
  | .error raised =>
    match commitReportOf raised with
    | some report => (call.readBack answered none report store, store)
    | none => (.error raised, store)

end TaskRepository

def CommitReport.raised : CommitReport → Raised
  | .conflict => .ai .storageConflict
  | .commitUnknown => .ai .storageCommitUnknown

inductive CommitObservation (α : Type)
  | committed (value : α)
  | notCommitted (error : Option Raised := none)
  | partialIntegrityError (error : Raised)

namespace CommitObservation

variable {α β : Type}

/-- Errors met while a stored commit is validated; those that are not an `AIError` are
reported as an integrity error. -/
def ofValidated : Except Raised α → CommitObservation α
  | .ok value => .committed value
  | .error (.ai code details) => .partialIntegrityError (.ai code details)
  | .error (.valueError _) => .partialIntegrityError .integrity
  | .error .recursionError => .partialIntegrityError .integrity

def map (transform : α → β) : CommitObservation α → CommitObservation β
  | .committed value => .committed (transform value)
  | .notCommitted error => .notCommitted error
  | .partialIntegrityError error => .partialIntegrityError error

def answer (operationError : Raised) : Except Raised (CommitObservation α) → Except Raised α
  | .ok (.committed value) => .ok value
  | .ok (.notCommitted error) => .error (error.getD operationError)
  | .ok (.partialIntegrityError error) => .error error
  | .error raised =>
    if raised.code? = some .idempotencyConflict ∨ raised.code? = some .storageOwnerMismatch ∨
        raised.code? = some .storageNotFound ∨ raised.code? = some .storageConflict ∨
        raised.code? = some .storageIntegrityError then .error raised
    else .error (.ai .storageCommitUnknown)

end CommitObservation

/-- The view of a graph whose submission was cancelled before its admission. -/
def cancelledView (graphId : String) : TaskGraphView := ⟨graphId, .cancelled, []⟩

namespace TaskRepository

variable (repo : TaskRepository)

def prepareReadback (submission : TaskGraphSubmission) (store : Store) :
    Except Raised (CommitObservation (TaskGraphSubmission × Bool)) := do
  let head ← repo.submissionInTransaction store submission.ref
  match head with
  | none => return .notCommitted
  | some state => do
    let stored ← repo.preparedSubmission store state submission
    return .committed (stored, false)

/-- Whether the graph is held by the admission of another operation. -/
def isCanonicalOccupiedAdmission (store : Store) (records : TaskGraphRecords)
    (candidate : TaskGraphAdmission) : Except Raised Bool := do
  if records.admission.operationId = candidate.operationId then return false
  else if store.operationAt records.admission.operationId = none then return false
  else do
    let _ ← repo.requireCommittedAdmission store records
    return true

def readCommittedAdmission (store : Store) (records : TaskGraphRecords)
    (admission : TaskGraphAdmission) (operation : OperationLedgerRecord) :
    Except Raised TaskGraphView := do
  repo.validateOperationIdentity operation admission
  let view ← repo.requireCommittedAdmission store records
  refuse (¬sameTaskAdmissionContract records.admission admission) .integrity
  return view

def readAdmission (admission : TaskGraphAdmission) (graph : TaskGraph)
    (store : Store) : Except Raised (CommitObservation TaskGraphView) := do
  let submission : TaskGraphSubmission :=
    ⟨repo.namespaceId, admission, graph⟩
  submission.check repo.sha256
  let head ← repo.submissionInTransaction store submission.ref
  if head = some .cancelled ∧ store.graphs graph.graphId = none then
    return .committed (cancelledView graph.graphId)
  else
    match store.graphs graph.graphId, store.operationAt admission.operationId with
    | none, none => return .notCommitted
    | none, some _ => return .partialIntegrityError .integrity
    | some records, none =>
      match repo.isCanonicalOccupiedAdmission store records admission with
      | .ok true => return .notCommitted (some (.ai .storageConflict))
      | .ok false => return .partialIntegrityError .integrity
      | .error raised => return .ofValidated (.error raised)
    | some records, some operation =>
      if operation.requestDigest ≠ admission.initialRequestDigest then
        return .notCommitted (some (.ai .idempotencyConflict))
      else
        return .ofValidated (repo.readCommittedAdmission store records admission operation)

def cancelSubmissionReadback (submission : TaskSubmissionRef)
    (operation : OperationLedgerInput) (store : Store) :
    Except Raised (CommitObservation Bool) := do
  let head ← repo.submissionInTransaction store submission
  if head ≠ some .cancelled then return .notCommitted
  else
    match store.operationAt operation.operationId with
    | none => return .notCommitted
    | some stored => do
      refuse (stored.requestDigest ≠ operation.requestDigest) (.ai .idempotencyConflict)
      return .committed (store.graphs submission.graphId).isSome

end TaskRepository

inductive SubmissionOperation
  | prepare (submission : TaskGraphSubmission)
  | admitSubmission (admission : TaskGraphAdmission) (graph : TaskGraph)
  | admitPrepared (submission : TaskGraphSubmission)
  | cancelSubmission (submission : TaskSubmissionRef) (operation : OperationLedgerInput)

namespace SubmissionOperation

def operation : SubmissionOperation → Operation
  | .prepare submission => .prepare submission
  | .admitSubmission admission graph => .admitSubmission admission graph
  | .admitPrepared submission => .admitPrepared submission
  | .cancelSubmission submission operation => .cancelSubmission submission operation

/-- The checks that a call makes before its transaction; they are not read back. -/
def validate (repo : TaskRepository) : SubmissionOperation → Except Raised Unit
  | .prepare submission => submission.check repo.sha256
  | .admitSubmission admission graph => do
    admission.validateGraph repo.sha256 graph
    let launch ← admission.launch
    repo.requireTenant launch.principal.tenantId
  | .admitPrepared submission => do
    refuse (submission.namespaceId ≠ repo.namespaceId) (.ai .storageOwnerMismatch)
    submission.admission.validateGraph repo.sha256 submission.graph
    let launch ← submission.admission.launch
    repo.requireTenant launch.principal.tenantId
  | .cancelSubmission submission operation =>
    refuse (operation.tenantId ≠ repo.tenantId ∨ operation.resourceKind ≠ .taskGraph ∨
        operation.resourceId ≠ submission.graphId ∨
        operation.executionId ≠ none ∨ operation.operationKind ≠ .taskCancel ∨
        operation.status ≠ .pending) (.ai .requestFieldInvalid)

def readBack (repo : TaskRepository) (store : Store) :
    SubmissionOperation → Except Raised (CommitObservation Outcome)
  | .prepare submission =>
    CommitObservation.map (fun (prepared, created) => .submission prepared created) <$>
      repo.prepareReadback submission store
  | .admitSubmission admission graph =>
    CommitObservation.map .graph <$> repo.readAdmission admission graph store
  | .admitPrepared submission =>
    CommitObservation.map .graph <$>
      repo.readAdmission submission.admission submission.graph store
  | .cancelSubmission submission operation =>
    CommitObservation.map .withdrawn <$>
      repo.cancelSubmissionReadback submission operation store

end SubmissionOperation

namespace TaskRepository

/-- A whole call on a submission, as `run_durable_commit` makes it. -/
def submitUnder (repo : TaskRepository) (ending : Ending) (clock : Clock)
    (call : SubmissionOperation) (store : Store) : Except Raised Outcome × Store :=
  match call.validate repo with
  | .error raised => (.error raised, store)
  | .ok () =>
    match repo.perform clock call.operation store with
    | .ok (outcome, after) =>
      match ending with
      | .acknowledged => (.ok outcome, after)
      | .committedUnknown =>
        (CommitObservation.answer (.ai .storageCommitUnknown)
          (call.readBack repo after), after)
      | .dropped report =>
        (CommitObservation.answer report.raised (call.readBack repo store), store)
    | .error raised =>
      (CommitObservation.answer raised (call.readBack repo store), store)

end TaskRepository

variable {answered : Time}
  {store : Store} {report : CommitReport} {graphId nodeId : String}
  {records : TaskGraphRecords} {node : NodeEntry} {current view : TaskNodeView}
  {lease : TaskLease} {record : TaskTerminalRecord}

theorem Store.readNode_eq_ok : store.readNode graphId nodeId = .ok view ↔
      ∃ records node, store.graphs graphId = some records ∧
        records.entryAt nodeId = some node ∧ node.view records.graphId = view := by
  simp only [readNode, bind_eq_ok, orRaise_eq_ok, pure_eq_ok]
  constructor
  · rintro ⟨records, found, node, stored, same⟩
    exact ⟨records, node, found, stored, same⟩
  · rintro ⟨records, node, found, stored, same⟩
    exact ⟨records, found, node, stored, same⟩

theorem readNode_putGraph (sameId : records.graphId = graphId)
    (stored : records.entryAt nodeId = some node) :
    (store.putGraph records).readNode graphId nodeId = .ok (node.view records.graphId) :=
  Store.readNode_eq_ok.mpr ⟨records, node, Store.putGraph_graphs_self _ sameId, stored, rfl⟩

variable {state : TaskEventState}

theorem projectionReadback_eq (found : store.graphs graphId = some records)
    (loaded : records.eventState = .ok state)
    (derived : records.status = derivedStatus records.nodes)
    (standing : records.status ≠ .cancelled) : store.projectionReadback graphId =
      .ok (⟨records.graphId, records.status, records.definitions⟩, true) := by
  obtain ⟨sameId, sameStatus, sameDefinitions, sameNodes, _⟩ := records.eventState_ok loaded
  have canonical : requireCanonicalGraphStatus records.status = .ok () := by
    simp only [TaskGraphRecords.eventState, bind_eq_ok] at loaded
    exact loaded.choose_spec.1
  have isolated : isolatedGraphStatus records.nodes records.definitions = .ok records.status := by
    rw [isolatedGraphStatus_ok records.nodes records.definitions (.refl _), derived]
    rfl
  have effective : effectiveGraphStatus state.graph state.nodeStates = .ok records.status := by
    simp only [effectiveGraphStatus, sameDefinitions, sameNodes, sameStatus, isolated,
      ok_bind, if_neg standing]
    split <;> rfl
  simp only [Store.projectionReadback, found, orRaise, ok_bind, canonical, loaded,
    effective, sameId, sameDefinitions, decide_true]
  rfl

theorem eventState_of_same {written : TaskGraphRecords} (loaded : records.eventState = .ok state)
    (sameId : written.graphId = records.graphId)
    (definitions : written.definitions = records.definitions)
    (derived : written.status = derivedStatus written.nodes) :
    ∃ state, written.eventState = .ok state := by
  obtain ⟨_, _, _, _, graph, _, built⟩ := records.eventState_ok loaded
  have canonical : requireCanonicalGraphStatus written.status = .ok () :=
    derived ▸ (derivedStatus_agrees written.nodes).canonical
  refine ⟨⟨⟨graph.graphId, written.status, graph.nodes⟩, written.nodes⟩, ?_⟩
  simp only [TaskGraphRecords.eventState, canonical, ok_bind, sameId, definitions, built]
  rfl

namespace TaskRepository

variable {executionId : String}

theorem handoffExecutionReadback_eq_ok :
    handoffExecutionReadback lease executionId occupies report store = .ok view ↔
      store.readNode lease.graphId lease.nodeId = .ok view ∧
        view.state.fence = lease.fence ∧ view.state.status = .waiting ∧
        view.state.executionId = some executionId ∧ view.state.owner = none ∧
        view.state.leaseExpiresAt = none ∧ view.state.occupiesConcurrency = occupies := by
  simp only [handoffExecutionReadback, bind_eq_ok, refuse_eq_ok, not_not]
  constructor
  · rintro ⟨current, read, _, fence, done⟩
    split at done
    case isTrue waiting =>
      split at done
      case isTrue kept =>
        rw [pure_eq_ok] at done
        subst done
        exact ⟨read, fence, waiting.1, waiting.2, kept⟩
      case isFalse => cases done
    case isFalse => split_ifs at done
  · rintro ⟨read, fence, waiting, bound, kept⟩
    refine ⟨view, read, (), fence, ?_⟩
    rw [if_pos ⟨waiting, bound⟩, if_pos kept]
    rfl

variable {expectedFence : Int}

theorem requeueWaitingRetryReadback_eq_ok :
    requeueWaitingRetryReadback graphId nodeId expectedFence executionId nextAttemptAt
        report store = .ok view ↔
      store.readNode graphId nodeId = .ok view ∧ view.state.status = .ready ∧
        (view.state.fence : Int) = expectedFence ∧ view.state.executionId = some executionId ∧
        view.state.nextAttemptAt = some nextAttemptAt := by
  simp only [requeueWaitingRetryReadback, bind_eq_ok]
  constructor
  · rintro ⟨current, read, done⟩
    split at done
    case isTrue kept =>
      rw [pure_eq_ok] at done
      subst done
      exact ⟨read, kept⟩
    case isFalse => cases done
  · rintro ⟨read, kept⟩
    refine ⟨view, read, ?_⟩
    rw [if_pos kept]
    rfl

variable {target : TargetNode}

theorem markRecoveryRequiredReadback_eq_ok :
    markRecoveryRequiredReadback request target report store = .ok view ↔
      store.readNode target.graphId target.nodeId = .ok view ∧
        (∃ graph, store.projectionReadback target.graphId = .ok (graph, true) ∧
          graph.status = .recoveryRequired) ∧ view.state.status = .recoveryRequired ∧
        (∀ lease ∈ request.lease, view.state.fence = lease.fence) ∧
        ¬fenceUnexpected request.expectedFence view.state.fence ∧
        view.state.errorCode = some request.errorCode ∧
        view.state.errorDigest = some request.errorDigest ∧
        view.state.executionId = request.executionId := by
  simp only [markRecoveryRequiredReadback, bind_eq_ok, Prod.exists]
  constructor
  · rintro ⟨current, read, graph, converged, projected, done⟩
    split at done
    case isTrue kept =>
      rw [pure_eq_ok] at done
      subst done
      obtain ⟨rfl, recovering, status, fence, kept⟩ := kept
      exact ⟨read, ⟨graph, projected, recovering⟩, status, by simpa using fence, kept⟩
    case isFalse => split_ifs at done
  · rintro ⟨read, ⟨graph, projected, recovering⟩, status, fence, kept⟩
    refine ⟨view, read, graph, true, projected, ?_⟩
    rw [if_pos ⟨rfl, recovering, status, by simpa using fence, kept⟩]
    rfl

theorem requeueRecoveryReadback_eq_ok {executionId : Option String} :
    requeueRecoveryReadback graphId nodeId expectedFence executionId nextAttemptAt
        report store = .ok graph ↔ store.projectionReadback graphId = .ok (graph, true) ∧
        ∃ node, store.nodeAt graphId nodeId = some node ∧ node.status = .ready ∧
          (node.state.fence : Int) = expectedFence ∧ node.state.executionId ≠ none ∧
          (executionId = none ∨ node.state.executionId = executionId) ∧
          node.state.nextAttemptAt = nextAttemptAt := by
  simp only [requeueRecoveryReadback, bind_eq_ok, Prod.exists, Store.nodeAt]
  constructor
  · rintro ⟨found, converged, projected, done⟩
    split at done
    case isTrue kept =>
      rw [pure_eq_ok] at done
      subst done
      obtain ⟨rfl, node, stored, kept⟩ := kept
      exact ⟨projected, node, stored, kept⟩
    case isFalse => cases done
  · rintro ⟨projected, node, stored, kept⟩
    refine ⟨graph, true, projected, ?_⟩
    rw [if_pos ⟨rfl, node, stored, kept⟩]
    rfl

theorem claimReadback_eq_ok {tenantId owner : String} {expectedFence : Option Nat} :
    claimReadback graphId nodeId tenantId owner expectedFence report store = .ok lease ↔
      ∃ current expires, store.readNode graphId nodeId = .ok current ∧
        current.state.status = .running ∧ current.state.owner = some owner ∧
        expectedFence = some current.state.fence ∧ current.state.leaseExpiresAt = some expires ∧
        TaskLease.build graphId nodeId tenantId owner current.state.fence expires
          current.state.executionId = .ok lease := by
  simp only [claimReadback, bind_eq_ok]
  constructor
  · rintro ⟨current, read, done⟩
    split at done
    case isTrue running =>
      simp only [bind_eq_ok, refuse_eq_ok, orRaise_eq_ok, not_not] at done
      obtain ⟨_, owned, _, fence, expires, leased, built⟩ := done
      exact ⟨current, expires, read, running, owned, fence, leased, built⟩
    case isFalse => split_ifs at done
  · rintro ⟨current, expires, read, running, owned, fence, leased, built⟩
    refine ⟨current, read, ?_⟩
    rw [if_pos running]
    simp only [bind_eq_ok, refuse_eq_ok, orRaise_eq_ok, not_not]
    exact ⟨(), owned, (), fence, expires, leased, built⟩

theorem terminalRecord_check : record.check = .ok done ↔
      (∀ owner ∈ record.owner, validLeaseOwner owner = true) ∧ 1 ≤ record.fence := by
  simp only [TaskTerminalRecord.check, bind_eq_ok, refuse_eq_ok, exists_const]
  constructor
  · rintro ⟨owner, fence⟩
    exact ⟨by simpa using owner, by omega⟩
  · rintro ⟨owner, fence⟩
    exact ⟨by simpa using owner, by omega⟩

theorem classifyTerminalReadback_eq_ok {status : TaskStatus}
    {executionId resultDigest errorCode errorDigest : Option String} :
    classifyTerminalReadback answered lease status executionId resultDigest errorCode
        errorDigest report store = .ok record ↔
      ∃ current, store.readNode lease.graphId lease.nodeId = .ok current ∧
        current.state.fence = lease.fence ∧ current.state.status = status ∧
        current.state.resultDigest = resultDigest ∧ current.state.errorCode = errorCode ∧
        current.state.errorDigest = errorDigest ∧
        (executionId ≠ none → current.state.executionId = executionId) ∧
        requireStoredResult lease current store = .ok () ∧ record =
          { nodeId := lease.nodeId, owner := some lease.owner, fence := lease.fence
            status := status, resultDigest := resultDigest, errorCode := errorCode
            errorDigest := errorDigest, completedAt := answered
            executionId := current.state.executionId } := by
  simp only [classifyTerminalReadback, bind_eq_ok, refuse_eq_ok, not_not]
  constructor
  · rintro ⟨current, read, _, fence, done⟩
    split at done
    case isTrue same =>
      simp only [bind_eq_ok, refuse_eq_ok, pure_eq_ok, not_or, not_not, not_and] at done
      obtain ⟨_, ⟨digest, code, errors, execution⟩, _, stored, _, _, rfl⟩ := done
      exact ⟨current, read, fence, same, digest, code, errors, execution, stored, rfl⟩
    case isFalse => split_ifs at done
  · rintro ⟨current, read, fence, same, digest, code, errors, execution, stored, rfl⟩
    refine ⟨current, read, (), fence, ?_⟩
    rw [if_pos same]
    simp only [bind_eq_ok, refuse_eq_ok, pure_eq_ok, not_or, not_not, not_and]
    exact ⟨(), ⟨digest, code, errors, execution⟩, (), stored, (),
      terminalRecord_check.mpr ⟨by simp [lease.owner_valid], lease.fence_positive⟩, trivial⟩

theorem completeReadback_eq_ok (unleased : request.lease = none) :
    completeReadback answered request target report store = .ok record ↔
      ∃ current, store.readNode target.graphId target.nodeId = .ok current ∧
        current.state.status = .succeeded ∧ current.state.resultDigest = some request.resultDigest ∧
        current.state.executionId = request.executionId ∧ 1 ≤ current.state.fence ∧ record =
          { nodeId := target.nodeId, owner := none, fence := current.state.fence
            status := .succeeded, resultDigest := some request.resultDigest
            errorCode := none, errorDigest := none, completedAt := answered
            executionId := current.state.executionId } := by
  simp only [completeReadback, unleased, bind_eq_ok]
  constructor
  · rintro ⟨current, read, done⟩
    split at done
    case isTrue same =>
      simp only [bind_eq_ok, pure_eq_ok] at done
      obtain ⟨_, checked, rfl⟩ := done
      exact ⟨current, read, same.1, same.2.1, same.2.2, (terminalRecord_check.mp checked).2, rfl⟩
    case isFalse => cases done
  · rintro ⟨current, read, status, digest, execution, fence, rfl⟩
    refine ⟨current, read, ?_⟩
    rw [if_pos ⟨status, digest, execution⟩]
    simp only [bind_eq_ok, pure_eq_ok]
    exact ⟨(), terminalRecord_check.mpr ⟨by simp, fence⟩, trivial⟩

theorem failReadback_eq_ok (unleased : request.lease = none) :
    failReadback answered request target report store = .ok record ↔
      ∃ current, store.readNode target.graphId target.nodeId = .ok current ∧
        current.state.status = .failed ∧ current.state.executionId = request.executionId ∧
        current.state.errorCode = some request.errorCode ∧
        current.state.errorDigest = some request.errorDigest ∧
        current.state.errorOrigin = some request.errorOrigin ∧
        current.state.safeErrorDetails.same request.details = true ∧
        ¬fenceUnexpected request.expectedFence current.state.fence ∧ 1 ≤ current.state.fence ∧
        record =
          { nodeId := target.nodeId, owner := none, fence := current.state.fence
            status := .failed, resultDigest := none
            errorCode := some request.errorCode
            errorDigest := some request.errorDigest, completedAt := answered
            executionId := current.state.executionId } := by
  simp only [failReadback, unleased, bind_eq_ok]
  constructor
  · rintro ⟨current, read, done⟩
    split at done
    case isTrue same =>
      obtain ⟨status, execution, code, digest, origin, details, expected⟩ := same
      simp only [bind_eq_ok, pure_eq_ok] at done
      obtain ⟨_, checked, rfl⟩ := done
      exact ⟨current, read, status, execution, code, digest, origin, details, expected,
        (terminalRecord_check.mp checked).2, rfl⟩
    case isFalse => cases done
  · rintro ⟨current, read, status, execution, code, digest, origin, details, expected, fence, rfl⟩
    refine ⟨current, read, ?_⟩
    rw [if_pos ⟨status, execution, code, digest, origin, details, expected⟩]
    simp only [bind_eq_ok, pure_eq_ok]
    exact ⟨(), terminalRecord_check.mpr ⟨by simp, fence⟩, trivial⟩

end TaskRepository

end Linktools.Persistence
