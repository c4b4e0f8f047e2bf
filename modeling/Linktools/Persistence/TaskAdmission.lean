import Linktools.Persistence.TaskTransitions

namespace Linktools.Persistence

open Linktools.Core Library Linktools.Task

def expansionError (graphId sourceNodeId reason : String)
    (conflict : Option String := none) : Raised :=
  .ai .taskDagInvalid <|
    [("phase", .str "task_graph_expansion"), ("reason", .str reason),
      ("graph_id", .str graphId), ("source_node_id", .str sourceNodeId)] ++
    match conflict with
    | some conflict => [("conflict", .str conflict)]
    | none => []

/-- Names an error of the extended graph as an error of the expansion. -/
def asExpansionError (graphId sourceNodeId : String) : Raised → Raised
  | .ai _ details =>
    expansionError graphId sourceNodeId <|
      match (details.get "reason").bind JsonValue.string? with
      | some reason => reason
      | none => "limits_exceeded"
  | .valueError message => .valueError message
  | .recursionError => .recursionError

def validateExtended (graph : TaskGraph) (ordered : List TaskNode)
    (limits : TaskGraphLimits) : Except Raised Unit := do
  let extended ← TaskGraph.build graph.graphId (graph.nodes ++ ordered)
  extended.validateLimits limits

def validateExpansion (graph : TaskGraph) (sourceNodeId : String)
    (expandedNodes : List TaskNode) (limits : TaskGraphLimits) : Except Raised (List TaskNode) := do
  let raised (reason : String) (conflict : Option String) :=
    expansionError graph.graphId sourceNodeId reason conflict
  let source ← orRaise (rowAt TaskNode.nodeId graph.nodes sourceNodeId)
    (raised "source_missing" none)
  refuse (source.expander = none ∧ expandedNodes ≠ []) (raised "source_has_no_expander" none)
  let existingIds := graph.nodes.map TaskNode.nodeId
  let expandedIds := expandedNodes.map TaskNode.nodeId
  refuse (¬expandedIds.Nodup) (raised "duplicate_node_id" none)
  let conflict := expandedIds.find? fun nodeId => nodeId ∈ existingIds
  refuse (conflict ≠ none) (raised "node_id_conflict" conflict)
  let missing := (expandedNodes.flatMap TaskNode.dependencies).find?
    fun dependency => dependency ∉ existingIds ++ expandedIds
  refuse (missing ≠ none) (raised "dependency_unknown" missing)
  let ordered := sortedByNodeId expandedNodes
  match validateExtended graph ordered limits with
  | .ok () => return ordered
  | .error error => throw (asExpansionError graph.graphId sourceNodeId error)

def initialNodeFields (node : TaskNode) (statuses : String → TaskStatus) : TaskNodeFields :=
  let status := if node.dependencies ≠ [] then .pending
    else node.dependencyStatus statuses
  { status := status
    errorCode := if status = .blocked then
      some ErrorCode.taskDependencyFailed.value else none }

def initialNode (statuses : String → TaskStatus) (node : TaskNode) : Except Raised NodeEntry := do
  let state ← TaskNodeState.build (initialNodeFields node statuses)
  return ⟨node, state⟩

def sortedEntries (entries : List NodeEntry) : List NodeEntry :=
  entries.insertionSort fun left right => left.nodeId ≤ right.nodeId

namespace TaskRepository

variable (repo : TaskRepository) (clock : Clock)

structure Complete where
  lease : Option TaskLease
  tenantId : String
  executionId : Option String
  resultDigest : String
  graphId : Option String := none
  nodeId : Option String := none
  expandedNodes : List TaskNode := []
  expectedFence : Option Int := none

def terminalTarget (lease : Option TaskLease) (tenantId : String)
    (graphId nodeId : Option String) : Except Raised TargetNode :=
  match lease with
  | none => do
    refuse (absentOrBlank graphId ∨ absentOrBlank nodeId) (.ai .requestFieldInvalid)
    return ⟨graphId.getD "", nodeId.getD ""⟩
  | some lease => do
    validateTaskLeaseScope lease tenantId
    refuse (∃ given ∈ graphId, given ≠ lease.graphId) .integrity
    refuse (∃ given ∈ nodeId, given ≠ lease.nodeId) .integrity
    return ⟨lease.graphId, lease.nodeId⟩

def requireRecordedCompletion (request : Complete) (node : TaskNodeState) : Except Raised Unit :=
  let unnamed := node.executionId = none ∨ request.executionId ≠ node.executionId
  if node.status = .waiting ∨ node.status = .ready then
    refuse (unnamed ∨ node.owner ≠ none ∨ node.leaseExpiresAt ≠ none ∨
        (node.status = .ready ∧ request.expectedFence = none) ∨
        fenceUnexpected request.expectedFence node.fence)
      (.ai .taskFenceStale)
  else if node.status = .running ∧ request.expectedFence ≠ none then
    refuse (unnamed ∨ fenceUnexpected request.expectedFence node.fence ∨
      node.owner = none ∨ node.leaseExpiresAt = none) (.ai .taskFenceStale)
  else if node.status = .recoveryRequired then
    refuse (request.expectedFence ≠ some (node.fence : Int) ∨ unnamed) (.ai .taskFenceStale)
  else throw (.ai .taskFenceStale)

def completionExecutionId (request : Complete) (node : TaskNodeState) :
    Except Raised (Option String) :=
  match request.lease with
  | some lease => do
    requireLiveTaskLease node lease clock.now
    resolveTaskExecutionId node.executionId request.executionId
  | none => do
    requireRecordedCompletion request node
    return node.executionId

/-- The answer of `complete` on a node that is terminal already. -/
def completeAgain (request : Complete) (before : TaskEventState)
    (node : NodeEntry) (currentResult : Option TaskResultRecord) :
    Except Raised TaskTerminalRecord := do
  refuse (∃ lease ∈ request.lease, node.state.fence ≠ lease.fence) (.ai .taskFenceStale)
  refuse (fenceUnexpected request.expectedFence node.state.fence) (.ai .taskFenceStale)
  refuse (node.status ≠ .succeeded) (.ai .taskTerminalConflict)
  refuse (node.state.resultDigest ≠ some request.resultDigest ∨
      (request.executionId ≠ none ∧ node.state.executionId ≠ request.executionId))
    (.ai .taskResultConflict)
  let result ← orRaise currentResult .integrity
  refuse (some result.executionId ≠ node.state.executionId) (.ai .taskResultConflict)
  refuse (request.expandedNodes ≠ [] ∧
      ∀ source ∈ rowAt TaskNode.nodeId before.graph.nodes node.nodeId, source.expander = none)
    (expansionError before.graph.graphId node.nodeId "source_has_no_expander")
  let record : TaskTerminalRecord :=
    { nodeId := node.nodeId, owner := request.lease.map TaskLease.owner
      fence := node.state.fence, status := .succeeded
      resultDigest := some request.resultDigest, errorCode := none
      errorDigest := none, completedAt := clock.fresh
      executionId := node.state.executionId }
  record.check
  return record

/-- The first rows of the added nodes.  The source creates them in topological
order, but a row depends on others only when the node has no dependencies. -/
def addedEntries (before : TaskEventState) (source : NodeEntry)
    (added : List TaskNode) : Except Raised (List NodeEntry) :=
  added.mapM (initialNode
    (statusIn (rowAt NodeEntry.nodeId (replaceNode before.nodeStates source))))

def completionState (request : Complete) (nodeId : String)
    (records : TaskGraphRecords) : Except Raised TaskEventState :=
  if request.expandedNodes ≠ [] then records.eventState
  else records.terminalState nodeId

def validatedExpansion (request : Complete) (nodeId : String)
    (records : TaskGraphRecords) (before : TaskEventState) : Except Raised (List TaskNode) :=
  if request.expandedNodes ≠ [] then do
    let graph ← TaskGraph.build records.graphId before.graph.nodes
    validateExpansion graph nodeId request.expandedNodes records.admission.limits
  else .ok []

def completionStatus (request : Complete) (afterStates : List NodeEntry)
    (nextNodes : List TaskNode) : Except Raised TaskStatus :=
  if request.expandedNodes ≠ [] then isolatedGraphStatus afterStates nextNodes
  else .ok (aggregateGraphStatus afterStates (failurePoliciesOf nextNodes))

def writeCompletion (request : Complete) (nodeId : String)
    (records : TaskGraphRecords) (before : TaskEventState) (node : NodeEntry)
    (resolved : Option String) (added : List TaskNode) :
    Except Raised (TaskTerminalRecord × TaskGraphRecords) := do
  let nextNodes := sortedByNodeId (before.graph.nodes ++ added)
  let source ← NodeEntry.replace node (node.state.succeeded request.resultDigest resolved)
  let addedStates ← addedEntries before source added
  let afterStates := replaceNode before.nodeStates source ++ addedStates
  let afterStatus ← completionStatus request afterStates nextNodes
  let drafts ← taskCompletionEventDrafts before
    ⟨⟨records.graphId, afterStatus, nextNodes⟩, afterStates⟩ nodeId
    (added.map TaskNode.nodeId)
  refuse (records.resultAt nodeId ≠ none) .integrity
  let executionId ← orRaise resolved .integrity
  let result : TaskResultRecord :=
    ⟨records.graphId, nodeId, request.resultDigest, executionId⟩
  result.check
  let written ← appendTaskEvents clock
    { records with
      nodes := sortedEntries afterStates
      status := afterStatus
      results := records.results ++ [result] } drafts
  let record : TaskTerminalRecord :=
    { nodeId := nodeId, owner := request.lease.map TaskLease.owner
      fence := source.state.fence, status := .succeeded
      resultDigest := some request.resultDigest, errorCode := none
      errorDigest := none, completedAt := clock.fresh, executionId := resolved }
  record.check
  return (record, written)

def completeIn (request : Complete) (nodeId : String)
    (records : TaskGraphRecords) : Except Raised (TaskTerminalRecord × TaskGraphRecords) := do
  refuse (records.entryAt nodeId = none) (.ai .taskFenceStale)
  let before ← completionState request nodeId records
  let node ← orRaise (rowAt NodeEntry.nodeId before.nodeStates nodeId) (.ai .taskFenceStale)
  let currentResult := records.resultAt nodeId
  refuse (∃ result ∈ currentResult, result.graphId ≠ records.graphId ∨ result.nodeId ≠ nodeId ∨
      some result.resultDigest ≠ node.state.resultDigest ∨
      some result.executionId ≠ node.state.executionId) .integrity
  if node.status.Terminal then do
    let record ← completeAgain clock request before node currentResult
    return (record, records)
  else do
    let resolved ← completionExecutionId clock request node.state
    let added ← validatedExpansion request nodeId records before
    writeCompletion clock request nodeId records before node resolved added

def complete (request : Complete) (store : Store) : Except Raised (TaskTerminalRecord × Store) := do
  repo.requireTenant request.tenantId
  refuse (isSha256 request.resultDigest = false) (.ai .requestFieldInvalid)
  let target ← terminalTarget request.lease request.tenantId request.graphId request.nodeId
  store.onGraph target.graphId (.ai .taskFenceStale) (completeIn clock request target.nodeId)

structure Fail where
  lease : Option TaskLease
  tenantId : String
  errorCode : String
  errorDigest : String
  errorOrigin : ErrorOrigin := .node
  safeErrorDetails : Option JsonMapping := none
  executionId : Option String := none
  graphId : Option String := none
  nodeId : Option String := none
  expectedFence : Option Int := none

def Fail.details (request : Fail) : JsonMapping :=
  request.safeErrorDetails.getD []

def requireRecordedFailure (request : Fail) (node : TaskNodeState) : Except Raised Unit :=
  let unnamed := node.executionId = none ∨ request.executionId ≠ node.executionId
  if request.expectedFence = none then
    refuse (node.status ≠ .waiting ∨ unnamed ∨ node.owner ≠ none ∨
      node.leaseExpiresAt ≠ none) (.ai .taskFenceStale)
  else
    refuse ((node.status ≠ .waiting ∧ node.status ≠ .ready ∧
          node.status ≠ .running ∧ node.status ≠ .recoveryRequired) ∨
        fenceUnexpected request.expectedFence node.fence ∨ unnamed ∨
        (node.status ≠ .running ∧ (node.owner ≠ none ∨ node.leaseExpiresAt ≠ none)) ∨
        (node.status = .running ∧ (node.owner = none ∨ node.leaseExpiresAt = none)))
      (.ai .taskFenceStale)

def failureExecutionId (request : Fail) (node : TaskNodeState) : Except Raised (Option String) :=
  match request.lease with
  | some lease => do
    requireLiveTaskLease node lease clock.now
    resolveTaskExecutionId node.executionId request.executionId
  | none => do
    requireRecordedFailure request node
    return node.executionId

def failAgain (request : Fail) (node : NodeEntry) : Except Raised TaskTerminalRecord := do
  refuse (∃ lease ∈ request.lease, node.state.fence ≠ lease.fence) (.ai .taskFenceStale)
  refuse (fenceUnexpected request.expectedFence node.state.fence) (.ai .taskFenceStale)
  refuse (node.status ≠ .failed) (.ai .taskTerminalConflict)
  refuse (node.state.errorCode ≠ some request.errorCode ∨
      node.state.errorDigest ≠ some request.errorDigest ∨
      node.state.errorOrigin ≠ some request.errorOrigin ∨
      node.state.safeErrorDetails.same request.details = false ∨
      (request.executionId ≠ none ∧ node.state.executionId ≠ request.executionId))
    (.ai .taskResultConflict)
  let record : TaskTerminalRecord :=
    { nodeId := node.nodeId, owner := request.lease.map TaskLease.owner
      fence := node.state.fence, status := .failed, resultDigest := none
      errorCode := some request.errorCode
      errorDigest := some request.errorDigest, completedAt := clock.fresh
      executionId := node.state.executionId }
  record.check
  return record

def failIn (request : Fail) (nodeId : String) (records : TaskGraphRecords) :
    Except Raised (TaskTerminalRecord × TaskGraphRecords) := do
  refuse (records.entryAt nodeId = none) (.ai .taskFenceStale)
  let before ← records.terminalState nodeId
  let node ← orRaise (rowAt NodeEntry.nodeId before.nodeStates nodeId) (.ai .taskFenceStale)
  if node.status.Terminal then do
    let record ← failAgain clock request node
    return (record, records)
  else do
    let resolved ← failureExecutionId clock request node.state
    let value ← NodeEntry.replace node
      (node.state.failed request.errorCode request.errorDigest resolved
        request.errorOrigin request.details)
    let afterStates := replaceNode before.nodeStates value
    let afterStatus := aggregateGraphStatus afterStates (failurePoliciesOf before.graph.nodes)
    let after : TaskEventState :=
      ⟨⟨records.graphId, afterStatus, before.graph.nodes⟩, afterStates⟩
    let drafts ← taskCompletionEventDrafts before after nodeId []
    let written ← appendTaskEvents clock
      { records with nodes := afterStates, status := afterStatus } drafts
    let record : TaskTerminalRecord :=
      { nodeId := nodeId, owner := request.lease.map TaskLease.owner
        fence := value.state.fence, status := .failed, resultDigest := none
        errorCode := some request.errorCode
        errorDigest := some request.errorDigest, completedAt := clock.fresh
        executionId := resolved }
    record.check
    return (record, written)

def fail (request : Fail) (store : Store) : Except Raised (TaskTerminalRecord × Store) := do
  repo.requireTenant request.tenantId
  refuse (∃ fence ∈ request.expectedFence, fence < 1) (.ai .requestFieldInvalid)
  refuse (request.errorOrigin = .execution ∧ request.details ≠ []) (.ai .requestFieldInvalid)
  let target ← terminalTarget request.lease request.tenantId request.graphId request.nodeId
  store.onGraph target.graphId (.ai .taskFenceStale) (failIn clock request target.nodeId)

end TaskRepository

namespace Store

def operationAt (store : Store) (operationId : String) : Option OperationLedgerRecord :=
  rowAt (fun record => record.operationId) store.operations operationId

def setSubmission (store : Store) (ref : TaskSubmissionRef) (state : SubmissionState) : Store :=
  { store with
    submissions := Function.update store.submissions ref.graphId (some (ref, state)) }

def setPayload (store : Store) (graphId : String) (payload : Option TaskGraphSubmission) : Store :=
  { store with payloads := Function.update store.payloads graphId payload }

end Store

namespace TaskRepository

variable (repo : TaskRepository) (clock : Clock)

def graphStatusDigest (graphId : String) (status : TaskStatus) : String :=
  repo.sha256.digest (.obj [("graph_id", .str graphId), ("status", .str status.value)])

def validateOperationIdentity (operation : OperationLedgerRecord)
    (admission : TaskGraphAdmission) : Except Raised Unit :=
  refuse (operation.operationId ≠ admission.operationId ∨ operation.tenantId ≠ repo.tenantId ∨
    operation.resourceKind ≠ .taskGraph ∨ operation.resourceId ≠ admission.graphId ∨
    operation.executionId ≠ none ∨ operation.operationKind ≠ .taskNode ∨
    operation.compactable = true) .integrity

def validateSucceededOperation (operation : OperationLedgerRecord)
    (graph : TaskGraph) : Except Raised Unit :=
  refuse (operation.status ≠ .succeeded ∨ operation.resultRef ≠ some graph.graphId ∨
    (∀ digest ∈ operation.resultDigest, isSha256 digest = false) ∨
    operation.errorCode ≠ none) .integrity

/-- The admitted graph as it stands, once its ledger entry is found in order. -/
def requireCommittedAdmission (store : Store) (records : TaskGraphRecords) :
    Except Raised TaskGraphView := do
  let existing := records.admission
  let graph ← TaskGraph.build records.graphId records.definitions
  let status ← effectiveGraphStatus ⟨records.graphId, records.status, graph.nodes⟩ records.nodes
  let operation ← orRaise (store.operationAt existing.operationId) .integrity
  repo.validateOperationIdentity operation existing
  refuse (operation.requestDigest ≠ existing.initialRequestDigest) .integrity
  validateSucceededOperation operation graph
  return ⟨records.graphId, status, graph.nodes⟩

def submissionInTransaction (store : Store) (submission : TaskSubmissionRef) :
    Except Raised (Option SubmissionState) := do
  refuse (submission.namespaceId ≠ repo.namespaceId ∨
    submission.tenantId ≠ repo.tenantId) (.ai .storageOwnerMismatch)
  match store.submissions submission.graphId with
  | none => return none
  | some (stored, state) => do
    refuse (stored.namespaceId ≠ repo.namespaceId ∨ stored.tenantId ≠ repo.tenantId ∨
      stored.graphId ≠ submission.graphId) .integrity
    if stored = submission then
      return some state
    else if stored.operationId ≠ submission.operationId then
      match store.graphs submission.graphId with
      | some records => do
        let _ ← repo.requireCommittedAdmission store records
        throw (.ai .storageConflict)
      | none => throw (.ai .idempotencyConflict)
    else throw (.ai .idempotencyConflict)

/-- Decoding the payload builds the submission again, with its checks. -/
def decodePayload (store : Store) (graphId : String) : Except Raised TaskGraphSubmission := do
  let stored ← orRaise (store.payloads graphId) .integrity
  stored.check repo.sha256
  return stored

def preparedSubmission (store : Store) (head : SubmissionState)
    (candidate : TaskGraphSubmission) : Except Raised TaskGraphSubmission :=
  if head ≠ .prepared then .ok candidate
  else do
    let stored ← repo.decodePayload store candidate.graph.graphId
    refuse (stored.ref ≠ candidate.ref) .integrity
    return stored

def prepareWithDisposition (submission : TaskGraphSubmission) (store : Store) :
    Except Raised ((TaskGraphSubmission × Bool) × Store) := do
  submission.check repo.sha256
  let head ← repo.submissionInTransaction store submission.ref
  match head with
  | none => do
    let graphId := submission.graph.graphId
    refuse (store.graphs graphId ≠ none ∨ store.payloads graphId ≠ none ∨
      store.operationAt submission.admission.operationId ≠ none) .integrity
    return ((submission, true),
      (store.setSubmission submission.ref .prepared).setPayload graphId (some submission))
  | some state => do
    let prepared ← repo.preparedSubmission store state submission
    return ((prepared, false), store)

def createAdmission (admission : TaskGraphAdmission) (graph : TaskGraph)
    (store : Store) : Except Raised (TaskGraphView × Store) := do
  let nodeViews ← graph.nodes.mapM (initialNode fun _ => .pending)
  let status ← isolatedGraphStatus nodeViews graph.nodes
  let records ← appendTaskEvents clock
    { graphId := graph.graphId, status := status, admission := admission
      nodes := sortedEntries nodeViews }
    [{ eventType := .graphAdmitted, status := status }]
  let operation : OperationLedgerInput :=
    { operationId := admission.operationId, tenantId := repo.tenantId
      resourceKind := .taskGraph, resourceId := graph.graphId
      executionId := none, operationKind := .taskNode, status := .succeeded
      requestDigest := admission.initialRequestDigest
      resultRef := some graph.graphId
      resultDigest := some (repo.graphStatusDigest graph.graphId status)
      errorCode := none, compactable := false, createdAt := clock.now
      updatedAt := clock.now }
  let (_, after) ← (store.putGraph records).appendOperation operation
  return (⟨graph.graphId, status, graph.nodes⟩, after)

def sameTaskAdmissionContract (left right : TaskGraphAdmission) : Prop :=
  left.version = right.version ∧ left.graphId = right.graphId ∧ left.principal = right.principal ∧
    (left.limits.maxConcurrency = right.limits.maxConcurrency ∧
      left.limits.maxDepth = right.limits.maxDepth ∧ left.limits.maxNodes = right.limits.maxNodes ∧
      left.limits.maxBudget = right.limits.maxBudget) ∧ left.operationId = right.operationId ∧
    left.initialRequestDigest = right.initialRequestDigest

instance (left right : TaskGraphAdmission) : Decidable (sameTaskAdmissionContract left right) := by
  unfold sameTaskAdmissionContract
  infer_instance

def repairAggregateProjection (records : TaskGraphRecords) (view : TaskGraphView) :
    Except Raised (TaskGraphView × TaskGraphRecords) :=
  if records.status = view.status then .ok (view, records)
  else do
    let after ← appendTaskEvents clock { records with status := view.status }
      (taskGraphEventDrafts records.status view.status)
    return (view, after)

def admitGraph (admission : TaskGraphAdmission) (graph : TaskGraph)
    (alreadyAdmitted : Prop) [Decidable alreadyAdmitted] (store : Store) :
    Except Raised (TaskGraphView × Store) :=
  match store.graphs graph.graphId, store.operationAt admission.operationId with
  | none, none => do
    refuse alreadyAdmitted .integrity
    repo.createAdmission clock admission graph store
  | none, some _ => throw .integrity
  | some records, none => do
    refuse (records.admission.operationId = admission.operationId ∨
      store.operationAt records.admission.operationId = none) .integrity
    let _ ← repo.requireCommittedAdmission store records
    throw (.ai .storageConflict)
  | some records, some operation => do
    refuse (operation.requestDigest ≠ admission.initialRequestDigest) (.ai .idempotencyConflict)
    repo.validateOperationIdentity operation admission
    let view ← repo.requireCommittedAdmission store records
    -- Equal admissions have the same contract.
    refuse (¬sameTaskAdmissionContract records.admission admission) .integrity
    let (view, after) ← repairAggregateProjection clock records view
    return (view, store.putGraph after)

def admitInTransaction (admission : TaskGraphAdmission) (graph : TaskGraph)
    (requirePrepared : Bool) (store : Store) : Except Raised (TaskGraphView × Store) := do
  let submission : TaskGraphSubmission :=
    ⟨repo.namespaceId, admission, graph⟩
  submission.check repo.sha256
  let head ← repo.submissionInTransaction store submission.ref
  match head with
  | none => do
    refuse (requirePrepared = true) (.ai .storageNotFound)
    repo.admitGraph clock admission graph False
      (store.setSubmission submission.ref .admitted)
  | some .prepared => do
    let prepared ← repo.preparedSubmission store .prepared submission
    repo.admitGraph clock prepared.admission prepared.graph False
      ((store.setSubmission submission.ref .admitted).setPayload prepared.graph.graphId none)
  | some .admitted => repo.admitGraph clock admission graph True store
  | some .cancelled =>
    if store.graphs graph.graphId = none then
      return (⟨graph.graphId, .cancelled, []⟩, store)
    else repo.admitGraph clock admission graph False store

def admitSubmission (admission : TaskGraphAdmission) (graph : TaskGraph) (store : Store) :
    Except Raised (TaskGraphView × Store) := do
  admission.validateGraph repo.sha256 graph
  let launch ← admission.launch
  repo.requireTenant launch.principal.tenantId
  repo.admitInTransaction clock admission graph false store

def admitPrepared (submission : TaskGraphSubmission) (store : Store) :
    Except Raised (TaskGraphView × Store) := do
  refuse (submission.namespaceId ≠ repo.namespaceId) (.ai .storageOwnerMismatch)
  submission.admission.validateGraph repo.sha256 submission.graph
  let launch ← submission.admission.launch
  repo.requireTenant launch.principal.tenantId
  repo.admitInTransaction clock submission.admission submission.graph true store

/-- The submission head that a cancellation meets, and the store without the
payload of a prepared submission. -/
def withdrawSubmission (submission : TaskSubmissionRef) (store : Store) : Except Raised Store := do
  let head ← repo.submissionInTransaction store submission
  let admitted := store.graphs submission.graphId ≠ none
  match head with
  | none | some .cancelled => return store.setSubmission submission .cancelled
  | some .admitted => do
    refuse (¬admitted) .integrity
    return store.setSubmission submission .cancelled
  | some .prepared => do
    refuse admitted .integrity
    let prepared ← repo.decodePayload store submission.graphId
    refuse (prepared.ref ≠ submission) .integrity
    return (store.setPayload submission.graphId none).setSubmission submission .cancelled

def cancelSubmission (submission : TaskSubmissionRef)
    (operation : OperationLedgerInput) (store : Store) : Except Raised (Bool × Store) := do
  refuse (operation.tenantId ≠ repo.tenantId ∨ operation.resourceKind ≠ .taskGraph ∨
      operation.resourceId ≠ submission.graphId ∨
      operation.executionId ≠ none ∨ operation.operationKind ≠ .taskCancel ∨
      operation.status ≠ .pending) (.ai .requestFieldInvalid)
  let withdrawn ← repo.withdrawSubmission submission store
  let admitted : Bool := (store.graphs submission.graphId).isSome
  let pending : OperationLedgerInput :=
    if admitted then operation
    else { operation with
      status := .succeeded
      resultRef := some submission.graphId
      resultDigest :=
        some (repo.graphStatusDigest submission.graphId .cancelled) }
  let (_, after) ← withdrawn.appendOperation pending
  return (admitted, after)

def registerCancelRequest (operation : OperationLedgerInput) (store : Store) :
    Except Raised ((OperationLedgerRecord × Bool) × Store) := do
  repo.requireTenant operation.tenantId
  refuse (operation.resourceKind ≠ .taskGraph ∨
      operation.operationKind ≠ .taskCancel ∨ operation.status ≠ .pending)
    (.ai .requestFieldInvalid)
  refuse (store.graphs operation.resourceId = none) (.ai .storageNotFound)
  store.appendOperation operation

/-- The ledger's `compare_and_swap`, which settles a registered operation. -/
def compareAndSwap (operationId tenantId : String)
    (expectedStatus : OperationStatus) (nextRecord : OperationLedgerRecord)
    (store : Store) : Except Raised (OperationLedgerRecord × Store) := do
  repo.requireTenant tenantId
  repo.requireTenant nextRecord.tenantId
  let current ← orRaise (store.operationAt operationId) (.ai .storageConflict)
  refuse (current.status ≠ expectedStatus) (.ai .storageConflict)
  refuse ((current.status = .succeeded ∨ current.status = .failed ∨
      current.status = .cancelled) ∧ nextRecord.status ≠ expectedStatus)
    (.ai .storageConflict)
  refuse (¬operationCasImmutableMatches current nextRecord) (.ai .storageConflict)
  return (nextRecord,
    { store with
      operations := rewriteAt (fun record => record.operationId) store.operations
        operationId nextRecord })

/-- The ledger's own `append`. -/
def append (value : OperationLedgerInput) (store : Store) :
    Except Raised (OperationLedgerRecord × Store) := do
  repo.requireTenant value.tenantId
  let ((record, _), after) ← store.appendOperation value
  return (record, after)

def compactableThrough (resourceKind : ResourceKind) (resourceId : String)
    (throughSequence : Int) (operation : OperationLedgerRecord) : Prop :=
  operation.resourceKind = resourceKind ∧ operation.resourceId = resourceId ∧
    (operation.status = .succeeded ∨ operation.status = .failed ∨ operation.status = .cancelled) ∧
    operation.compactable = true ∧ (operation.sequence : Int) ≤ throughSequence

instance (resourceKind : ResourceKind) (resourceId : String) (throughSequence : Int) :
    DecidablePred (compactableThrough resourceKind resourceId throughSequence) :=
  fun operation => by
    unfold compactableThrough
    infer_instance

/-- The ledger's `compact_terminal`, which deletes all candidates but the last. -/
def compactTerminal (resourceKind : ResourceKind) (resourceId tenantId : String)
    (throughSequence : Int) (store : Store) :
    Except Raised (List OperationLedgerRecord × Store) := do
  repo.requireTenant tenantId
  let candidates := store.operations.filter fun operation =>
    compactableThrough resourceKind resourceId throughSequence operation
  if candidates.length ≤ 1 then
    return ([], store)
  else
    let anchor := (candidates.map fun operation => operation.sequence).foldr max 0
    let doomed (operation : OperationLedgerRecord) : Bool :=
      compactableThrough resourceKind resourceId (anchor - 1) operation
    let (deleted, kept) := store.operations.partition doomed
    return (deleted, { store with operations := kept })

end TaskRepository

end Linktools.Persistence
