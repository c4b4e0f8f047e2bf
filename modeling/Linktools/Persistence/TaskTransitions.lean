import Linktools.Persistence.TaskReconcile

namespace Linktools.Persistence

open Linktools.Core Library Linktools.Task

/-! Event drafts, computed from what the rows were and are, and their append. -/

def nodeChangedDraft (nodeId : String) (before after : TaskNodeState) : TaskEventDraft where
  eventType := .nodeChanged
  status := after.status
  previousStatus := some before.status
  nodeId := some nodeId
  owner := after.owner
  fence := after.fence
  executionId := after.executionId
  resultDigest := after.resultDigest
  errorCode := after.errorCode
  errorDigest := after.errorDigest

def taskNodeEventDrafts (nodeId : String) (before after : TaskNodeState) : List TaskEventDraft :=
  if before.SameObserved after.toTaskNodeFields then []
  else [nodeChangedDraft nodeId before after]

def taskGraphEventDrafts (before after : TaskStatus) : List TaskEventDraft :=
  if before = after then []
  else [{ eventType := .graphChanged, status := after, previousStatus := some before }]

/-- The node drafts of a table whose rows have been replaced one by one. -/
def nodeTableDrafts (before after : List NodeEntry) : List TaskEventDraft :=
  (before.zip after).flatMap fun (current, value) =>
    taskNodeEventDrafts current.nodeId current.state value.state

def graphExpandedDraft (status : TaskStatus) (sourceNodeId : String)
    (addedNodeIds : List String) : TaskEventDraft where
  eventType := .graphExpanded
  status := status
  sourceNodeId := some sourceNodeId
  addedNodeIds := addedNodeIds

def expansionDrafts (status : TaskStatus) (sourceNodeId : String)
    (addedNodeIds : List String) : List TaskEventDraft :=
  if addedNodeIds = [] then []
  else [graphExpandedDraft status sourceNodeId addedNodeIds]

def rowDrafts (before after : List NodeEntry) (nodeId : String) : List TaskEventDraft :=
  match rowAt NodeEntry.nodeId before nodeId, rowAt NodeEntry.nodeId after nodeId with
  | some current, some value =>
    taskNodeEventDrafts nodeId current.state value.state
  | _, _ => []

def taskCompletionEventDrafts (before after : TaskEventState)
    (sourceNodeId : String) (addedNodeIds : List String) : Except Raised (List TaskEventDraft) := do
  let beforeNodes := before.nodeStates
  let afterNodes := after.nodeStates
  refuse (∃ node ∈ beforeNodes, node.nodeId ∉ afterNodes.map NodeEntry.nodeId) .integrity
  let sourceBefore ← orRaise (rowAt NodeEntry.nodeId beforeNodes sourceNodeId) .integrity
  let sourceAfter ← orRaise (rowAt NodeEntry.nodeId afterNodes sourceNodeId) .integrity
  refuse (∃ node ∈ afterNodes, node.nodeId ∉ beforeNodes.map NodeEntry.nodeId ∧
    node.nodeId ∉ addedNodeIds) .integrity
  let others := (beforeNodes.map NodeEntry.nodeId).insertionSort (· ≤ ·)
  return taskNodeEventDrafts sourceNodeId sourceBefore.state sourceAfter.state ++
    expansionDrafts after.graph.status sourceNodeId addedNodeIds ++ (others.flatMap fun nodeId =>
      if nodeId = sourceNodeId then []
      else rowDrafts beforeNodes afterNodes nodeId) ++
    taskGraphEventDrafts before.graph.status after.graph.status

def stampEvents (graphId : String) (occurredAt : Time) : Nat → List TaskEventDraft → List TaskEvent
  | _, [] => []
  | sequence, draft :: drafts =>
    { draft with
      graphId := graphId
      eventSeq := sequence
      occurredAt := occurredAt } ::
      stampEvents graphId occurredAt (sequence + 1) drafts

def appendTaskEvents (clock : Clock) (records : TaskGraphRecords)
    (drafts : List TaskEventDraft) : Except Raised TaskGraphRecords :=
  if drafts = [] then .ok records
  else do
    let finalSequence := records.eventSequence + drafts.length
    let events := stampEvents records.graphId clock.now (finalSequence - drafts.length + 1) drafts
    events.forM TaskEvent.check
    return { records with
      events := records.events ++ events
      eventSequence := finalSequence }

variable {graphId nodeId : String} {occurredAt : Time} {sequence : Nat}
  {drafts : List TaskEventDraft}

theorem map_draft_stampEvents : (stampEvents graphId occurredAt sequence drafts).map
      TaskEvent.toTaskEventDraft = drafts := by
  induction drafts generalizing sequence with
  | nil => rfl
  | cons draft drafts ih => simp only [stampEvents, List.map_cons, ih]

theorem map_eventSeq_stampEvents :
    (stampEvents graphId occurredAt sequence drafts).map TaskEvent.eventSeq =
      List.range' sequence drafts.length := by
  induction drafts generalizing sequence with
  | nil => rfl
  | cons draft drafts ih =>
    simp only [stampEvents, List.map_cons, ih, List.length_cons, List.range'_succ]

theorem appendTaskEvents_eq_ok :
    appendTaskEvents clock records drafts = .ok after ↔
      (∀ event ∈ stampEvents records.graphId clock.now
          (records.eventSequence + 1) drafts, event.check = .ok ()) ∧
      after = { records with
        events := records.events ++ stampEvents records.graphId clock.now
          (records.eventSequence + 1) drafts
        eventSequence := records.eventSequence + drafts.length } := by
  unfold appendTaskEvents
  split
  case isTrue empty =>
    subst empty
    simp only [stampEvents, List.not_mem_nil, false_implies, implies_true,
      true_and, List.append_nil, List.length_nil, add_zero, Except.ok.injEq]
    exact eq_comm
  case isFalse =>
    simp only [bind_eq_ok, pure_eq_ok, Nat.add_sub_cancel]
    constructor
    · rintro ⟨_, checked, rfl⟩
      exact ⟨forM_eq_ok.mp checked, rfl⟩
    · rintro ⟨checked, rfl⟩
      exact ⟨⟨⟩, forM_eq_ok.mpr checked, rfl⟩

variable {event : TaskEvent} {after before : TaskNodeState}

theorem reportable_of_checked (checked : event.check = .ok ())
    (drafted : event.toTaskEventDraft = nodeChangedDraft nodeId before after) :
    after.Reportable := by
  simp only [TaskEvent.check, bind_eq_ok, drafted] at checked
  obtain ⟨_, _, _, _, _, _, _, _, _, _, _, _, _, _, _, _, validated⟩ := checked
  simp only [TaskEventDraft.validate, nodeChangedDraft,
    TaskEventDraft.validateNodeChanged, bind_eq_ok] at validated
  obtain ⟨_, _, _, _, _, _, _, _, _, _, state⟩ := validated
  unfold TaskEventDraft.validateNodeStateFields at state
  unfold TaskNodeFields.Reportable
  cases status : after.status <;>
    simp only [status, refuse_eq_ok, not_or, not_not, ne_eq, not_lt] at state ⊢ <;>
    grind

theorem executionPresent_of_checked (checked : event.check = .ok ())
    (drafted : event.toTaskEventDraft = nodeChangedDraft nodeId before after) :
    ∀ execution ∈ after.executionId, blank execution = false := by
  simp only [TaskEvent.check, bind_eq_ok, drafted] at checked
  obtain ⟨_, _, _, _, _, _, _, _, _, _, _, _, _, _, _, _, validated⟩ := checked
  simp only [TaskEventDraft.validate, nodeChangedDraft,
    TaskEventDraft.validateNodeChanged, bind_eq_ok] at validated
  obtain ⟨_, _, _, _, _, _, _, _, _, present, _⟩ := validated
  simpa using refuse_eq_ok.mp present

def requireLiveTaskLease (node : TaskNodeState) (lease : TaskLease) (now : Time) :
    Except Raised Unit :=
  refuse (node.status ≠ .running ∨ node.owner ≠ some lease.owner ∨
      node.fence ≠ lease.fence ∨ node.leaseExpiresAt = none ∨
      ∃ expires ∈ node.leaseExpiresAt, expires ≤ now)
    (.ai .taskFenceStale)

def validateTaskLeaseScope (lease : TaskLease) (tenantId : String) : Except Raised Unit :=
  refuse (lease.tenantId ≠ tenantId) (.ai .requestFieldInvalid)

def resolveTaskExecutionId (current supplied : Option String) : Except Raised (Option String) :=
  if current = none then .ok supplied
  else if supplied = none ∨ supplied = current then .ok current
  else .error .integrity

def TaskGraphRecords.updateNode (records : TaskGraphRecords) (value : NodeEntry) :
    TaskGraphRecords :=
  { records with
    nodes := rewriteAt NodeEntry.nodeId records.nodes value.nodeId value }

def updateNodeWithEvent (clock : Clock) (records : TaskGraphRecords)
    (current value : NodeEntry) : Except Raised TaskGraphRecords :=
  appendTaskEvents clock (records.updateNode value)
    (taskNodeEventDrafts current.nodeId current.state value.state)

namespace TaskRepository

variable (repo : TaskRepository) (clock : Clock)

def requireTenant (tenantId : String) : Except Raised Unit :=
  refuse (tenantId ≠ repo.tenantId) (.ai .storageOwnerMismatch)

def publishPreparedInputIn (lease : TaskLease) (record : TaskPreparedInputRecord)
    (records : TaskGraphRecords) : Except Raised (TaskPreparedInputRecord × TaskGraphRecords) := do
  let entry ← orRaise (records.entryAt lease.nodeId) (.ai .taskFenceStale)
  refuse (records.admission.graphId ≠ record.graphId ∨
    records.admission.initialRequestDigest ≠ record.admissionDigest ∨
    entry.definition.task ≠ some record.taskRef) .integrity
  requireLiveTaskLease entry.state lease clock.now
  match records.preparedInputAt lease.nodeId with
  | some existing => do
    let reused ← reusePreparedInput existing record
    return (reused, records)
  | none =>
    return (record, { records with preparedInputs := records.preparedInputs ++ [record] })

def publishPreparedInput (lease : TaskLease) (record : TaskPreparedInputRecord)
    (tenantId : String) (store : Store) : Except Raised (TaskPreparedInputRecord × Store) := do
  validateTaskLeaseScope lease tenantId
  repo.requireTenant tenantId
  refuse (record.graphId ≠ lease.graphId ∨ record.nodeId ≠ lease.nodeId ∨
      record.tenantId ≠ tenantId ∨ record.publishedFence ≠ lease.fence)
    (.ai .requestFieldInvalid)
  store.onGraph lease.graphId (.ai .taskFenceStale) (publishPreparedInputIn clock lease record)

def renewIn (lease : TaskLease) (leaseSeconds : Int) (records : TaskGraphRecords) :
    Except Raised (TaskLease × TaskGraphRecords) := do
  let entry ← orRaise (records.entryAt lease.nodeId) (.ai .taskFenceStale)
  requireLiveTaskLease entry.state lease clock.now
  -- The lease transition reads the clock again and wants the lease still live.
  requireLiveTaskLease entry.state lease clock.fresh
  let expires := Time.plusSeconds clock.fresh leaseSeconds
  let value ← NodeEntry.replace entry (entry.state.renewed expires)
  return ({ lease with leaseExpiresAt := expires }, records.updateNode value)

def renew (lease : TaskLease) (tenantId : String) (leaseSeconds : Int)
    (store : Store) : Except Raised (TaskLease × Store) := do
  validateTaskLeaseScope lease tenantId
  repo.requireTenant tenantId
  refuse (validLeaseSeconds leaseSeconds = false) (.ai .requestFieldInvalid)
  store.onGraph lease.graphId (.ai .taskFenceStale) (renewIn clock lease leaseSeconds)

def bindExecutionIn (lease : TaskLease) (executionId : String)
    (records : TaskGraphRecords) : Except Raised (TaskNodeView × TaskGraphRecords) := do
  let node ← orRaise (records.entryAt lease.nodeId) (.ai .taskFenceStale)
  requireLiveTaskLease node.state lease clock.now
  if node.state.executionId ≠ none then
    if node.state.executionId = some executionId then
      return (node.view records.graphId, records)
    else throw (.ai .taskResultConflict)
  else do
    let value ← NodeEntry.replace node (node.state.bound executionId)
    let after ← updateNodeWithEvent clock records node value
    return (value.view records.graphId, after)

def bindExecution (lease : TaskLease) (tenantId executionId : String)
    (store : Store) : Except Raised (TaskNodeView × Store) := do
  validateTaskLeaseScope lease tenantId
  repo.requireTenant tenantId
  refuse (blank executionId = true) (.valueError "execution_id must be a non-empty string")
  store.onGraph lease.graphId (.ai .taskFenceStale) (bindExecutionIn clock lease executionId)

def handoffExecutionIn (lease : TaskLease) (executionId : String)
    (occupiesConcurrency : Bool) (records : TaskGraphRecords) :
    Except Raised (TaskNodeView × TaskGraphRecords) := do
  let node ← orRaise (records.entryAt lease.nodeId) (.ai .taskFenceStale)
  if node.status = .waiting ∧ node.state.executionId = some executionId then do
    refuse (node.state.fence ≠ lease.fence) (.ai .taskFenceStale)
    refuse (node.state.owner ≠ none ∨ node.state.leaseExpiresAt ≠ none) .integrity
    refuse (node.state.occupiesConcurrency ≠ occupiesConcurrency) (.ai .storageConflict)
    return (node.view records.graphId, records)
  else do
    requireLiveTaskLease node.state lease clock.now
    refuse (node.state.executionId ≠ none ∧
      node.state.executionId ≠ some executionId) .integrity
    let value ← NodeEntry.replace node (node.state.handedOff executionId occupiesConcurrency)
    let after ← updateNodeWithEvent clock records node value
    return (value.view records.graphId, after)

def handoffExecution (lease : TaskLease) (tenantId executionId : String)
    (occupiesConcurrency : Bool) (store : Store) : Except Raised (TaskNodeView × Store) := do
  validateTaskLeaseScope lease tenantId
  repo.requireTenant tenantId
  refuse (blank executionId = true) (.valueError "execution_id must be a non-empty string")
  store.onGraph lease.graphId (.ai .taskFenceStale)
    (handoffExecutionIn clock lease executionId occupiesConcurrency)

def maxPendingTaskOperations : Nat := 64

def pendingOperations (store : Store) (graphId : String) : List OperationLedgerRecord :=
  store.operations.filter fun operation =>
    operation.resourceKind = .taskGraph ∧ operation.resourceId = graphId ∧
      (operation.status = .pending ∨ operation.status = .running ∨
        operation.status = .effectUnknown)

def cancelPending (operations : List OperationLedgerRecord) (executionId : Option String) : Prop :=
  ∃ operation ∈ operations, operation.operationKind = .taskCancel ∧
    (operation.executionId = none ∨ operation.executionId = executionId)

instance (operations : List OperationLedgerRecord) (executionId : Option String) :
    Decidable (cancelPending operations executionId) := by
  unfold cancelPending
  infer_instance

def activeNodes (now : Time) (nodes : List NodeEntry) : Nat :=
  nodes.countP fun node => node.state.Active now

def claimIn (graphId nodeId tenantId owner : String) (leaseSeconds : Int)
    (operations : List OperationLedgerRecord) (records : TaskGraphRecords) :
    Except Raised (TaskLease × TaskGraphRecords) := do
  let node ← orRaise (records.entryAt nodeId) (.ai .taskNotReady)
  requireCanonicalGraphStatus records.status
  refuse (records.status.Terminal ∨ records.status = .recoveryRequired) (.ai .taskNotReady)
  refuse (maxPendingTaskOperations < operations.length) (.ai .tooManyPendingOperations)
  refuse (cancelPending operations node.state.executionId) (.ai .taskNotReady)
  refuse (records.graphId ≠ graphId) .integrity
  let definition := node.definition
  refuse (∃ dependency ∈ definition.dependencies,
    records.entryAt dependency = none) (.ai .taskDagInvalid)
  refuse (∃ current ∈ records.nodes, current.status = .running ∧
    (current.state.owner = none ∨ current.state.fence < 1 ∨
      current.state.leaseExpiresAt = none)) .integrity
  refuse (records.admission.limits.maxConcurrency ≤
    activeNodes clock.now records.nodes) (.ai .taskNotReady)
  let expired := ∃ expires ∈ node.state.leaseExpiresAt, expires ≤ clock.now
  refuse (node.status = .running ∧ node.state.owner ≠ none ∧
    node.state.owner ≠ some owner ∧ ¬expired) (.ai .taskOwnerConflict)
  let dependencyStatus := definition.dependencyStatus (statusIn records.entryAt)
  refuse (node.status ≠ .pending ∧ node.status ≠ .ready ∧
    ¬(node.status = .running ∧ expired)) (.ai .taskNotReady)
  refuse (node.status = .ready ∧
    ∃ attempt ∈ node.state.nextAttemptAt, clock.now < attempt) (.ai .taskNotReady)
  refuse (dependencyStatus ≠ .ready) (.ai .taskNotReady)
  let expires := Time.plusSeconds clock.now leaseSeconds
  let value ← NodeEntry.replace node (node.state.claimed owner expires)
  let after ← updateNodeWithEvent clock records node value
  let lease ← TaskLease.build graphId nodeId tenantId owner
    (node.state.fence + 1) expires value.state.executionId
  return (lease, after)

def claim (graphId nodeId tenantId owner : String) (leaseSeconds : Int)
    (store : Store) : Except Raised (TaskLease × Store) := do
  repo.requireTenant tenantId
  refuse (validLeaseOwner owner = false) (.ai .requestFieldInvalid)
  refuse (validLeaseSeconds leaseSeconds = false) (.ai .requestFieldInvalid)
  store.onGraph graphId (.ai .taskNotReady)
    (claimIn clock graphId nodeId tenantId owner leaseSeconds (pendingOperations store graphId))

end TaskRepository

/-- Writes the next rows and the next header, and appends their events.  A row
equal to the current one is not written again, which leaves the same table. -/
def applyGraphTransition (clock : Clock) (records : TaskGraphRecords)
    (before : TaskEventState) (nextNodes : List NodeEntry)
    (nextStatus : TaskStatus) : Except Raised (TaskGraphView × TaskGraphRecords) := do
  refuse (nextNodes.length ≠ before.nodeStates.length) .integrity
  let after ← appendTaskEvents clock
    { records with nodes := nextNodes, status := nextStatus }
    (nodeTableDrafts before.nodeStates nextNodes ++
      taskGraphEventDrafts before.graph.status nextStatus)
  return (⟨before.graph.graphId, nextStatus, before.graph.nodes⟩, after)

def replaceNode (nodes : List NodeEntry) (value : NodeEntry) : List NodeEntry :=
  rewriteAt NodeEntry.nodeId nodes value.nodeId value

namespace TaskRepository

variable (repo : TaskRepository) (clock : Clock)

def replaceAndIsolate (records : TaskGraphRecords) (before : TaskEventState)
    (value : NodeEntry) : Except Raised (TaskGraphView × TaskGraphRecords) := do
  let nextNodes := replaceNode before.nodeStates value
  let nextStatus ← isolatedGraphStatus nextNodes before.graph.nodes
  applyGraphTransition clock records before nextNodes nextStatus

def requeueRetryIn (lease : TaskLease) (executionId : String)
    (nextAttemptAt : Time) (records : TaskGraphRecords) :
    Except Raised (TaskNodeView × TaskGraphRecords) := do
  let before ← records.eventState
  let current ← orRaise (rowAt NodeEntry.nodeId before.nodeStates lease.nodeId)
    (.ai .taskFenceStale)
  requireLiveTaskLease current.state lease clock.now
  refuse (current.state.executionId ≠ some executionId) (.ai .taskResultConflict)
  let value ← NodeEntry.replace current (current.state.retried nextAttemptAt)
  let (_, after) ← replaceAndIsolate clock records before value
  return (value.view records.graphId, after)

def requeueRetry (lease : TaskLease) (tenantId executionId : String)
    (nextAttemptAt : Time) (store : Store) : Except Raised (TaskNodeView × Store) := do
  validateTaskLeaseScope lease tenantId
  repo.requireTenant tenantId
  refuse (blank executionId = true) (.ai .requestFieldInvalid)
  store.onGraph lease.graphId (.ai .taskFenceStale)
    (requeueRetryIn clock lease executionId nextAttemptAt)

def requeueWaitingRetryIn (nodeId : String) (expectedFence : Nat)
    (executionId : String) (nextAttemptAt : Time) (records : TaskGraphRecords) :
    Except Raised (TaskNodeView × TaskGraphRecords) := do
  let before ← records.eventState
  let current ← orRaise (rowAt NodeEntry.nodeId before.nodeStates nodeId) (.ai .taskFenceStale)
  refuse (current.status ≠ .waiting ∨ current.state.fence ≠ expectedFence ∨
      current.state.executionId ≠ some executionId ∨
      current.state.owner ≠ none ∨ current.state.leaseExpiresAt ≠ none)
    (.ai .taskFenceStale)
  let value ← NodeEntry.replace current (current.state.waitingRetried nextAttemptAt)
  let (_, after) ← replaceAndIsolate clock records before value
  return (value.view records.graphId, after)

def requeueWaitingRetry (graphId nodeId tenantId : String) (expectedFence : Int)
    (executionId : String) (nextAttemptAt : Time) (store : Store) :
    Except Raised (TaskNodeView × Store) := do
  repo.requireTenant tenantId
  refuse (blank graphId = true ∨ blank nodeId = true ∨ expectedFence < 1 ∨
    blank executionId = true) (.ai .requestFieldInvalid)
  store.onGraph graphId (.ai .taskFenceStale)
    (requeueWaitingRetryIn clock nodeId expectedFence.toNat executionId nextAttemptAt)

/-- Membership in `_RECOVERY_REQUIRED_CODES`. -/
def recoveryRequiredCodes : List String :=
  [ErrorCode.taskInputProjectionFailed.value, ErrorCode.taskEffectUnknown.value,
    ErrorCode.toolEffectUnknown.value, ErrorCode.storageCommitUnknown.value,
    ErrorCode.storageRecoveryRequired.value, ErrorCode.executionStartUnknown.value]

structure MarkRecoveryRequired where
  lease : Option TaskLease
  tenantId : String
  errorCode : String
  errorDigest : String
  errorOrigin : ErrorOrigin := .node
  safeErrorDetails : Option JsonMapping := none
  executionId : Option String := none
  graphId : Option String := none
  nodeId : Option String := none
  expectedFence : Option Int := none

structure TargetNode where
  graphId : String
  nodeId : String

def absentOrBlank (value : Option String) : Prop :=
  value = none ∨ ∃ text ∈ value, blank text = true

instance : DecidablePred absentOrBlank := fun value => by
  unfold absentOrBlank
  infer_instance

def MarkRecoveryRequired.target (request : MarkRecoveryRequired) : Except Raised TargetNode :=
  match request.lease with
  | none => do
    refuse (absentOrBlank request.graphId ∨ absentOrBlank request.nodeId ∨
      absentOrBlank request.executionId) (.ai .requestFieldInvalid)
    return ⟨request.graphId.getD "", request.nodeId.getD ""⟩
  | some lease => do
    validateTaskLeaseScope lease request.tenantId
    refuse (∃ fence ∈ request.expectedFence, fence ≠ lease.fence) (.ai .taskFenceStale)
    refuse (∃ graphId ∈ request.graphId, graphId ≠ lease.graphId) .integrity
    refuse (∃ nodeId ∈ request.nodeId, nodeId ≠ lease.nodeId) .integrity
    return ⟨lease.graphId, lease.nodeId⟩

def fenceUnexpected (expectedFence : Option Int) (fence : Nat) : Prop :=
  ∃ expected ∈ expectedFence, (fence : Int) ≠ expected

instance (expectedFence : Option Int) (fence : Nat) :
    Decidable (fenceUnexpected expectedFence fence) := by
  unfold fenceUnexpected
  infer_instance

def requireRecoveryTarget (request : MarkRecoveryRequired)
    (current : TaskNodeState) : Except Raised Unit :=
  match request.lease with
  | some lease => requireLiveTaskLease current lease clock.now
  | none =>
    refuse ((current.status ≠ .waiting ∧ current.status ≠ .ready ∧ current.status ≠ .running) ∨
      current.executionId ≠ request.executionId ∨
      ((current.status = .ready ∨ current.status = .running) ∧ request.expectedFence = none) ∨
      fenceUnexpected request.expectedFence current.fence ∨
      (current.status ≠ .running ∧ (current.owner ≠ none ∨ current.leaseExpiresAt ≠ none)) ∨
      (current.status = .running ∧ (current.owner = none ∨ current.leaseExpiresAt = none)))
      (.ai .taskFenceStale)

def markRecoveryRequiredIn (request : MarkRecoveryRequired) (nodeId : String)
    (records : TaskGraphRecords) : Except Raised (TaskNodeView × TaskGraphRecords) := do
  let before ← records.eventState
  let current ← orRaise (rowAt NodeEntry.nodeId before.nodeStates nodeId) (.ai .taskFenceStale)
  if current.status = .recoveryRequired then do
    refuse (∃ lease ∈ request.lease, current.state.fence ≠ lease.fence) (.ai .taskFenceStale)
    refuse (fenceUnexpected request.expectedFence current.state.fence) (.ai .taskFenceStale)
    let resolved ← resolveTaskExecutionId current.state.executionId request.executionId
    if current.state.errorCode = some request.errorCode ∧
        current.state.errorDigest = some request.errorDigest ∧
        current.state.executionId = resolved then
      return (current.view records.graphId, records)
    else throw (.ai .taskResultConflict)
  else do
    requireRecoveryTarget clock request current.state
    let resolved ← resolveTaskExecutionId current.state.executionId request.executionId
    let value ← NodeEntry.replace current
      (current.state.recoveryMarked request.errorCode request.errorDigest resolved
        request.errorOrigin (request.safeErrorDetails.getD []))
    let (_, after) ← replaceAndIsolate clock records before value
    return (value.view records.graphId, after)

def markRecoveryRequired (request : MarkRecoveryRequired) (store : Store) :
    Except Raised (TaskNodeView × Store) := do
  repo.requireTenant request.tenantId
  refuse (request.errorCode ∉ recoveryRequiredCodes ∨
    isSha256 request.errorDigest = false) (.ai .requestFieldInvalid)
  let target ← request.target
  store.onGraph target.graphId (.ai .taskFenceStale)
    (markRecoveryRequiredIn clock request target.nodeId)

def recoverNode (node : NodeEntry) : Except Raised NodeEntry :=
  if node.status = .recoveryRequired ∧
      ¬(node.state.errorCode = some ErrorCode.executionStartUnknown.value ∧
        node.state.errorOrigin = some .execution ∧ node.state.executionId = none ∧
        (node.state.safeErrorDetails.get "reason").bind JsonValue.string? =
          some "claimed_execution_unbound") then
    NodeEntry.replace node node.state.recovered
  else .ok node

def recoverGraphIn (cancelRequested : Bool) (records : TaskGraphRecords) :
    Except Raised (TaskGraphView × TaskGraphRecords) := do
  let before ← records.eventState
  let effective ← effectiveGraphStatus before.graph before.nodeStates
  refuse (effective ≠ .recoveryRequired) (.ai .taskNotReady)
  if cancelRequested then
    return (before.graph, records)
  else do
    let cleared ← before.nodeStates.mapM recoverNode
    let nextNodes ← reconciledTaskNodes cleared before.graph.nodes
    let nextStatus ← isolatedGraphStatus nextNodes before.graph.nodes
    applyGraphTransition clock records before nextNodes nextStatus

def recoverGraph (graphId tenantId : String) (cancelRequested : Bool)
    (store : Store) : Except Raised (TaskGraphView × Store) := do
  repo.requireTenant tenantId
  store.onGraph graphId (.ai .storageNotFound) (recoverGraphIn clock cancelRequested)

/-- Replaces one row, reconciles all of them and recomputes the header. -/
def replaceAndReconcile (records : TaskGraphRecords) (before : TaskEventState)
    (value : NodeEntry) : Except Raised (TaskGraphView × TaskGraphRecords) := do
  let nextNodes ← reconciledTaskNodes (replaceNode before.nodeStates value) before.graph.nodes
  let nextStatus ← isolatedGraphStatus nextNodes before.graph.nodes
  applyGraphTransition clock records before nextNodes nextStatus

def requeueRecoveryIn (nodeId : String) (expectedFence : Nat)
    (executionId : Option String) (nextAttemptAt : Option Time)
    (records : TaskGraphRecords) : Except Raised (TaskGraphView × TaskGraphRecords) := do
  let before ← records.eventState
  let selected ← orRaise (rowAt NodeEntry.nodeId before.nodeStates nodeId) (.ai .storageNotFound)
  refuse (selected.status ≠ .recoveryRequired ∨
      selected.state.fence ≠ expectedFence ∨ selected.state.executionId = none ∨
      (executionId ≠ none ∧ selected.state.executionId ≠ executionId))
    (.ai .taskFenceStale)
  let value ← NodeEntry.replace selected
    (selected.state.recoveryRequeued selected.state.executionId nextAttemptAt)
  replaceAndReconcile clock records before value

def requeueRecovery (graphId nodeId tenantId : String) (expectedFence : Int)
    (executionId : Option String) (nextAttemptAt : Option Time) (store : Store) :
    Except Raised (TaskGraphView × Store) := do
  repo.requireTenant tenantId
  refuse (expectedFence < 1 ∨ ∃ execution ∈ executionId, blank execution = true)
    (.ai .requestFieldInvalid)
  store.onGraph graphId (.ai .storageNotFound)
    (requeueRecoveryIn clock nodeId expectedFence.toNat executionId nextAttemptAt)

def schedulerStateIn (records : TaskGraphRecords) :
    Except Raised (TaskGraphState × TaskGraphRecords) := do
  let before ← records.eventState
  let nextNodes ← reconciledTaskNodes before.nodeStates before.graph.nodes (some clock.now)
  let nextStatus ← isolatedGraphStatus nextNodes before.graph.nodes
  let (applied, after) ← applyGraphTransition clock records before nextNodes nextStatus
  let state ← after.graphStateFromProjection ⟨applied, nextNodes⟩
  return (state, after)

def schedulerState (graphId tenantId : String) (store : Store) :
    Except Raised (TaskGraphState × Store) := do
  repo.requireTenant tenantId
  store.onGraph graphId (.ai .storageNotFound) (schedulerStateIn clock)

/-- The digest stored with an error that the repository raises itself. -/
def nodeErrorDigest (graphId nodeId : String) (code : ErrorCode) : String :=
  repo.sha256.digest (.obj [("graph_id", .str graphId),
    ("node_id", .str nodeId), ("code", .str code.value)])

def cancelNodeIn (nodeId executionId : String) (cancelConfirmed : Bool)
    (expectedFence : Option Int) (records : TaskGraphRecords) :
    Except Raised (TaskGraphView × TaskGraphRecords) := do
  let before ← records.eventState
  let current ← orRaise (rowAt NodeEntry.nodeId before.nodeStates nodeId) (.ai .storageNotFound)
  refuse (current.state.executionId ≠ some executionId) (.ai .taskResultConflict)
  refuse (fenceUnexpected expectedFence current.state.fence) (.ai .taskFenceStale)
  if current.status.Terminal then
    return (before.graph, records)
  else if current.status = .recoveryRequired ∧ cancelConfirmed = false then
    return (before.graph, records)
  else if cancelConfirmed = false then do
    let value ← NodeEntry.replace current
      (current.state.recoveryMarked ErrorCode.taskEffectUnknown.value
        (repo.nodeErrorDigest records.graphId nodeId .taskEffectUnknown)
        current.state.executionId .execution [])
    replaceAndIsolate clock records before value
  else do
    let value ← NodeEntry.replace current current.state.cancelled
    replaceAndReconcile clock records before value

def cancelNode (graphId nodeId tenantId executionId : String)
    (cancelConfirmed : Bool) (expectedFence : Option Int) (store : Store) :
    Except Raised (TaskGraphView × Store) := do
  repo.requireTenant tenantId
  refuse (blank nodeId = true) (.ai .requestFieldInvalid)
  refuse (blank executionId = true) (.ai .requestFieldInvalid)
  refuse (∃ fence ∈ expectedFence, fence < 1) (.ai .requestFieldInvalid)
  store.onGraph graphId (.ai .storageNotFound)
    (repo.cancelNodeIn clock nodeId executionId cancelConfirmed expectedFence)

def cancelGraphNode (graphId : String) (node : NodeEntry) : Except Raised NodeEntry :=
  if node.status = .recoveryRequired then
    if node.state.executionId = none ∧ node.state.errorOrigin = some .node ∧ node.state.errorCode =
          some ErrorCode.taskInputProjectionFailed.value then
      NodeEntry.replace node node.state.projectionCancelled
    else .ok node
  else if node.status.Terminal then .ok node
  else if (node.status = .pending ∨ node.status = .ready) ∧ node.state.executionId = none then
    if node.state.fence = 0 then
      NodeEntry.replace node node.state.unclaimedCancelled
    else
      NodeEntry.replace node
        (node.state.recoveryMarked ErrorCode.executionStartUnknown.value
          (repo.nodeErrorDigest graphId node.nodeId .executionStartUnknown)
          node.state.executionId .execution
          [("phase", .str "task_cancel"), ("reason", .str "claimed_execution_unbound")])
  else .ok node

def cancelGraphIn (records : TaskGraphRecords) :
    Except Raised (TaskGraphView × TaskGraphRecords) := do
  let before ← records.eventState
  let nextNodes ← before.nodeStates.mapM (repo.cancelGraphNode records.graphId)
  let isolated ← isolatedGraphStatus nextNodes before.graph.nodes
  let nextStatus : TaskStatus :=
    if isolated ≠ .recoveryRequired ∧ (∀ value ∈ nextNodes, value.status.Terminal) ∧
        ∃ value ∈ nextNodes, value.status = .cancelled then .cancelled
    else isolated
  applyGraphTransition clock records before nextNodes nextStatus

def cancelGraph (graphId tenantId : String) (store : Store) :
    Except Raised (TaskGraphView × Store) := do
  repo.requireTenant tenantId
  store.onGraph graphId (.ai .storageNotFound) (repo.cancelGraphIn clock)

end TaskRepository

end Linktools.Persistence
