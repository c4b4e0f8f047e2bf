import Linktools.Task.Graph

namespace Linktools.Task

open Linktools.Core Library

/-! The stored state of one task node and the values that callers receive.
Each is built through the checks of its constructor. -/

inductive ErrorOrigin
  | node
  | execution
deriving DecidableEq

structure TaskNodeFields where
  status : TaskStatus
  owner : Option String := none
  fence : Nat := 0
  leaseExpiresAt : Option Time := none
  resultDigest : Option String := none
  errorCode : Option String := none
  errorDigest : Option String := none
  executionId : Option String := none
  nextAttemptAt : Option Time := none
  occupiesConcurrency : Bool := false
  errorOrigin : Option ErrorOrigin := none
  safeErrorDetails : JsonMapping := []

namespace TaskNodeFields

def check (fields : TaskNodeFields) : Except Raised Unit := do
  refuse (∃ owner ∈ fields.owner, validLeaseOwner owner = false)
    (.valueError "task node lease owner is invalid")
  refuse (fields.status = .pending ∧ fields.executionId ≠ none)
    (.valueError "pending task node cannot carry an execution id")
  refuse (fields.safeErrorDetails.storable = false)
    (.valueError "task node safe error details are invalid")
  refuse (fields.occupiesConcurrency = true ∧ fields.status ≠ .waiting)
    (.valueError "only waiting task can retain concurrency capacity")
  refuse (fields.nextAttemptAt ≠ none ∧ (fields.status ≠ .ready ∨ fields.executionId = none))
    (.valueError "task retry schedule is invalid")
  refuse (fields.status ≠ .ready ∧ fields.nextAttemptAt ≠ none)
    (.valueError "only ready task can carry a retry schedule")
  refuse (fields.status = .recoveryRequired ∧
      (fields.owner ≠ none ∨ fields.leaseExpiresAt ≠ none ∨ fields.fence < 1 ∨
        fields.resultDigest ≠ none ∨ fields.errorCode = none ∨
        (∃ code ∈ fields.errorCode, blank code = true) ∨ fields.errorDigest = none))
    (.valueError "recovery-required task node state is invalid")
  refuse (fields.status = .waiting ∧ (fields.executionId = none ∨
        (∃ execution ∈ fields.executionId, blank execution = true) ∨
        fields.owner ≠ none ∨ fields.leaseExpiresAt ≠ none ∨ fields.fence < 1 ∨
        fields.resultDigest ≠ none ∨ fields.errorCode ≠ none ∨ fields.errorDigest ≠ none))
    (.valueError "waiting task node state is invalid")

structure Valid (fields : TaskNodeFields) : Prop where
  owner_valid : ∀ owner ∈ fields.owner, validLeaseOwner owner = true
  pending_unbound : fields.status = .pending → fields.executionId = none
  details_storable : fields.safeErrorDetails.storable = true
  slot_waiting : fields.occupiesConcurrency = true → fields.status = .waiting
  retry_ready : fields.nextAttemptAt ≠ none → fields.status = .ready ∧ fields.executionId ≠ none
  recovery_shape : fields.status = .recoveryRequired →
    fields.owner = none ∧ fields.leaseExpiresAt = none ∧ 1 ≤ fields.fence ∧
      fields.resultDigest = none ∧ fields.errorCode ≠ none ∧
      (∀ code ∈ fields.errorCode, blank code = false) ∧ fields.errorDigest ≠ none
  waiting_shape : fields.status = .waiting → fields.executionId ≠ none ∧
      (∀ execution ∈ fields.executionId, blank execution = false) ∧
      fields.owner = none ∧ fields.leaseExpiresAt = none ∧ 1 ≤ fields.fence ∧
      fields.resultDigest = none ∧ fields.errorCode = none ∧ fields.errorDigest = none

theorem check_eq_ok {fields : TaskNodeFields} : fields.check = .ok () ↔ fields.Valid := by
  simp only [check, bind_eq_ok, refuse_eq_ok, exists_const]
  constructor
  · rintro ⟨owner, pending, details, slot, retry, _, recovery, waiting⟩
    refine ⟨?_, ?_, ?_, ?_, ?_, ?_, ?_⟩
    · simpa using owner
    · simpa using pending
    · simpa using details
    · simpa using slot
    · intro scheduled
      simpa [scheduled] using retry
    · intro status
      simp only [status, true_and, not_or, not_not, not_exists] at recovery
      grind
    · intro status
      simp only [status, true_and, not_or, not_not, not_exists] at waiting
      grind
  · intro valid
    refine ⟨?_, ?_, ?_, ?_, ?_, ?_, ?_, ?_⟩
    · simpa using valid.owner_valid
    · simpa using valid.pending_unbound
    · simp [valid.details_storable]
    · simpa using valid.slot_waiting
    · rintro ⟨scheduled, wrong⟩
      obtain ⟨ready, bound⟩ := valid.retry_ready scheduled
      simp_all
    · rintro ⟨different, scheduled⟩
      exact different (valid.retry_ready scheduled).1
    · rintro ⟨status, wrong⟩
      have shape := valid.recovery_shape status
      grind
    · rintro ⟨status, wrong⟩
      have shape := valid.waiting_shape status
      grind

end TaskNodeFields

structure TaskNodeState extends TaskNodeFields where
  valid : toTaskNodeFields.Valid

namespace TaskNodeState

/-- The source's `replace`: the constructor checks the new fields again. -/
def build (fields : TaskNodeFields) : Except Raised TaskNodeState :=
  match checked : fields.check with
  | .ok () => .ok ⟨fields, TaskNodeFields.check_eq_ok.mp checked⟩
  | .error raised => .error raised

theorem ext {left right : TaskNodeState}
    (same : left.toTaskNodeFields = right.toTaskNodeFields) : left = right := by
  cases left
  cases right
  cases same
  rfl

theorem build_eq_ok {fields : TaskNodeFields} :
    build fields = .ok state ↔ state.toTaskNodeFields = fields := by
  unfold build
  split
  case h_1 =>
    rw [Except.ok.injEq]
    exact ⟨fun same => same ▸ rfl, fun same => ext same.symm⟩
  case h_2 raised checked =>
    constructor
    · intro impossible
      cases impossible
    · rintro rfl
      rw [TaskNodeFields.check_eq_ok.mpr state.valid] at checked
      cases checked

end TaskNodeState

structure NodeEntry where
  definition : TaskNode
  state : TaskNodeState

namespace NodeEntry

abbrev nodeId (entry : NodeEntry) : String := entry.definition.nodeId

abbrev status (entry : NodeEntry) : TaskStatus := entry.state.status

end NodeEntry

structure TaskNodeView where
  graphId : String
  nodeId : String
  dependencies : List String
  state : TaskNodeState

def NodeEntry.view (entry : NodeEntry) (graphId : String) : TaskNodeView where
  graphId := graphId
  nodeId := entry.nodeId
  dependencies := entry.definition.dependencies
  state := entry.state

structure TaskLease where
  graphId : String
  nodeId : String
  tenantId : String
  owner : String
  fence : Nat
  leaseExpiresAt : Time
  executionId : Option String := none
  tenantId_valid : validTenantId tenantId = true := by decide
  owner_valid : validLeaseOwner owner = true := by decide
  graphId_present : blank graphId = false := by decide
  nodeId_present : blank nodeId = false := by decide
  fence_positive : 1 ≤ fence := by decide
  executionId_present : ∀ execution ∈ executionId, blank execution = false := by decide

def TaskLease.build (graphId nodeId tenantId owner : String) (fence : Nat)
    (leaseExpiresAt : Time) (executionId : Option String) : Except Raised TaskLease :=
  if identity : validTenantId tenantId = true ∧ validLeaseOwner owner = true then
    if shape : blank graphId = false ∧ blank nodeId = false ∧ 1 ≤ fence ∧
        ∀ execution ∈ executionId, blank execution = false then
      .ok ⟨graphId, nodeId, tenantId, owner, fence, leaseExpiresAt, executionId,
        identity.1, identity.2, shape.1, shape.2.1, shape.2.2.1, shape.2.2.2⟩
    else .error (.valueError "task lease is invalid")
  else .error (.valueError "task lease identity is invalid")

theorem TaskLease.build_ok {graphId nodeId tenantId owner : String} {fence : Nat}
    {leaseExpiresAt : Time} {executionId : Option String}
    (built : TaskLease.build graphId nodeId tenantId owner fence leaseExpiresAt
      executionId = .ok lease) : lease.graphId = graphId ∧ lease.nodeId = nodeId ∧
      lease.tenantId = tenantId ∧ lease.owner = owner ∧ lease.fence = fence ∧
      lease.leaseExpiresAt = leaseExpiresAt ∧ lease.executionId = executionId := by
  unfold TaskLease.build at built
  split at built
  · split at built
    · cases built
      exact ⟨rfl, rfl, rfl, rfl, rfl, rfl, rfl⟩
    · cases built
  · cases built

structure TaskTerminalRecord where
  nodeId : String
  owner : Option String
  fence : Nat
  status : TaskStatus
  resultDigest : Option String
  errorCode : Option String
  errorDigest : Option String
  completedAt : Time
  executionId : Option String := none

def TaskTerminalRecord.check (record : TaskTerminalRecord) : Except Raised Unit := do
  refuse (∃ owner ∈ record.owner, validLeaseOwner owner = false)
    (.valueError "task terminal identity is invalid")
  refuse (record.fence < 1) (.valueError "task terminal fence is invalid")

structure TaskResultRecord where
  graphId : String
  nodeId : String
  resultDigest : String
  executionId : String

def TaskResultRecord.check (record : TaskResultRecord) : Except Raised Unit := do
  refuse (blank record.graphId = true) (.valueError "task result graph id is required")
  refuse (blank record.nodeId = true) (.valueError "task result node id is required")
  refuse (isSha256 record.resultDigest = false) (.valueError "task result digest is invalid")
  refuse (blank record.executionId = true) (.valueError "task result execution id is invalid")

structure TaskGraphView where
  graphId : String
  status : TaskStatus
  nodes : List TaskNode

structure TaskGraphState where
  graphId : String
  status : TaskStatus
  nodes : List TaskNode
  nodeStates : List NodeEntry
  eventSeq : Nat := 0

/-- `canonical_sha256`, of which only the shape of its result is used. -/
structure CanonicalSha256 where
  digest : JsonValue → String
  digest_isSha256 : ∀ value, isSha256 (digest value) = true

def DependencyPolicy.value : DependencyPolicy → String
  | .allSucceeded => "all_succeeded"
  | .allTerminal => "all_terminal"
  | .anySucceeded => "any_succeeded"

def FailurePolicy.value : FailurePolicy → String
  | .propagate => "propagate"
  | .isolate => "isolate"

def TaskNode.toMapping (node : TaskNode) : JsonMapping :=
  [("node_id", .str node.nodeId),
    ("dependencies", .arr ((node.dependencies.insertionSort (· ≤ ·)).map JsonValue.str)),
    ("budget_cost", .int node.budgetCost), ("dependency_policy", .str node.dependencyPolicy.value),
    ("failure_policy", .str node.failurePolicy.value), ("task", match node.task with
      | none => .null
      | some task =>
        .obj [("id", .str task.id), ("revision", .int task.revision)]),
    ("expander", match node.expander with
      | none => .null
      | some expander =>
        .obj [("id", .str expander.id), ("revision", .int expander.revision)])]
    ++ node.invocation

def sortedByNodeId (nodes : List TaskNode) : List TaskNode :=
  nodes.insertionSort fun left right => left.nodeId ≤ right.nodeId

theorem sortedByNodeId_perm (nodes : List TaskNode) : (sortedByNodeId nodes).Perm nodes :=
  List.perm_insertionSort _ nodes

/-- `budget` is the digest payload of the run budget. -/
def taskGraphRequestDigest (sha256 : CanonicalSha256) (graph : TaskGraph) (principal : Principal)
    (limits : TaskGraphLimits) (budget : Option JsonMapping) (toolEffects : String) : String :=
  sha256.digest <| .obj <|
    [("principal", .obj [("tenant_id", .str principal.tenantId),
        ("principal_id", .str principal.principalId), ("kind", .str principal.kind)]),
      ("graph_id", .str graph.graphId)]
    ++ (match budget with
      | some budget => [("budget", .obj budget)]
      | none => [])
    ++ (if toolEffects ≠ "live" then [("tool_effects", .str toolEffects)] else [])
    ++ [("nodes", .arr ((sortedByNodeId graph.nodes).map fun node =>
          .obj node.toMapping)), ("limits", .obj [("max_nodes", .int limits.maxNodes),
        ("max_depth", .int limits.maxDepth), ("max_budget", .int limits.maxBudget),
        ("max_concurrency", .int limits.maxConcurrency)])]

structure TaskGraphAdmission where
  version : Nat := 1
  graphId : String
  principal : Principal
  limits : TaskGraphLimits := {}
  operationId : String
  initialRequestDigest : String
  correlation : JsonMapping := []
  budget : Option JsonMapping := none
  budgetScopeId : Option String := none
  toolEffects : String := "live"
  version_positive : 1 ≤ version := by decide
  graphId_present : blank graphId = false := by decide
  operationId_isSha256 : isSha256 operationId = true := by decide
  requestDigest_isSha256 : isSha256 initialRequestDigest = true := by decide
  budgetScope_eq : budgetScopeId = budget.map fun _ => "graph:" ++ graphId := by rfl

structure TaskGraphLaunch where
  graphId : String
  principal : Principal
  limits : TaskGraphLimits
  correlation : JsonMapping
  budget : Option JsonMapping

namespace TaskGraphAdmission

def launch (admission : TaskGraphAdmission) : Except Raised TaskGraphLaunch := do
  refuse (admission.version ≠ 1) (.ai .storageVersionUnsupported)
  return ⟨admission.graphId, admission.principal, admission.limits,
    admission.correlation, admission.budget⟩

def validateGraph (sha256 : CanonicalSha256) (admission : TaskGraphAdmission)
    (graph : TaskGraph) : Except Raised Unit := do
  refuse (graph.graphId ≠ admission.graphId) (.ai .storageIntegrityError)
  graph.validateLimits admission.limits
  refuse (taskGraphRequestDigest sha256 graph admission.principal admission.limits
      admission.budget admission.toolEffects ≠ admission.initialRequestDigest)
    (.ai .storageIntegrityError)

theorem validateGraph_ok {sha256 : CanonicalSha256} {admission : TaskGraphAdmission}
    (valid : admission.validateGraph sha256 graph = .ok ()) : graph.graphId = admission.graphId ∧
      graph.validateLimits admission.limits = .ok () := by
  simp only [validateGraph, bind_eq_ok, refuse_eq_ok, not_not] at valid
  obtain ⟨_, sameId, _, limits, _⟩ := valid
  exact ⟨sameId, limits⟩

end TaskGraphAdmission

structure TaskSubmissionRef where
  namespaceId : String
  tenantId : String
  graphId : String
  requestDigest : String
  operationId : String
  principal : Principal
deriving DecidableEq

structure TaskGraphSubmission where
  namespaceId : String
  admission : TaskGraphAdmission
  graph : TaskGraph

namespace TaskGraphSubmission

def check (sha256 : CanonicalSha256) (submission : TaskGraphSubmission) : Except Raised Unit := do
  refuse (submission.namespaceId = "") (.valueError "task submission namespace is required")
  let _ ← submission.admission.launch
  submission.admission.validateGraph sha256 submission.graph

def ref (submission : TaskGraphSubmission) : TaskSubmissionRef where
  namespaceId := submission.namespaceId
  tenantId := submission.admission.principal.tenantId
  graphId := submission.admission.graphId
  requestDigest := submission.admission.initialRequestDigest
  operationId := submission.admission.operationId
  principal := submission.admission.principal

end TaskGraphSubmission

inductive TaskEventType
  | graphAdmitted
  | graphExpanded
  | graphChanged
  | nodeChanged
deriving DecidableEq

structure TaskEventDraft where
  eventType : TaskEventType
  status : TaskStatus
  previousStatus : Option TaskStatus := none
  nodeId : Option String := none
  owner : Option String := none
  fence : Nat := 0
  executionId : Option String := none
  resultDigest : Option String := none
  errorCode : Option String := none
  errorDigest : Option String := none
  sourceNodeId : Option String := none
  addedNodeIds : List String := []

structure TaskEvent extends TaskEventDraft where
  version : Nat := 1
  graphId : String
  eventSeq : Nat
  occurredAt : Time

namespace TaskEventDraft

def validateGraphOnlyFields (event : TaskEventDraft) : Except Raised Unit := do
  refuse (event.nodeId ≠ none) (.valueError "task graph event cannot carry a node id")
  refuse (event.owner ≠ none ∨ event.fence ≠ 0 ∨ event.executionId ≠ none ∨
      event.resultDigest ≠ none ∨ event.errorCode ≠ none ∨ event.errorDigest ≠ none)
    (.valueError "task graph event cannot carry node state")
  refuse (event.eventType ≠ .graphExpanded ∧ (event.sourceNodeId ≠ none ∨ event.addedNodeIds ≠ []))
    (.valueError "task graph event cannot carry expansion identity")

def validateNodeStateFields (event : TaskEventDraft) : Except Raised Unit :=
  match event.status with
  | .pending =>
    refuse (event.owner ≠ none ∨ event.executionId ≠ none ∨
        event.resultDigest ≠ none ∨ event.errorCode ≠ none ∨ event.errorDigest ≠ none)
      (.valueError "pending task event carries active or terminal state")
  | .ready =>
    refuse (event.owner ≠ none ∨ event.resultDigest ≠ none ∨
        event.errorCode ≠ none ∨ event.errorDigest ≠ none)
      (.valueError "ready task event state is invalid")
  | .running =>
    refuse (event.owner = none ∨ event.fence < 1 ∨
        event.resultDigest ≠ none ∨ event.errorCode ≠ none ∨ event.errorDigest ≠ none)
      (.valueError "running task event state is invalid")
  | .waiting =>
    refuse (event.owner ≠ none ∨ event.fence < 1 ∨ event.executionId = none ∨
        (∃ execution ∈ event.executionId, blank execution = true) ∨
        event.resultDigest ≠ none ∨ event.errorCode ≠ none ∨ event.errorDigest ≠ none)
      (.valueError "waiting task event state is invalid")
  | .recoveryRequired =>
    refuse (event.owner ≠ none ∨ event.fence < 1 ∨
        event.resultDigest ≠ none ∨ event.errorCode = none ∨ event.errorDigest = none)
      (.valueError "recovery-required task event state is invalid")
  | .succeeded =>
    refuse (event.owner ≠ none ∨ event.fence < 1 ∨
        event.resultDigest = none ∨ event.errorCode ≠ none ∨ event.errorDigest ≠ none)
      (.valueError "successful task event state is invalid")
  | .failed =>
    refuse (event.owner ≠ none ∨ event.fence < 1 ∨
        event.resultDigest ≠ none ∨ event.errorCode = none ∨ event.errorDigest = none)
      (.valueError "failed task event state is invalid")
  | .blocked =>
    refuse (event.owner ≠ none ∨ event.executionId ≠ none ∨
        event.resultDigest ≠ none ∨ event.errorCode = none)
      (.valueError "blocked task event state is invalid")
  | .cancelled =>
    refuse (event.owner ≠ none ∨ event.resultDigest ≠ none ∨
        event.errorCode ≠ none ∨ event.errorDigest ≠ none)
      (.valueError "cancelled task event state is invalid")

def validateGraphAdmitted (event : TaskEventDraft) : Except Raised Unit := do
  refuse (event.status ≠ .pending ∧ event.status ≠ .succeeded)
    (.valueError "task graph admission event status is invalid")
  refuse (event.previousStatus ≠ none)
    (.valueError "task graph admission event cannot have previous status")
  event.validateGraphOnlyFields

def validateGraphExpanded (event : TaskEventDraft) : Except Raised Unit := do
  refuse (event.sourceNodeId = none ∨ (∃ source ∈ event.sourceNodeId, blank source = true) ∨
      event.addedNodeIds = [] ∨ event.previousStatus ≠ none ∨
      event.status = .ready ∨ event.status = .waiting)
    (.valueError "task graph expansion event identity is invalid")
  event.validateGraphOnlyFields

def validateGraphChanged (event : TaskEventDraft) : Except Raised Unit := do
  refuse (event.previousStatus = none)
    (.valueError "task graph change event requires previous status")
  refuse (event.status = .ready ∨ event.status = .waiting ∨
      event.previousStatus = some .ready ∨ event.previousStatus = some .waiting)
    (.valueError "task graph change event cannot use node-only status")
  refuse (event.previousStatus = some event.status)
    (.valueError "task graph change event requires a status transition")
  event.validateGraphOnlyFields

def validateNodeChanged (event : TaskEventDraft) : Except Raised Unit := do
  refuse (event.nodeId = none ∨ ∃ nodeId ∈ event.nodeId, blank nodeId = true)
    (.valueError "task node event requires a node id")
  refuse (event.sourceNodeId ≠ none ∨ event.addedNodeIds ≠ [])
    (.valueError "task node event cannot carry expansion identity")
  refuse (event.previousStatus = none) (.valueError "task node event requires previous status")
  refuse (∃ owner ∈ event.owner, validLeaseOwner owner = false)
    (.valueError "task event owner is invalid")
  refuse (∃ execution ∈ event.executionId, blank execution = true)
    (.valueError "task event execution id is invalid")
  event.validateNodeStateFields

def validate (event : TaskEventDraft) : Except Raised Unit :=
  match event.eventType with
  | .graphAdmitted => event.validateGraphAdmitted
  | .graphExpanded => event.validateGraphExpanded
  | .graphChanged => event.validateGraphChanged
  | .nodeChanged => event.validateNodeChanged

end TaskEventDraft

namespace TaskEvent

def check (event : TaskEvent) : Except Raised Unit := do
  refuse (event.version < 1) (.valueError "task event version is invalid")
  refuse (event.version ≠ 1) (.ai .storageVersionUnsupported)
  refuse (blank event.graphId = true) (.valueError "task event graph id is required")
  refuse (event.eventSeq < 1) (.valueError "task event event_seq must be positive")
  refuse (∃ digest ∈ event.resultDigest, isSha256 digest = false)
    (.valueError "task event result digest must be lowercase SHA-256")
  refuse (∃ digest ∈ event.errorDigest, isSha256 digest = false)
    (.valueError "task event error digest must be lowercase SHA-256")
  refuse (∃ code ∈ event.errorCode, blank code = true)
    (.valueError "task event error code is invalid")
  -- `tuple(sorted(set(ids))) != ids`: the ids are not strictly ascending.
  refuse ((∃ nodeId ∈ event.addedNodeIds, blank nodeId = true) ∨
      ¬event.addedNodeIds.Pairwise (· < ·))
    (.valueError "task event added node ids are invalid")
  event.validate

end TaskEvent

namespace TaskNodeFields

def Reportable (fields : TaskNodeFields) : Prop :=
  match fields.status with
  | .pending =>
    fields.owner = none ∧ fields.executionId = none ∧
      fields.resultDigest = none ∧ fields.errorCode = none ∧ fields.errorDigest = none
  | .ready =>
    fields.owner = none ∧ fields.resultDigest = none ∧
      fields.errorCode = none ∧ fields.errorDigest = none
  | .running =>
    fields.owner ≠ none ∧ 1 ≤ fields.fence ∧ fields.resultDigest = none ∧
      fields.errorCode = none ∧ fields.errorDigest = none
  | .waiting =>
    fields.owner = none ∧ 1 ≤ fields.fence ∧ fields.executionId ≠ none ∧
      fields.resultDigest = none ∧ fields.errorCode = none ∧ fields.errorDigest = none
  | .recoveryRequired =>
    fields.owner = none ∧ 1 ≤ fields.fence ∧ fields.resultDigest = none ∧
      fields.errorCode ≠ none ∧ fields.errorDigest ≠ none
  | .succeeded =>
    fields.owner = none ∧ 1 ≤ fields.fence ∧ fields.resultDigest ≠ none ∧
      fields.errorCode = none ∧ fields.errorDigest = none
  | .failed =>
    fields.owner = none ∧ 1 ≤ fields.fence ∧ fields.resultDigest = none ∧
      fields.errorCode ≠ none ∧ fields.errorDigest ≠ none
  | .blocked =>
    fields.owner = none ∧ fields.executionId = none ∧
      fields.resultDigest = none ∧ fields.errorCode ≠ none
  | .cancelled =>
    fields.owner = none ∧ fields.resultDigest = none ∧
      fields.errorCode = none ∧ fields.errorDigest = none

def SameObserved (left right : TaskNodeFields) : Prop :=
  left.status = right.status ∧ left.owner = right.owner ∧
    left.fence = right.fence ∧ left.executionId = right.executionId ∧
    left.resultDigest = right.resultDigest ∧ left.errorCode = right.errorCode ∧
    left.errorDigest = right.errorDigest

instance (left right : TaskNodeFields) : Decidable (SameObserved left right) := by
  unfold SameObserved
  infer_instance

theorem Reportable.congr {left right : TaskNodeFields}
    (reportable : left.Reportable) (same : left.SameObserved right) : right.Reportable := by
  obtain ⟨status, owner, fence, execution, result, code, digest⟩ := same
  simpa only [Reportable, status, owner, fence, execution, result, code, digest] using reportable

end TaskNodeFields

end Linktools.Task
