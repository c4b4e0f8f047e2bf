import Linktools.Task.Admission

namespace Linktools.Persistence

open Linktools.Core Library Linktools.Task List

def requireCanonicalGraphStatus (status : TaskStatus) : Except Raised Unit :=
  refuse (status = .ready ∨ status = .waiting) .integrity

def aggregateGraphStatus (nodes : List NodeEntry)
    (failurePolicies : String → Option FailurePolicy) : TaskStatus :=
  if ∃ node ∈ nodes, node.status = .recoveryRequired then .recoveryRequired
  else if (∃ node ∈ nodes, node.status = .running) ∨
      ∃ node ∈ nodes, node.status = .waiting then .running
  else if (∃ node ∈ nodes, node.status = .pending) ∨
      ∃ node ∈ nodes, node.status = .ready then .pending
  else if ∃ node ∈ nodes, node.status = .failed ∧
      failurePolicies node.nodeId = some .propagate then .failed
  else if ∃ node ∈ nodes, node.status = .blocked ∧
      failurePolicies node.nodeId = some .propagate then .blocked
  else if ∃ node ∈ nodes, node.status = .cancelled then .cancelled
  else .succeeded

def failurePoliciesOf (definitions : List TaskNode) (nodeId : String) : Option FailurePolicy :=
  (rowAt TaskNode.nodeId definitions nodeId).map TaskNode.failurePolicy

def isolatedGraphStatus (nodes : List NodeEntry) (definitions : List TaskNode) :
    Except Raised TaskStatus := do
  refuse (¬((∀ node ∈ nodes, node.nodeId ∈ definitions.map TaskNode.nodeId) ∧
      ∀ definition ∈ definitions, definition.nodeId ∈ nodes.map NodeEntry.nodeId)) .integrity
  return aggregateGraphStatus nodes (failurePoliciesOf definitions)

def effectiveGraphStatus (graph : TaskGraphView) (nodes : List NodeEntry) :
    Except Raised TaskStatus := do
  let isolated ← isolatedGraphStatus nodes graph.nodes
  if isolated = .recoveryRequired then
    return isolated
  else if graph.status = .cancelled then
    if (∀ node ∈ nodes, node.status.Terminal) ∧ ∃ node ∈ nodes, node.status = .cancelled then
      return .cancelled
    else throw .integrity
  else return isolated

def derivedStatus (nodes : List NodeEntry) : TaskStatus :=
  aggregateGraphStatus nodes (failurePoliciesOf (nodes.map NodeEntry.definition))

theorem map_nodeId_definition (nodes : List NodeEntry) :
    (nodes.map NodeEntry.definition).map TaskNode.nodeId = nodes.map NodeEntry.nodeId := by
  simp only [map_map, Function.comp_def]

variable {definitions : List TaskNode}

theorem failurePoliciesOf_mem (distinct : (definitions.map TaskNode.nodeId).Nodup)
    (member : definition ∈ definitions) : failurePoliciesOf definitions definition.nodeId =
      some definition.failurePolicy := by
  simp only [failurePoliciesOf, rowAt_of_mem distinct member, Option.map_some]

variable {nodes : List NodeEntry}

theorem aggregateGraphStatus_congr
    (agree : ∀ node ∈ nodes, node.status = .failed ∨ node.status = .blocked →
      left node.nodeId = right node.nodeId) :
    aggregateGraphStatus nodes left = aggregateGraphStatus nodes right := by
  have failed : (∃ node ∈ nodes, node.status = .failed ∧
      left node.nodeId = some .propagate) ↔ ∃ node ∈ nodes,
      node.status = .failed ∧ right node.nodeId = some .propagate := by
    apply exists_congr
    intro node
    refine and_congr_right fun member => and_congr_right fun status => ?_
    rw [agree node member (.inl status)]
  have blocked : (∃ node ∈ nodes, node.status = .blocked ∧
      left node.nodeId = some .propagate) ↔ ∃ node ∈ nodes,
      node.status = .blocked ∧ right node.nodeId = some .propagate := by
    apply exists_congr
    intro node
    refine and_congr_right fun member => and_congr_right fun status => ?_
    rw [agree node member (.inr status)]
  simp only [aggregateGraphStatus, failed, blocked]

variable {failurePolicies : String → Option FailurePolicy}

theorem aggregateGraphStatus_perm (same : left.Perm right) :
    aggregateGraphStatus left failurePolicies = aggregateGraphStatus right failurePolicies := by
  simp only [aggregateGraphStatus, same.mem_iff]

theorem derivedStatus_perm (distinct : (left.map NodeEntry.nodeId).Nodup) (same : left.Perm right) :
    derivedStatus left = derivedStatus right := by
  unfold derivedStatus
  rw [aggregateGraphStatus_perm same]
  apply aggregateGraphStatus_congr
  intro node _ _
  have definitions := same.map NodeEntry.definition
  rw [← map_nodeId_definition] at distinct
  simp only [failurePoliciesOf, rowAt_perm distinct definitions]

theorem aggregateGraphStatus_eq_derived (distinct : (nodes.map NodeEntry.nodeId).Nodup)
    (covers : ∀ node ∈ nodes, node.status = .failed ∨ node.status = .blocked →
      failurePolicies node.nodeId = some node.definition.failurePolicy) :
    aggregateGraphStatus nodes failurePolicies = derivedStatus nodes := by
  apply aggregateGraphStatus_congr
  intro node member status
  rw [covers node member status]
  exact (failurePoliciesOf_mem (by rwa [map_nodeId_definition]) (mem_map_of_mem member)).symm

variable {status : TaskStatus}

theorem isolatedGraphStatus_eq (computed : isolatedGraphStatus nodes definitions = .ok status)
    (distinct : (nodes.map NodeEntry.nodeId).Nodup)
    (same : (nodes.map NodeEntry.definition).Perm definitions) : status = derivedStatus nodes := by
  simp only [isolatedGraphStatus, bind_eq_ok, pure_eq_ok] at computed
  obtain ⟨_, _, rfl⟩ := computed
  apply aggregateGraphStatus_eq_derived distinct
  intro node member _
  have distinctDefinitions : (definitions.map TaskNode.nodeId).Nodup := by
    rw [← (same.map TaskNode.nodeId).nodup_iff, map_nodeId_definition]
    exact distinct
  exact failurePoliciesOf_mem distinctDefinitions (same.mem_iff.mp (mem_map_of_mem member))

theorem isolatedGraphStatus_ok (nodes : List NodeEntry) (definitions : List TaskNode)
    (same : (nodes.map NodeEntry.definition).Perm definitions) :
    isolatedGraphStatus nodes definitions =
      .ok (aggregateGraphStatus nodes (failurePoliciesOf definitions)) := by
  unfold isolatedGraphStatus
  rw [refuse_of_not]
  · rfl
  · rw [not_not]
    constructor
    · intro node member
      exact mem_map_of_mem (same.mem_iff.mp (mem_map_of_mem member))
    · intro definition member
      obtain ⟨node, inside, rfl⟩ := mem_map.mp (same.mem_iff.mpr member)
      exact mem_map_of_mem inside

structure HeaderAgrees (status : TaskStatus) (nodes : List NodeEntry) : Prop where
  terminal_iff : status.Terminal ↔ ∀ node ∈ nodes, node.status.Terminal
  recovery_iff : status = .recoveryRequired ↔ ∃ node ∈ nodes, node.status = .recoveryRequired
  otherwise : ¬status.Terminal → status ≠ .recoveryRequired → status = .pending ∨ status = .running

theorem HeaderAgrees.canonical (agrees : HeaderAgrees status nodes) :
    requireCanonicalGraphStatus status = .ok () := by
  apply refuse_of_not
  rintro (ready | waiting)
  · simpa [ready, TaskStatus.Terminal] using agrees.otherwise
  · simpa [waiting, TaskStatus.Terminal] using agrees.otherwise

theorem derivedStatus_agrees (nodes : List NodeEntry) :
    HeaderAgrees (derivedStatus nodes) nodes := by
  unfold derivedStatus aggregateGraphStatus
  split
  case isTrue recovery =>
    obtain ⟨node, member, status⟩ := recovery
    refine ⟨?_, ⟨fun _ => ⟨node, member, status⟩, fun _ => rfl⟩, by simp⟩
    simp only [TaskStatus.Terminal, reduceCtorEq, or_self, false_iff]
    intro all
    simpa [status] using all node member
  case isFalse noRecovery =>
    have settled : ∀ node ∈ nodes, node.status ≠ .recoveryRequired :=
      fun node member status => noRecovery ⟨node, member, status⟩
    split
    case isTrue active =>
      refine ⟨?_, by simpa using settled, by simp⟩
      simp only [TaskStatus.Terminal, reduceCtorEq, or_self, false_iff]
      intro all
      rcases active with ⟨node, member, status⟩ | ⟨node, member, status⟩ <;>
        simpa [status] using all node member
    case isFalse idle =>
      split
      case isTrue open' =>
        refine ⟨?_, by simpa using settled, by simp⟩
        simp only [TaskStatus.Terminal, reduceCtorEq, or_self, false_iff]
        intro all
        rcases open' with ⟨node, member, status⟩ | ⟨node, member, status⟩ <;>
          simpa [status] using all node member
      case isFalse closed =>
        have all : ∀ node ∈ nodes, node.status.Terminal := by
          intro node member
          simp only [not_or, not_exists, not_and] at idle closed
          have := settled node member
          have := idle.1 node member
          have := idle.2 node member
          have := closed.1 node member
          have := closed.2 node member
          unfold TaskStatus.Terminal
          cases status : node.status <;> simp_all
        split
        case isTrue => exact ⟨by simpa [TaskStatus.Terminal] using all, by simpa using settled, by
        simp [TaskStatus.Terminal]⟩
        case isFalse =>
          split
          case isTrue => exact ⟨by simpa [TaskStatus.Terminal] using all, by simpa using settled, by
          simp [TaskStatus.Terminal]⟩
          case isFalse =>
            split <;> exact ⟨by simpa [TaskStatus.Terminal] using all, by simpa using settled, by
            simp [TaskStatus.Terminal]⟩

end Linktools.Persistence

namespace Linktools.Persistence

open Linktools.Core Library Linktools.Task

structure TaskResultRef where
  namespaceId : String
  tenantId : String
  graphId : String
  nodeId : String
  resultDigest : String
deriving DecidableEq

/-- `storedUserInput` is the digest of the stored input. -/
structure TaskPreparedInputRecord where
  graphId : String
  nodeId : String
  tenantId : String
  admissionDigest : String
  taskRef : TaskRef
  inputIdentity : String
  sourceRefs : List (String × TaskResultRef) := []
  storedUserInput : String
  finalInputDigest : String
  requestIdentity : String
  publishedFence : Nat

def reusePreparedInput (existing candidate : TaskPreparedInputRecord) :
    Except Raised TaskPreparedInputRecord := do
  refuse (existing.graphId ≠ candidate.graphId ∨ existing.nodeId ≠ candidate.nodeId ∨
      existing.tenantId ≠ candidate.tenantId ∨
      existing.admissionDigest ≠ candidate.admissionDigest ∨ existing.taskRef ≠ candidate.taskRef ∨
      existing.inputIdentity ≠ candidate.inputIdentity ∨
      existing.sourceRefs ≠ candidate.sourceRefs ∨
      existing.finalInputDigest ≠ candidate.finalInputDigest ∨
      existing.requestIdentity ≠ candidate.requestIdentity ∨
      existing.storedUserInput ≠ candidate.storedUserInput)
    (.ai .storageIntegrityError [("reason", .str "input_projection_nondeterministic")])
  return existing

structure TaskGraphRecords where
  graphId : String
  status : TaskStatus
  admission : TaskGraphAdmission
  nodes : List NodeEntry
  results : List TaskResultRecord := []
  preparedInputs : List TaskPreparedInputRecord := []
  events : List TaskEvent := []
  eventSequence : Nat := 0

structure TaskEventState where
  graph : TaskGraphView
  nodeStates : List NodeEntry

namespace TaskGraphRecords

def entryAt (records : TaskGraphRecords) (nodeId : String) : Option NodeEntry :=
  rowAt NodeEntry.nodeId records.nodes nodeId

def resultAt (records : TaskGraphRecords) (nodeId : String) : Option TaskResultRecord :=
  rowAt TaskResultRecord.nodeId records.results nodeId

def preparedInputAt (records : TaskGraphRecords) (nodeId : String) :
    Option TaskPreparedInputRecord :=
  rowAt TaskPreparedInputRecord.nodeId records.preparedInputs nodeId

def definitions (records : TaskGraphRecords) : List TaskNode :=
  records.nodes.map NodeEntry.definition

def eventState (records : TaskGraphRecords) : Except Raised TaskEventState := do
  requireCanonicalGraphStatus records.status
  let graph ← TaskGraph.build records.graphId records.definitions
  return ⟨⟨graph.graphId, records.status, graph.nodes⟩, records.nodes⟩

/-- The projection of the terminal fast path: of the definitions it loads the
target's and those of failed and blocked nodes. -/
def terminalState (records : TaskGraphRecords) (nodeId : String) :
    Except Raised TaskEventState := do
  requireCanonicalGraphStatus records.status
  refuse (nodeId ∉ records.nodes.map NodeEntry.nodeId) .integrity
  let loaded := records.nodes.filter fun node =>
    node.nodeId = nodeId ∨ node.status = .failed ∨ node.status = .blocked
  return ⟨⟨records.graphId, records.status, loaded.map NodeEntry.definition⟩, records.nodes⟩

def graphStateFromProjection (records : TaskGraphRecords)
    (state : TaskEventState) : Except Raised TaskGraphState := do
  let latest ← orRaise records.events.getLast? .integrity
  refuse (latest.eventSeq < 1) .integrity
  let status ← effectiveGraphStatus state.graph state.nodeStates
  return ⟨state.graph.graphId, status, state.graph.nodes, state.nodeStates, latest.eventSeq⟩

variable {records : TaskGraphRecords} {state : TaskEventState}

theorem eventState_ok (loaded : records.eventState = .ok state) :
    state.graph.graphId = records.graphId ∧
    state.graph.status = records.status ∧ state.graph.nodes = records.definitions ∧
    state.nodeStates = records.nodes ∧ ∃ graph : TaskGraph, graph.nodes = records.definitions ∧
      TaskGraph.build records.graphId records.definitions = .ok graph := by
  simp only [eventState, bind_eq_ok, pure_eq_ok] at loaded
  obtain ⟨_, _, graph, built, rfl⟩ := loaded
  obtain ⟨sameId, sameNodes⟩ := TaskGraph.build_ok built
  exact ⟨sameId, rfl, sameNodes, rfl, graph, sameNodes, built⟩

theorem terminalState_ok (loaded : records.terminalState nodeId = .ok state) :
    state.graph.graphId = records.graphId ∧ state.graph.status = records.status ∧
    state.nodeStates = records.nodes ∧ nodeId ∈ records.nodes.map NodeEntry.nodeId ∧
    state.graph.nodes = (records.nodes.filter fun node =>
      node.nodeId = nodeId ∨ node.status = .failed ∨
        node.status = .blocked).map NodeEntry.definition := by
  simp only [terminalState, bind_eq_ok, refuse_eq_ok, pure_eq_ok, not_not] at loaded
  obtain ⟨_, _, _, member, rfl⟩ := loaded
  exact ⟨rfl, rfl, rfl, member, rfl⟩

end TaskGraphRecords

structure OperationLedgerInput where
  operationId : String
  tenantId : String
  resourceKind : ResourceKind
  resourceId : String
  executionId : Option String
  operationKind : OperationKind
  status : OperationStatus
  requestDigest : String
  resultRef : Option String
  resultDigest : Option String
  errorCode : Option String
  compactable : Bool
  createdAt : Time
  updatedAt : Time
deriving DecidableEq

structure OperationLedgerRecord extends OperationLedgerInput where
  sequence : Nat

def operationReplayMatches (record : OperationLedgerRecord)
    (candidate : OperationLedgerInput) : Prop :=
  { record.toOperationLedgerInput with
    createdAt := candidate.createdAt
    updatedAt := candidate.updatedAt } = candidate

instance (record : OperationLedgerRecord) (candidate : OperationLedgerInput) :
    Decidable (operationReplayMatches record candidate) := by
  unfold operationReplayMatches
  infer_instance

def operationCasImmutableMatches (current candidate : OperationLedgerRecord) : Prop :=
  current.operationId = candidate.operationId ∧ current.tenantId = candidate.tenantId ∧
    current.resourceKind = candidate.resourceKind ∧ current.resourceId = candidate.resourceId ∧
    current.executionId = candidate.executionId ∧ current.operationKind = candidate.operationKind ∧
    current.requestDigest = candidate.requestDigest ∧ current.compactable = candidate.compactable ∧
    current.sequence = candidate.sequence ∧ current.createdAt = candidate.createdAt ∧
    (current.operationKind ≠ .executionRecover ∨
      current.resultRef = candidate.resultRef ∧ current.resultDigest = none ∧
        candidate.resultDigest = none)

instance (current candidate : OperationLedgerRecord) :
    Decidable (operationCasImmutableMatches current candidate) := by
  unfold operationCasImmutableMatches
  infer_instance

inductive SubmissionState
  | prepared
  | admitted
  | cancelled
deriving DecidableEq

structure Store where
  graphs : String → Option TaskGraphRecords
  submissions : String → Option (TaskSubmissionRef × SubmissionState)
  payloads : String → Option TaskGraphSubmission
  operations : List OperationLedgerRecord
  operationSequences : ResourceKind × String → Nat

/-- The repository object: its namespace, its tenant and the digest it uses. -/
structure TaskRepository where
  namespaceId : String
  tenantId : String
  sha256 : CanonicalSha256

/-- The readings of the clock during one transaction: the transaction's own
`now`, and the reading taken after it for a renewed lease or a returned record. -/
structure Clock where
  now : Time
  fresh : Time
  ordered : now ≤ fresh := by decide

namespace Store

def empty : Store where
  graphs := fun _ => none
  submissions := fun _ => none
  payloads := fun _ => none
  operations := []
  operationSequences := fun _ => 0

def putGraph (store : Store) (records : TaskGraphRecords) : Store :=
  { store with
    graphs := Function.update store.graphs records.graphId (some records) }

variable {records : TaskGraphRecords} {graphId : String}

theorem putGraph_graphs_self (store : Store) (same : records.graphId = graphId) :
    (store.putGraph records).graphs graphId = some records := by
  subst same
  exact Function.update_self _ _ _

theorem putGraph_graphs_of_ne (store : Store) (same : records.graphId = graphId)
    (different : other ≠ graphId) : (store.putGraph records).graphs other = store.graphs other :=
  Function.update_of_ne (same ▸ different) _ _

/-- Runs a mutation of one graph's records; an error leaves the store as it is. -/
def onGraph {α : Type} (store : Store) (graphId : String) (missing : Raised)
    (mutate : TaskGraphRecords → Except Raised (α × TaskGraphRecords)) :
    Except Raised (α × Store) := do
  let records ← orRaise (store.graphs graphId) missing
  let (result, after) ← mutate records
  return (result, store.putGraph after)

variable {after store : Store}

theorem onGraph_ok {α : Type} {missing : Raised} {result : α}
    {mutate : TaskGraphRecords → Except Raised (α × TaskGraphRecords)} :
    store.onGraph graphId missing mutate = .ok (result, after) ↔
      ∃ records records', store.graphs graphId = some records ∧
        mutate records = .ok (result, records') ∧ after = store.putGraph records' := by
  simp only [onGraph, bind_eq_ok, orRaise_eq_ok, pure_eq_ok, Prod.exists, Prod.mk.injEq]
  constructor
  · rintro ⟨records, found, _, records', mutated, rfl, rfl⟩
    exact ⟨records, records', found, mutated, rfl⟩
  · rintro ⟨records, records', found, mutated, rfl⟩
    exact ⟨records, found, result, records', mutated, rfl, rfl⟩

def appendOperation (store : Store) (value : OperationLedgerInput) :
    Except Raised ((OperationLedgerRecord × Bool) × Store) :=
  match rowAt (fun record => record.operationId) store.operations
      value.operationId with
  | some current =>
    if operationReplayMatches current value then
      .ok ((current, true), store)
    else .error (.ai .storageConflict)
  | none =>
    let stream := (value.resourceKind, value.resourceId)
    let sequence := store.operationSequences stream + 1
    let record : OperationLedgerRecord := { value with sequence := sequence }
    .ok ((record, false),
      { store with
        operations := store.operations ++ [record]
        operationSequences :=
          Function.update store.operationSequences stream sequence })

theorem appendOperation_graphs (appended : store.appendOperation value = .ok (result, after)) :
    after.graphs = store.graphs := by
  unfold appendOperation at appended
  split at appended
  · split at appended
    · cases appended
      rfl
    · cases appended
  · cases appended
    rfl

end Store

end Linktools.Persistence
