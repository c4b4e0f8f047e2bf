import Linktools.Library.Machine
import Linktools.Persistence.AdmissionSteps

namespace Linktools.Persistence

open Linktools.Core Library Linktools.Task

namespace TaskRepository

variable {clock : Clock} {records after : TaskGraphRecords} {lease : TaskLease}

theorem publishPreparedInputIn_step {record result : TaskPreparedInputRecord}
    (done : publishPreparedInputIn clock lease record records =
      .ok (result, after)) : GraphStep clock scope records after := by
  simp only [publishPreparedInputIn, bind_eq_ok] at done
  obtain ⟨_, _, _, _, _, _, done⟩ := done
  split at done
  · simp only [bind_eq_ok, pair_eq_ok] at done
    obtain ⟨_, _, _, rfl⟩ := done
    exact .inl rfl
  · rw [pair_eq_ok] at done
    obtain ⟨_, rfl⟩ := done
    refine .inr ⟨_, .prepared record, ?_⟩
    apply Commits.of_append { records with
      preparedInputs := records.preparedInputs ++ [record] }
    case appended =>
      simp only [GraphChange.drafts, nodeTableDrafts_self, List.map_nil,
        expansionDrafts, if_true, taskGraphEventDrafts, List.append_nil, appendTaskEvents]
    all_goals simp [GraphChange.nodes]

variable {leaseSeconds : Int}

theorem renewIn_step {result : TaskLease} (distinct : (records.nodes.map NodeEntry.nodeId).Nodup)
    (done : renewIn clock lease leaseSeconds records = .ok (result, after)) :
    GraphStep clock scope records after := by
  simp only [renewIn, bind_eq_ok, orRaise_eq_ok, pair_eq_ok,
    requireLiveTaskLease_eq_ok, NodeEntry.replace_eq_ok] at done
  obtain ⟨node, found, _, ⟨live, _⟩, _, _, value, ⟨definition, fields⟩, _, rfl⟩ := done
  obtain ⟨member, _⟩ := entryAt_mem found
  have row : RowMoves clock.now scope.writes node value :=
    .single definition (by rw [fields]; exact .renew _ live)
  have running : value.status = .running := by
    rw [NodeEntry.status, fields]
    exact live.1
  refine .inr ⟨_, .held node value member live.1 row (.inl running), ?_⟩
  apply updateNodeWithEvent_commits distinct member definition
  have same : node.state.SameObserved value.state.toTaskNodeFields := by
    rw [fields]
    exact ⟨rfl, rfl, rfl, rfl, rfl, rfl, rfl⟩
  rw [updateNodeWithEvent, taskNodeEventDrafts, if_pos same]
  rfl

variable {result : TaskNodeView} {executionId : String}

section

variable (distinct : (records.nodes.map NodeEntry.nodeId).Nodup)
include distinct

theorem bindExecutionIn_step (done : bindExecutionIn clock lease executionId records =
      .ok (result, after)) : GraphStep clock scope records after := by
  simp only [bindExecutionIn, bind_eq_ok, orRaise_eq_ok, requireLiveTaskLease_eq_ok] at done
  obtain ⟨node, found, _, ⟨live, _, fence⟩, done⟩ := done
  split at done
  case isTrue =>
    split at done
    · rw [pair_eq_ok] at done
      exact .inl done.2.symm
    · cases done
  case isFalse unbound =>
    rw [not_not] at unbound
    simp only [bind_eq_ok, pair_eq_ok, NodeEntry.replace_eq_ok] at done
    obtain ⟨value, ⟨definition, fields⟩, written, updated, _, rfl⟩ := done
    obtain ⟨member, _⟩ := entryAt_mem found
    have claimed : 1 ≤ node.state.fence := fence ▸ lease.fence_positive
    have row : RowMoves clock.now scope.writes node value :=
      .single definition (by rw [fields]; exact .bind _ live claimed unbound)
    have running : value.status = .running := by
      rw [NodeEntry.status, fields]
      exact live.1
    exact .inr ⟨_, .held node value member live.1 row (.inl running),
      updateNodeWithEvent_commits distinct member definition updated⟩

theorem handoffExecutionIn_ok
    (done : handoffExecutionIn clock lease executionId occupies records = .ok (result, after)) :
    ∃ node, records.entryAt lease.nodeId = some node ∧ node.state.fence = lease.fence ∧
      ((node.status = .waiting ∧ node.state.executionId = some executionId ∧
          node.state.owner = none ∧ node.state.leaseExpiresAt = none ∧
          node.state.occupiesConcurrency = occupies ∧
          result = node.view records.graphId ∧ after = records) ∨
        ∃ value, node.state.Live clock.now ∧ node.state.Resolves (some executionId) ∧
          value.definition = node.definition ∧
          value.state.toTaskNodeFields = node.state.handedOff executionId occupies ∧
          Commits clock records
            { kept := replaceNode records.nodes value, status := records.status }
            after ∧ result = value.view records.graphId) := by
  simp only [handoffExecutionIn, bind_eq_ok, orRaise_eq_ok] at done
  obtain ⟨node, found, done⟩ := done
  refine ⟨node, found, ?_⟩
  split at done
  case isTrue waiting =>
    simp only [bind_eq_ok, pure_eq_ok, refuse_eq_ok, Prod.mk.injEq, not_or, not_not] at done
    obtain ⟨_, fence, _, ⟨unowned, unleased⟩, _, slot, rfl, rfl⟩ := done
    exact ⟨fence, .inl ⟨waiting.1, waiting.2, unowned, unleased, slot, rfl, rfl⟩⟩
  case isFalse =>
    simp only [bind_eq_ok, pair_eq_ok, NodeEntry.replace_eq_ok,
      requireLiveTaskLease_eq_ok, refuse_eq_ok] at done
    obtain ⟨_, ⟨live, _, fence⟩, _, agrees, value, ⟨definition, fields⟩, written,
      updated, rfl, rfl⟩ := done
    have resolves : node.state.Resolves (some executionId) := by
      by_cases unbound : node.state.executionId = none
      · exact .inl unbound
      · exact .inr (not_not.mp fun different => agrees ⟨unbound, fun same => different same.symm⟩)
    exact ⟨fence, .inr ⟨value, live, resolves, definition, fields,
      updateNodeWithEvent_commits distinct (rowAt_mem found) definition updated, rfl⟩⟩

end

theorem handoffExecutionIn_step (writes : ∀ fields, fields.status = .waiting →
      fields.executionId = some executionId → fields.occupiesConcurrency = occupies →
      scope.writes lease.nodeId fields) (distinct : (records.nodes.map NodeEntry.nodeId).Nodup)
    (done : handoffExecutionIn clock lease executionId occupies records = .ok (result, after)) :
    GraphStep clock scope records after := by
  obtain ⟨node, found, fence, ⟨_, _, _, _, _, _, same⟩ | ⟨value, live, resolves,
    definition, fields, committed, _⟩⟩ := handoffExecutionIn_ok distinct done
  · exact .inl same
  · have claimed : 1 ≤ node.state.fence := fence ▸ lease.fence_positive
    obtain ⟨member, sameNode⟩ := entryAt_mem found
    have row : RowMoves clock.now scope.writes node value := .single definition (by
      rw [fields]
      exact .handOff _ _ live claimed resolves (sameNode ▸ writes _ rfl rfl rfl))
    have waiting : value.status = .waiting := by
      rw [NodeEntry.status, fields]
      rfl
    exact .inr ⟨_, .held node value member live.1 row (.inr waiting), committed⟩

variable {graphId nodeId tenantId owner : String}

theorem claimIn_ok {result : TaskLease} (distinct : (records.nodes.map NodeEntry.nodeId).Nodup)
    (done : claimIn clock graphId nodeId tenantId owner leaseSeconds operations
      records = .ok (result, after)) :
    ∃ node value, Claimable clock.now records node ∧ node.nodeId = nodeId ∧
      value.definition = node.definition ∧ value.state.toTaskNodeFields = node.state.claimed owner
        (Time.plusSeconds clock.now leaseSeconds) ∧ Commits clock records
        { kept := replaceNode records.nodes value, status := records.status }
        after ∧ TaskLease.build graphId nodeId tenantId owner (node.state.fence + 1)
        (Time.plusSeconds clock.now leaseSeconds) value.state.executionId = .ok result := by
  simp only [claimIn, bind_eq_ok, orRaise_eq_ok, refuse_eq_ok, pair_eq_ok,
    NodeEntry.replace_eq_ok] at done
  obtain ⟨node, found, _, _, _, header, _, _, _, _, _, _, _, _, _, _, _, slot, _, _,
    _, claimable, _, _, _, ready, value, ⟨definition, fields⟩, written, updated,
    granted, built, rfl, rfl⟩ := done
  obtain ⟨member, rfl⟩ := entryAt_mem found
  rw [not_or] at header
  have open' : ¬node.status.Terminal ∧ node.status ≠ .recoveryRequired := by
    constructor
    · rintro (status | status | status | status) <;>
        exact claimable (by simp [status])
    · intro status
      exact claimable (by simp [status])
  exact ⟨node, value, ⟨member, header.1, header.2, open'.1, open'.2,
      not_not.mp ready, not_le.mp slot⟩, rfl, definition, fields,
    updateNodeWithEvent_commits distinct member definition updated, built⟩

theorem claimIn_step {result : TaskLease} (claims : scope.claims nodeId owner)
    (distinct : (records.nodes.map NodeEntry.nodeId).Nodup)
    (done : claimIn clock graphId nodeId tenantId owner leaseSeconds operations
      records = .ok (result, after)) : GraphStep clock scope records after := by
  obtain ⟨node, value, claimable, rfl, definition, fields, committed, _⟩ := claimIn_ok distinct done
  exact .inr ⟨_, .claimed node value owner _ claims claimable definition fields, committed⟩

end TaskRepository

inductive Operation
  | prepare (submission : TaskGraphSubmission)
  | admitSubmission (admission : TaskGraphAdmission) (graph : TaskGraph)
  | admitPrepared (submission : TaskGraphSubmission)
  | cancelSubmission (submission : TaskSubmissionRef) (operation : OperationLedgerInput)
  | registerCancelRequest (operation : OperationLedgerInput)
  | compareAndSwap (operationId tenantId : String)
      (expectedStatus : OperationStatus) (nextRecord : OperationLedgerRecord)
  | append (value : OperationLedgerInput)
  | compactTerminal (resourceKind : ResourceKind) (resourceId tenantId : String)
      (throughSequence : Int)
  | publishPreparedInput (lease : TaskLease) (record : TaskPreparedInputRecord) (tenantId : String)
  | claim (graphId nodeId tenantId owner : String) (leaseSeconds : Int)
  | renew (lease : TaskLease) (tenantId : String) (leaseSeconds : Int)
  | bindExecution (lease : TaskLease) (tenantId executionId : String)
  | handoffExecution (lease : TaskLease) (tenantId executionId : String)
      (occupiesConcurrency : Bool)
  | requeueRetry (lease : TaskLease) (tenantId executionId : String) (nextAttemptAt : Time)
  | requeueWaitingRetry (graphId nodeId tenantId : String) (expectedFence : Int)
      (executionId : String) (nextAttemptAt : Time)
  | markRecoveryRequired (request : TaskRepository.MarkRecoveryRequired)
  | recoverGraph (graphId tenantId : String) (cancelRequested : Bool)
  | requeueRecovery (graphId nodeId tenantId : String) (expectedFence : Int)
      (executionId : Option String) (nextAttemptAt : Option Time)
  | schedulerState (graphId tenantId : String)
  | cancelNode (graphId nodeId tenantId executionId : String)
      (cancelConfirmed : Bool) (expectedFence : Option Int)
  | cancelGraph (graphId tenantId : String)
  | complete (request : TaskRepository.Complete)
  | fail (request : TaskRepository.Fail)

def Operation.scope : Operation → String → Scope
  | .claim graphId nodeId _ owner _, graph =>
    { claims := fun node worker => graph = graphId ∧ node = nodeId ∧ worker = owner }
  | .handoffExecution lease _ executionId occupies, graph =>
    { writes := fun node fields => graph = lease.graphId ∧ node = lease.nodeId ∧
        fields.status = .waiting ∧ fields.executionId = some executionId ∧
        fields.occupiesConcurrency = occupies }
  | .requeueWaitingRetry graphId nodeId _ _ _ nextAttemptAt, graph =>
    { writes := fun node fields => graph = graphId ∧ node = nodeId ∧ fields.status = .ready ∧
        fields.nextAttemptAt = some nextAttemptAt }
  | .markRecoveryRequired request, graph =>
    { writes := fun node fields => request.target = .ok ⟨graph, node⟩ ∧
        fields.status = .recoveryRequired ∧ fields.errorCode = some request.errorCode ∧
        fields.errorDigest = some request.errorDigest }
  | .recoverGraph graphId _ _, graph =>
    { writes := fun _ fields => graph = graphId ∧ (fields.status = .pending ∨
        fields.status = .ready ∧ fields.nextAttemptAt = none) }
  | .requeueRecovery graphId nodeId _ _ _ nextAttemptAt, graph =>
    { writes := fun node fields => graph = graphId ∧ node = nodeId ∧ fields.status = .ready ∧
        fields.nextAttemptAt = nextAttemptAt }
  | .schedulerState graphId _, graph => { schedules := graph = graphId }
  | .cancelNode graphId nodeId _ _ _ _, graph =>
    { writes := fun node fields => graph = graphId ∧ node = nodeId ∧
        fields.status = .recoveryRequired ∧
        fields.errorCode = some ErrorCode.taskEffectUnknown.value }
  | .cancelGraph graphId _, graph =>
    { cancels := graph = graphId
      writes := fun _ fields => graph = graphId ∧ fields.status = .recoveryRequired ∧
        fields.errorCode = some ErrorCode.executionStartUnknown.value }
  | .complete request, graph =>
    { writes := fun node fields => TaskRepository.terminalTarget request.lease request.tenantId
          request.graphId request.nodeId = .ok ⟨graph, node⟩ ∧
        fields.status = .succeeded ∧ fields.resultDigest = some request.resultDigest }
  | .fail request, graph =>
    { writes := fun node fields => TaskRepository.terminalTarget request.lease request.tenantId
          request.graphId request.nodeId = .ok ⟨graph, node⟩ ∧
        fields.status = .failed ∧ fields.errorCode = some request.errorCode ∧
        fields.errorDigest = some request.errorDigest }
  | _, _ => {}

def Operation.changesGraph : Operation → Bool
  | .prepare _ | .admitSubmission _ _ | .admitPrepared _ | .cancelSubmission _ _
  | .registerCancelRequest _ | .compareAndSwap _ _ _ _ | .append _
  | .compactTerminal _ _ _ _ => false
  | _ => true

variable {operation : Operation} {graphId : String}

theorem Operation.schedules_iff :
    (operation.scope graphId).schedules ↔
      ∃ tenantId, operation = .schedulerState graphId tenantId := by
  cases operation <;> simp [scope, eq_comm]

theorem Operation.cancels_iff :
    (operation.scope graphId).cancels ↔ ∃ tenantId, operation = .cancelGraph graphId tenantId := by
  cases operation <;> simp [scope, eq_comm]

inductive Outcome
  | submission (prepared : TaskGraphSubmission) (created : Bool)
  | graph (view : TaskGraphView)
  | withdrawn (admitted : Bool)
  | operation (record : OperationLedgerRecord) (replayed : Bool)
  | compacted (deleted : List OperationLedgerRecord)
  | preparedInput (record : TaskPreparedInputRecord)
  | lease (lease : TaskLease)
  | node (view : TaskNodeView)
  | state (state : TaskGraphState)
  | terminal (record : TaskTerminalRecord)

def presented {α : Type} (present : α → Outcome)
    (result : Except Raised (α × Store)) : Except Raised (Outcome × Store) :=
  result.map fun (value, after) => (present value, after)

theorem presented_eq_ok {α : Type} {present : α → Outcome}
    {result : Except Raised (α × Store)} {outcome : Outcome} {after : Store} :
    presented present result = .ok (outcome, after) ↔
      ∃ value, result = .ok (value, after) ∧ present value = outcome := by
  cases result with
  | error raised => simp [presented, Except.map]
  | ok pair =>
    obtain ⟨value, store⟩ := pair
    simp only [presented, Except.map, Except.ok.injEq, Prod.mk.injEq]
    constructor
    · rintro ⟨shown, rfl⟩
      exact ⟨value, ⟨rfl, rfl⟩, shown⟩
    · rintro ⟨_, ⟨rfl, rfl⟩, shown⟩
      exact ⟨shown, rfl⟩

namespace TaskRepository

variable (repo : TaskRepository) (clock : Clock)

def perform (operation : Operation) (store : Store) : Except Raised (Outcome × Store) :=
  match operation with
  | .prepare submission =>
    presented (fun (prepared, created) => .submission prepared created)
      (repo.prepareWithDisposition submission store)
  | .admitSubmission admission graph =>
    presented .graph (repo.admitSubmission clock admission graph store)
  | .admitPrepared submission =>
    presented .graph (repo.admitPrepared clock submission store)
  | .cancelSubmission submission operation =>
    presented .withdrawn (repo.cancelSubmission submission operation store)
  | .registerCancelRequest operation =>
    presented (fun (record, replayed) => .operation record replayed)
      (repo.registerCancelRequest operation store)
  | .compareAndSwap operationId tenantId expectedStatus nextRecord =>
    presented (fun record => .operation record false)
      (repo.compareAndSwap operationId tenantId expectedStatus nextRecord store)
  | .append value =>
    presented (fun record => .operation record false) (repo.append value store)
  | .compactTerminal resourceKind resourceId tenantId throughSequence =>
    presented .compacted (repo.compactTerminal resourceKind resourceId tenantId
      throughSequence store)
  | .publishPreparedInput lease record tenantId =>
    presented .preparedInput (repo.publishPreparedInput clock lease record tenantId store)
  | .claim graphId nodeId tenantId owner leaseSeconds =>
    presented .lease (repo.claim clock graphId nodeId tenantId owner leaseSeconds store)
  | .renew lease tenantId leaseSeconds =>
    presented .lease (repo.renew clock lease tenantId leaseSeconds store)
  | .bindExecution lease tenantId executionId =>
    presented .node (repo.bindExecution clock lease tenantId executionId store)
  | .handoffExecution lease tenantId executionId occupiesConcurrency =>
    presented .node (repo.handoffExecution clock lease tenantId executionId
      occupiesConcurrency store)
  | .requeueRetry lease tenantId executionId nextAttemptAt =>
    presented .node (repo.requeueRetry clock lease tenantId executionId nextAttemptAt store)
  | .requeueWaitingRetry graphId nodeId tenantId expectedFence executionId
      nextAttemptAt =>
      presented .node (repo.requeueWaitingRetry clock graphId nodeId tenantId
        expectedFence executionId nextAttemptAt store)
  | .markRecoveryRequired request =>
    presented .node (repo.markRecoveryRequired clock request store)
  | .recoverGraph graphId tenantId cancelRequested =>
    presented .graph (repo.recoverGraph clock graphId tenantId cancelRequested store)
  | .requeueRecovery graphId nodeId tenantId expectedFence executionId
      nextAttemptAt =>
      presented .graph (repo.requeueRecovery clock graphId nodeId tenantId
        expectedFence executionId nextAttemptAt store)
  | .schedulerState graphId tenantId =>
    presented .state (repo.schedulerState clock graphId tenantId store)
  | .cancelNode graphId nodeId tenantId executionId cancelConfirmed
      expectedFence =>
      presented .graph (repo.cancelNode clock graphId nodeId tenantId
        executionId cancelConfirmed expectedFence store)
  | .cancelGraph graphId tenantId =>
    presented .graph (repo.cancelGraph clock graphId tenantId store)
  | .complete request =>
    presented .terminal (repo.complete clock request store)
  | .fail request => presented .terminal (repo.fail clock request store)

/-- The answer of a call and the store it leaves; an error changes nothing. -/
def respond (operation : Operation) (store : Store) : Except Raised Outcome × Store :=
  match repo.perform clock operation store with
  | .ok (outcome, after) => (.ok outcome, after)
  | .error raised => (.error raised, store)

end TaskRepository

structure System where
  store : Store
  time : Time

structure Call where
  clock : Clock
  operation : Operation
  answer : Except Raised Outcome

def taskSystem (repo : TaskRepository) : Machine System Call where
  initial system := system.store = .empty
  step before call after :=
    before.time ≤ call.clock.now ∧ after.time = call.clock.fresh ∧
      (call.answer, after.store) = repo.respond call.clock call.operation before.store

namespace TaskRepository

variable {repo : TaskRepository} {clock : Clock} {store after : Store} {outcome : Outcome}

/-- The operations on the node rows of a graph change that graph only. -/
theorem perform_oneGraph (keyed : WellKeyed store) (changes : operation.changesGraph = true)
    (done : repo.perform clock operation store = .ok (outcome, after)) :
    OneGraphStep clock operation.scope store after := by
  cases operation <;> try cases changes
  all_goals
    simp only [perform, presented_eq_ok, publishPreparedInput, claim, renew, bindExecution,
      handoffExecution, requeueRetry, requeueWaitingRetry, markRecoveryRequired, recoverGraph,
      requeueRecovery, schedulerState, cancelNode, cancelGraph, complete, fail, bind_eq_ok] at done
    obtain ⟨value, done, _⟩ := done
  case publishPreparedInput =>
    obtain ⟨_, _, _, _, _, _, done⟩ := done
    exact .of_onGraph keyed (fun _ _ _ _ => publishPreparedInputIn_step) done
  case claim =>
    obtain ⟨_, _, _, _, _, _, done⟩ := done
    exact .of_onGraph keyed (fun _ _ _ distinct => claimIn_step ⟨rfl, rfl, rfl⟩ distinct) done
  case renew =>
    obtain ⟨_, _, _, _, _, _, done⟩ := done
    exact .of_onGraph keyed (fun _ _ _ distinct => renewIn_step distinct) done
  case bindExecution =>
    obtain ⟨_, _, _, _, _, _, done⟩ := done
    exact .of_onGraph keyed (fun _ _ _ distinct => bindExecutionIn_step distinct) done
  case handoffExecution =>
    obtain ⟨_, _, _, _, _, _, done⟩ := done
    exact .of_onGraph keyed (fun _ _ _ distinct => handoffExecutionIn_step
      (fun _ status execution slot => ⟨rfl, rfl, status, execution, slot⟩) distinct) done
  case requeueRetry =>
    obtain ⟨_, _, _, _, _, _, done⟩ := done
    exact .of_onGraph keyed (fun _ _ _ _ => requeueRetryIn_step) done
  case requeueWaitingRetry =>
    obtain ⟨_, _, _, _, done⟩ := done
    exact .of_onGraph keyed (fun _ _ _ distinct => requeueWaitingRetryIn_step
      (fun _ status next => ⟨rfl, rfl, status, next⟩) distinct) done
  case markRecoveryRequired =>
    obtain ⟨_, _, _, _, _, targeted, done⟩ := done
    exact .of_onGraph keyed (fun _ _ _ distinct => markRecoveryRequiredIn_step
      (fun _ status code digest => ⟨targeted, status, code, digest⟩) distinct) done
  case recoverGraph =>
    obtain ⟨_, _, done⟩ := done
    exact .of_onGraph keyed (fun _ _ _ _ => recoverGraphIn_step fun _ _ next => ⟨rfl, next⟩) done
  case requeueRecovery =>
    obtain ⟨_, _, _, _, done⟩ := done
    exact .of_onGraph keyed (fun _ _ _ distinct done => requeueRecoveryIn_step done
      (fun _ status next => ⟨rfl, rfl, status, next⟩) distinct) done
  case schedulerState =>
    obtain ⟨_, _, done⟩ := done
    exact .of_onGraph keyed (fun _ _ _ _ => schedulerStateIn_step rfl) done
  case cancelNode =>
    obtain ⟨_, _, _, _, _, _, _, _, done⟩ := done
    exact .of_onGraph keyed (fun _ _ _ _ => cancelNodeIn_step
      fun _ status code => ⟨rfl, rfl, status, code⟩) done
  case cancelGraph =>
    obtain ⟨_, _, done⟩ := done
    exact .of_onGraph keyed (fun _ _ _ _ => cancelGraphIn_step rfl
      fun _ _ status code => ⟨rfl, status, code⟩) done
  case complete =>
    obtain ⟨_, _, _, _, _, targeted, done⟩ := done
    exact .of_onGraph keyed (fun _ _ _ distinct => completeIn_step
      (fun _ status digest => ⟨targeted, status, digest⟩) distinct) done
  case fail =>
    obtain ⟨_, _, _, _, _, _, _, targeted, done⟩ := done
    exact .of_onGraph keyed (fun _ _ _ distinct => failIn_step
      (fun _ status code digest => ⟨targeted, status, code, digest⟩) distinct) done

theorem perform_storeStep (keyed : WellKeyed store)
    (done : repo.perform clock operation store = .ok (outcome, after)) :
    StoreStep clock operation.scope store after := by
  by_cases changes : operation.changesGraph = true
  · exact (perform_oneGraph keyed changes done).storeStep keyed
  cases operation <;> try exact absurd rfl changes
  all_goals
    simp only [perform, presented_eq_ok] at done
    obtain ⟨value, done, _⟩ := done
  case prepare => exact .of_graphs_eq (prepareWithDisposition_graphs done)
  case admitSubmission => exact admit_step keyed done
  case admitPrepared => exact admitPrepared_step keyed done
  case cancelSubmission => exact .of_graphs_eq (cancelSubmission_graphs done)
  case registerCancelRequest => exact .of_graphs_eq (registerCancelRequest_graphs done)
  case compareAndSwap => exact .of_graphs_eq (compareAndSwap_graphs done)
  case append => exact .of_graphs_eq (append_graphs done)
  case compactTerminal => exact .of_graphs_eq (compactTerminal_graphs done)

variable {answer : Except Raised Outcome}

theorem respond_cases (responded : (answer, after) = repo.respond clock operation store) :
    (∃ outcome, answer = .ok outcome ∧
        repo.perform clock operation store = .ok (outcome, after)) ∨
      (∃ raised, answer = .error raised ∧ after = store) := by
  unfold respond at responded
  split at responded
  case h_1 outcome stored done =>
    cases responded
    exact .inl ⟨outcome, rfl, done⟩
  case h_2 raised _ =>
    cases responded
    exact .inr ⟨raised, rfl, rfl⟩

theorem respond_storeStep (keyed : WellKeyed store)
    (responded : (answer, after) = repo.respond clock operation store) :
    StoreStep clock operation.scope store after := by
  rcases respond_cases responded with ⟨_, _, done⟩ | ⟨_, _, same⟩
  · exact perform_storeStep keyed done
  · exact .of_graphs_eq (same ▸ rfl)

end TaskRepository

end Linktools.Persistence
