import Linktools.Persistence.ResolvedCommits
import Linktools.Persistence.SubmissionStages

namespace Linktools.Persistence

open Linktools.Core Library Linktools.Task NodeEntry

/-! The error fields of a row: which rows may carry them, and which operations leave
them on a row that has left recovery. -/

def Failing (status : TaskStatus) : Prop :=
  status = .failed ∨ status = .blocked ∨ status = .recoveryRequired

structure ErrorFree (fields : TaskNodeFields) : Prop where
  errorCode : fields.errorCode = none
  errorDigest : fields.errorDigest = none
  errorOrigin : fields.errorOrigin = none
  safeErrorDetails : fields.safeErrorDetails = []

def Tidy (node : NodeEntry) : Prop :=
  ¬Failing node.status → ErrorFree node.state.toTaskNodeFields

def TidyRows (nodes : List NodeEntry) : Prop := ∀ node ∈ nodes, Tidy node

variable {repo : TaskRepository} {clock : Clock} {records after : TaskGraphRecords}
  {before : TaskEventState} {nodes next : List NodeEntry} {node value : NodeEntry}
  {view : TaskGraphView} {nodeId : String}

theorem Tidy.of_failing (failing : Failing value.status) : Tidy value :=
  fun working => absurd failing working

theorem Tidy.of_fields (same : value.state.toTaskNodeFields = fields) (free : ErrorFree fields) :
    Tidy value :=
  fun _ => same ▸ free

theorem Tidy.errorFree_of_unfinished (tidy : Tidy node) (unfinished : ¬node.status.Terminal)
    (stable : node.status ≠ .recoveryRequired) : ErrorFree node.state.toTaskNodeFields := by
  apply tidy
  rintro (status | status | status)
  · exact unfinished (.inr (.inl status))
  · exact unfinished (.inr (.inr (.inl status)))
  · exact stable status

theorem Tidy.errorFree_of_active (tidy : Tidy node)
    (active : node.status = .running ∨ node.status = .waiting ∨ node.status = .pending ∨
      node.status = .ready) : ErrorFree node.state.toTaskNodeFields := by
  apply tidy.errorFree_of_unfinished <;>
    rcases active with status | status | status | status <;>
    simp [status, TaskStatus.Terminal]

theorem TidyRows.nil : TidyRows [] := by
  intro row member
  cases member

theorem TidyRows.replaceNode (rows : TidyRows nodes) (tidy : Tidy value) :
    TidyRows (replaceNode nodes value) := by
  intro row member
  rcases mem_rewriteAt member with rfl | ⟨inside, _⟩
  · exact tidy
  · exact rows row inside

theorem TidyRows.perm (rows : TidyRows nodes) (same : next.Perm nodes) : TidyRows next :=
  fun row member => rows row (same.mem_iff.mp member)

theorem Commits.tidyRows (committed : Commits clock records change after)
    (kept : TidyRows change.kept) (added : TidyRows change.added) : TidyRows after.nodes := by
  refine TidyRows.perm ?_ committed.nodes
  intro row member
  rcases List.mem_append.mp member with inside | inside
  · exact kept row inside
  · exact added row inside

theorem initialNode_tidy
    (fresh : initialNode (fun _ => .pending) node.definition = .ok node) : Tidy node := by
  have status := initialNodeFields_status node.definition fun _ => .pending
  rw [← initialNode_fields fresh] at status
  intro working
  rw [initialNode_fields fresh]
  refine ⟨?_, rfl, rfl, rfl⟩
  have unblocked : (initialNodeFields node.definition fun _ => .pending).status ≠ .blocked := by
    rw [← initialNode_fields fresh]
    exact fun blocked => working (.inr (.inl blocked))
  exact if_neg unblocked

theorem expireLease_tidy (tidy : Tidy node) (expired : expireLease now node = .ok value) :
    Tidy value := by
  rcases expireLease_cases expired with rfl | ⟨running, _, fields, _⟩
  · exact tidy
  · obtain ⟨code, digest, origin, details⟩ := tidy.errorFree_of_active (.inl running)
    exact .of_fields fields ⟨code, digest, origin, details⟩

theorem followDependencies_tidy {definition : Option TaskNode} (tidy : Tidy node)
    (followed : followDependencies definition statuses node = .ok value) : Tidy value := by
  rcases followDependencies_cases followed with
    rfl | ⟨unfinished, stable, _, _, _, _, ⟨_, fields⟩ | ⟨_, _, fields⟩ | ⟨_, _, fields⟩⟩
  · exact tidy
  · apply Tidy.of_failing
    rw [status, fields]
    exact .inr (.inl rfl)
  · obtain ⟨code, digest, origin, details⟩ := tidy.errorFree_of_unfinished unfinished stable
    exact .of_fields fields ⟨code, digest, origin, details⟩
  · obtain ⟨code, digest, origin, details⟩ := tidy.errorFree_of_unfinished unfinished stable
    exact .of_fields fields ⟨code, digest, origin, details⟩

theorem TidyRows.reconciled (rows : TidyRows nodes)
    (reconciled : List.Forall₂ (Reconciled now statuses) nodes next) : TidyRows next := by
  intro row member
  obtain ⟨node, inside, _, expired, expiredOk, followed⟩ := forall₂_mem_right reconciled member
  exact followDependencies_tidy (expireLease_tidy (rows node inside) expiredOk) followed

/-- The rows of every graph carry error fields only while they are failing. -/
def TidyStore (store : Store) : Prop :=
  ∀ graphId records, store.graphs graphId = some records → TidyRows records.nodes

variable {store written : Store}

theorem TidyStore.of_graphs_eq (tidy : TidyStore store)
    (same : written.graphs = store.graphs) : TidyStore written := by
  intro graphId records found
  exact tidy graphId records (same ▸ found)

theorem TidyStore.onGraph {α : Type} {graphId : String} {missing : Raised} {result : α}
    {mutate : TaskGraphRecords → Except Raised (α × TaskGraphRecords)} (tidy : TidyStore store)
    (keeps : ∀ records after result, store.graphs graphId = some records →
      TidyRows records.nodes → mutate records = .ok (result, after) → TidyRows after.nodes)
    (done : store.onGraph graphId missing mutate = .ok (result, written)) : TidyStore written := by
  obtain ⟨records, after, found, mutated, rfl⟩ := Store.onGraph_ok.mp done
  have rows := keeps records after result found (tidy graphId records found) mutated
  intro other stored here
  by_cases same : other = after.graphId
  · subst same
    rw [Store.putGraph_graphs_self store rfl] at here
    cases here
    exact rows
  · rw [Store.putGraph_graphs_of_ne store rfl same] at here
    exact tidy other stored here

namespace TaskRepository

theorem publishPreparedInputIn_tidy (rows : TidyRows records.nodes)
    (done : publishPreparedInputIn clock lease record records = .ok (result, after)) :
    TidyRows after.nodes := by
  simp only [publishPreparedInputIn, bind_eq_ok] at done
  obtain ⟨_, _, _, _, _, _, done⟩ := done
  split at done
  · simp only [bind_eq_ok, pair_eq_ok] at done
    obtain ⟨_, _, _, rfl⟩ := done
    exact rows
  · rw [pair_eq_ok] at done
    obtain ⟨_, rfl⟩ := done
    exact rows

theorem claimIn_tidy {graphId tenantId owner : String}
    (distinct : (records.nodes.map NodeEntry.nodeId).Nodup) (rows : TidyRows records.nodes)
    (done : claimIn clock graphId nodeId tenantId owner leaseSeconds operations records =
      .ok (result, after)) : TidyRows after.nodes := by
  obtain ⟨node, value, claimable, _, _, fields, committed, _⟩ := claimIn_ok distinct done
  obtain ⟨code, digest, origin, details⟩ := (rows node claimable.member).errorFree_of_unfinished
    claimable.unfinished claimable.stable
  have tidy : Tidy value := .of_fields fields ⟨code, digest, origin, details⟩
  exact committed.tidyRows (rows.replaceNode tidy) .nil

theorem renewIn_tidy (rows : TidyRows records.nodes)
    (done : renewIn clock lease leaseSeconds records = .ok (result, after)) :
    TidyRows after.nodes := by
  simp only [renewIn, bind_eq_ok, orRaise_eq_ok, pair_eq_ok,
    requireLiveTaskLease_eq_ok, replace_eq_ok] at done
  obtain ⟨node, found, _, ⟨live, _⟩, _, _, value, ⟨_, fields⟩, _, rfl⟩ := done
  obtain ⟨code, digest, origin, details⟩ :=
    (rows node (entryAt_mem found).1).errorFree_of_active (.inl live.1)
  have tidy : Tidy value := .of_fields fields ⟨code, digest, origin, details⟩
  exact rows.replaceNode tidy

variable {executionId : String}

section

variable (distinct : (records.nodes.map NodeEntry.nodeId).Nodup)
include distinct

theorem bindExecutionIn_tidy (rows : TidyRows records.nodes)
    (done : bindExecutionIn clock lease executionId records = .ok (result, after)) :
    TidyRows after.nodes := by
  simp only [bindExecutionIn, bind_eq_ok, orRaise_eq_ok, requireLiveTaskLease_eq_ok] at done
  obtain ⟨node, found, _, ⟨live, _⟩, done⟩ := done
  split at done
  case isTrue =>
    split at done
    · rw [pair_eq_ok] at done
      exact done.2 ▸ rows
    · cases done
  case isFalse =>
    simp only [bind_eq_ok, pair_eq_ok, replace_eq_ok] at done
    obtain ⟨value, ⟨definition, fields⟩, written, updated, _, rfl⟩ := done
    obtain ⟨member, _⟩ := entryAt_mem found
    obtain ⟨code, digest, origin, details⟩ := (rows node member).errorFree_of_active (.inl live.1)
    have tidy : Tidy value := .of_fields fields ⟨code, digest, origin, details⟩
    exact (updateNodeWithEvent_commits distinct member definition updated).tidyRows
      (rows.replaceNode tidy) .nil

theorem handoffExecutionIn_tidy (rows : TidyRows records.nodes)
    (done : handoffExecutionIn clock lease executionId occupies records = .ok (result, after)) :
    TidyRows after.nodes := by
  obtain ⟨node, found, _, ⟨_, _, _, _, _, _, same⟩ | ⟨value, live, _, _, fields,
    committed, _⟩⟩ := handoffExecutionIn_ok distinct done
  · exact same ▸ rows
  · obtain ⟨_, _, origin, details⟩ :=
      (rows node (rowAt_mem found)).errorFree_of_active (.inl live.1)
    have tidy : Tidy value := .of_fields fields ⟨rfl, rfl, origin, details⟩
    exact committed.tidyRows (rows.replaceNode tidy) .nil

end

section

variable (rows : TidyRows records.nodes)
include rows

theorem requeueRetryIn_tidy
    (done : requeueRetryIn clock lease executionId nextAttemptAt records = .ok (result, after)) :
    TidyRows after.nodes := by
  simp only [requeueRetryIn, bind_eq_ok, orRaise_eq_ok, pure_eq_ok, Prod.exists,
    Prod.mk.injEq, requireLiveTaskLease_eq_ok, replace_eq_ok] at done
  obtain ⟨before, loaded, node, found, _, ⟨live, _⟩, _, _, value, ⟨definition, fields⟩,
    _, _, replaced, _, rfl⟩ := done
  rw [(records.eventState_ok loaded).2.2.2.1] at found
  obtain ⟨_, _, origin, details⟩ := (rows node (rowAt_mem found)).errorFree_of_active (.inl live.1)
  have tidy : Tidy value := .of_fields fields ⟨rfl, rfl, origin, details⟩
  rw [(replaceAndIsolate_ok loaded (rowAt_mem found) definition replaced).1]
  exact rows.replaceNode tidy

theorem requeueWaitingRetryIn_tidy
    (done : requeueWaitingRetryIn clock nodeId expectedFence executionId nextAttemptAt
      records = .ok (result, after)) : TidyRows after.nodes := by
  obtain ⟨_, value, _, _, _, _, _, _, fields, committed, _⟩ := requeueWaitingRetryIn_ok done
  have tidy : Tidy value := .of_fields fields ⟨rfl, rfl, rfl, rfl⟩
  exact committed.tidyRows (rows.replaceNode tidy) .nil

theorem markRecoveryRequiredIn_tidy
    (done : markRecoveryRequiredIn clock request nodeId records = .ok (result, after)) :
    TidyRows after.nodes := by
  obtain ⟨_, _, _, _, _, ⟨_, _, _, _, _, same⟩ | ⟨value, _, _, _, _, _, fields, _,
    committed, _⟩⟩ := markRecoveryRequiredIn_ok done
  · exact same ▸ rows
  · have tidy : Tidy value :=
      .of_failing (.inr (.inr ((congrArg TaskNodeFields.status fields).trans rfl)))
    exact committed.tidyRows (rows.replaceNode tidy) .nil

end

theorem recoverNode_tidy (tidy : Tidy node) (done : recoverNode node = .ok value) : Tidy value := by
  unfold recoverNode at done
  split at done
  case isTrue => exact .of_fields (replace_eq_ok.mp done).2 ⟨rfl, rfl, rfl, rfl⟩
  case isFalse =>
    cases done
    exact tidy

theorem recoverGraphIn_tidy (rows : TidyRows records.nodes)
    (done : recoverGraphIn clock cancelRequested records = .ok (view, after)) :
    TidyRows after.nodes := by
  simp only [recoverGraphIn, bind_eq_ok] at done
  obtain ⟨before, loaded, _, _, _, _, done⟩ := done
  obtain ⟨_, _, sameDefinitions, sameNodes, _⟩ := records.eventState_ok loaded
  split at done
  case isTrue =>
    rw [pair_eq_ok] at done
    exact done.2 ▸ rows
  case isFalse =>
    simp only [bind_eq_ok, mapM_eq_ok, sameDefinitions, sameNodes] at done
    obtain ⟨cleared, clearedOk, next, reconciled, _, _, done⟩ := done
    have clearedRows : RowsMove clock.now ({ writes := fun _ _ => True } : Scope).writes
        records.nodes cleared := clearedOk.imp fun _ _ => recoverNode_row fun _ _ _ => trivial
    have same : records.definitions = cleared.map definition := clearedRows.definitions.symm
    have clearedTidy : TidyRows cleared := by
      intro row member
      obtain ⟨node, inside, recovered⟩ := forall₂_mem_right clearedOk member
      exact recoverNode_tidy (rows node inside) recovered
    rw [applyGraphTransition_nodes done]
    exact clearedTidy.reconciled (reconciledTaskNodes_ok (same ▸ reconciled)).2

theorem schedulerStateIn_tidy {result : TaskGraphState} (rows : TidyRows records.nodes)
    (done : schedulerStateIn clock records = .ok (result, after)) : TidyRows after.nodes := by
  obtain ⟨next, reconciled, committed⟩ := schedulerStateIn_ok done
  exact committed.tidyRows (rows.reconciled (reconciledTaskNodes_ok reconciled).2) .nil

theorem failIn_tidy {request : Fail} {result : TaskTerminalRecord}
    (distinct : (records.nodes.map NodeEntry.nodeId).Nodup) (rows : TidyRows records.nodes)
    (done : failIn clock request nodeId records = .ok (result, after)) : TidyRows after.nodes := by
  obtain ⟨_, _, _, ⟨_, _, same⟩ | ⟨value, _, _, _, _, _, fields, committed, _⟩⟩ :=
    failIn_ok distinct done
  · exact same ▸ rows
  · have tidy : Tidy value :=
      .of_failing (.inl ((congrArg TaskNodeFields.status fields).trans rfl))
    exact committed.tidyRows (rows.replaceNode tidy) .nil

theorem cancelGraphNode_tidy (tidy : Tidy node)
    (done : repo.cancelGraphNode graphId node = .ok value) : Tidy value := by
  unfold cancelGraphNode at done
  split at done
  case isTrue =>
    split at done
    · exact .of_fields (replace_eq_ok.mp done).2 ⟨rfl, rfl, rfl, rfl⟩
    · cases done
      exact tidy
  case isFalse =>
    split at done
    case isTrue =>
      cases done
      exact tidy
    case isFalse =>
      split at done
      case isTrue waiting =>
        split at done
        · obtain ⟨code, digest, origin, details⟩ :=
            tidy.errorFree_of_active (.inr (.inr waiting.1))
          exact .of_fields (replace_eq_ok.mp done).2 ⟨code, digest, origin, details⟩
        · have fields := (replace_eq_ok.mp done).2
          exact .of_failing (.inr (.inr ((congrArg TaskNodeFields.status fields).trans rfl)))
      case isFalse =>
        cases done
        exact tidy

theorem cancelGraphIn_tidy (rows : TidyRows records.nodes)
    (done : repo.cancelGraphIn clock records = .ok (view, after)) : TidyRows after.nodes := by
  simp only [cancelGraphIn, bind_eq_ok, mapM_eq_ok] at done
  obtain ⟨before, loaded, next, cancelled, _, _, done⟩ := done
  rw [(records.eventState_ok loaded).2.2.2.1] at cancelled
  rw [applyGraphTransition_nodes done]
  intro row member
  obtain ⟨node, inside, cancelledOk⟩ := forall₂_mem_right cancelled member
  exact cancelGraphNode_tidy (rows node inside) cancelledOk

/-- A confirmed cancellation of a row in recovery leaves the origin and the details of
its error, as the two operations below do. -/
theorem cancelNodeIn_tidy (rows : TidyRows records.nodes)
    (outside : cancelConfirmed = true → ∀ node, records.entryAt nodeId = some node →
      node.status = .recoveryRequired → node.state.executionId = some executionId →
      fenceUnexpected expectedFence node.state.fence)
    (done : repo.cancelNodeIn clock nodeId executionId cancelConfirmed expectedFence
      records = .ok (view, after)) : TidyRows after.nodes := by
  simp only [cancelNodeIn, bind_eq_ok, orRaise_eq_ok, refuse_eq_ok, not_not] at done
  obtain ⟨before, loaded, node, found, _, bound, _, expected, done⟩ := done
  rw [(records.eventState_ok loaded).2.2.2.1] at found
  have member := rowAt_mem found
  split at done
  case isTrue =>
    rw [pair_eq_ok] at done
    exact done.2 ▸ rows
  case isFalse unfinished =>
    split at done
    case isTrue =>
      rw [pair_eq_ok] at done
      exact done.2 ▸ rows
    case isFalse =>
      split at done
      case isTrue =>
        simp only [bind_eq_ok, replace_eq_ok] at done
        obtain ⟨value, ⟨definition, fields⟩, replaced⟩ := done
        have tidy : Tidy value :=
          .of_failing (.inr (.inr ((congrArg TaskNodeFields.status fields).trans rfl)))
        rw [(replaceAndIsolate_ok loaded member definition replaced).1]
        exact rows.replaceNode tidy
      case isFalse confirmed =>
        simp only [bind_eq_ok, replace_eq_ok] at done
        obtain ⟨value, ⟨definition, fields⟩, replaced⟩ := done
        have stable : node.status ≠ .recoveryRequired := fun recovering =>
          expected (outside (by simpa using confirmed) node found recovering bound)
        obtain ⟨_, _, origin, details⟩ :=
          (rows node member).errorFree_of_unfinished unfinished stable
        have tidy : Tidy value := .of_fields fields ⟨rfl, rfl, origin, details⟩
        obtain ⟨next, reconciled, _, nodes, _⟩ :=
          replaceAndReconcile_ok loaded member definition replaced
        rw [nodes]
        exact (rows.replaceNode tidy).reconciled reconciled

variable {request : Complete}

theorem completionExecutionId_recovering
    (done : completionExecutionId clock request node.state = .ok resolved)
    (recovering : node.status = .recoveryRequired) :
    request.lease = none ∧ requireRecordedCompletion request node.state = .ok () := by
  unfold completionExecutionId at done
  split at done
  case h_1 =>
    simp only [bind_eq_ok, requireLiveTaskLease_eq_ok] at done
    obtain ⟨_, ⟨live, _⟩, _⟩ := done
    cases live.1.symm.trans recovering
  case h_2 absent =>
    obtain ⟨_, recorded, _⟩ := bind_eq_ok.mp done
    exact ⟨absent, recorded⟩

/-- The nodes that a completion adds, if any, may be added. -/
def ExpansionValid (request : Complete) (nodeId : String) (records : TaskGraphRecords) : Prop :=
  ∃ before added, completionState request nodeId records = .ok before ∧
    validatedExpansion request nodeId records before = .ok added

theorem completeIn_expansionValid {result : TaskTerminalRecord}
    (done : completeIn clock request nodeId records = .ok (result, after))
    (found : records.entryAt nodeId = some node) (unfinished : ¬node.status.Terminal) :
    ExpansionValid request nodeId records := by
  simp only [completeIn, bind_eq_ok, orRaise_eq_ok] at done
  obtain ⟨_, _, before, loaded, current, stored, _, _, done⟩ := done
  rw [(completionState_ok loaded).2.1] at stored
  cases stored.symm.trans found
  rw [if_neg unfinished] at done
  simp only [bind_eq_ok] at done
  obtain ⟨_, _, added, validated, _⟩ := done
  exact ⟨before, added, loaded, validated⟩

theorem completeIn_tidy {result : TaskTerminalRecord}
    (distinct : (records.nodes.map NodeEntry.nodeId).Nodup) (rows : TidyRows records.nodes)
    (outside : request.lease = none → ∀ node, records.entryAt nodeId = some node →
      node.status = .recoveryRequired → requireRecordedCompletion request node.state = .ok () →
      ¬ExpansionValid request nodeId records)
    (done : completeIn clock request nodeId records = .ok (result, after)) :
    TidyRows after.nodes := by
  obtain ⟨node, member, rfl, ⟨_, _, same⟩ | ⟨value, _, added, resolvedOk, completes, _,
    extends', committed, _⟩⟩ := completeIn_ok distinct done
  · exact same ▸ rows
  · have stable : node.status ≠ .recoveryRequired := by
      intro recovering
      obtain ⟨absent, recorded⟩ := completionExecutionId_recovering resolvedOk recovering
      have found := rowAt_of_mem distinct member
      exact outside absent node found recovering recorded
        (completeIn_expansionValid done found completes.unfinished)
    obtain ⟨_, _, origin, details⟩ :=
      (rows node member).errorFree_of_unfinished completes.unfinished stable
    have tidy : Tidy value := .of_fields completes.state ⟨rfl, rfl, origin, details⟩
    refine committed.tidyRows (rows.replaceNode tidy) ?_
    rcases extends' with rfl | extending
    · exact .nil
    · exact fun row member => initialNode_tidy (extending.fresh row member)

end TaskRepository

/-- The call takes a row out of recovery, and the row keeps the origin and the details
of its error: a requeue, a confirmed cancellation, or a completion by the recorded
execution, each with arguments that pass its checks. -/
def KeepsRecoveryError (repo : TaskRepository) (store : Store) : Operation → Prop
  | .requeueRecovery graphId nodeId tenantId expectedFence executionId _ =>
    repo.requireTenant tenantId = .ok () ∧ 1 ≤ expectedFence ∧
      (∀ execution ∈ executionId, blank execution ≠ true) ∧
      ∃ node, store.nodeAt graphId nodeId = some node ∧ node.status = .recoveryRequired ∧
        (node.state.fence : Int) = expectedFence ∧ node.state.executionId ≠ none ∧
        (executionId = none ∨ node.state.executionId = executionId)
  | .cancelNode graphId nodeId tenantId executionId cancelConfirmed expectedFence =>
    repo.requireTenant tenantId = .ok () ∧ blank nodeId ≠ true ∧ blank executionId ≠ true ∧
      (∀ fence ∈ expectedFence, 1 ≤ fence) ∧ cancelConfirmed = true ∧
      ∃ node, store.nodeAt graphId nodeId = some node ∧ node.status = .recoveryRequired ∧
        node.state.executionId = some executionId ∧
        ¬TaskRepository.fenceUnexpected expectedFence node.state.fence
  | .complete request =>
    repo.requireTenant request.tenantId = .ok () ∧ isSha256 request.resultDigest ≠ false ∧
      request.lease = none ∧ ∃ target records node,
        TaskRepository.terminalTarget request.lease request.tenantId request.graphId
          request.nodeId = .ok target ∧ store.graphs target.graphId = some records ∧
        records.entryAt target.nodeId = some node ∧ node.status = .recoveryRequired ∧
        TaskRepository.requireRecordedCompletion request node.state = .ok () ∧
        TaskRepository.ExpansionValid request target.nodeId records
  | _ => False

namespace TaskRepository

theorem admitInTransaction_tidy (keyed : WellKeyed store) (tidy : TidyStore store)
    (done : repo.admitInTransaction clock admission graph requirePrepared store =
      .ok (view, written)) : TidyStore written := by
  intro graphId records found
  rcases admitInTransaction_rows keyed done graphId records found with
    ⟨earlier, stored, same⟩ | created
  · exact same ▸ tidy graphId earlier stored
  · exact fun row member => initialNode_tidy (created.fresh row member)

/-- A call that does not release a row from recovery keeps all rows tidy. -/
theorem perform_tidy (keyed : WellKeyed store) (tidy : TidyStore store)
    (outside : ¬KeepsRecoveryError repo store operation)
    (done : repo.perform clock operation store = .ok (outcome, written)) :
    TidyStore written := by
  cases operation <;> simp only [perform, presented_eq_ok] at done <;>
    obtain ⟨value, done, _⟩ := done
  all_goals
    try simp only [admitSubmission, admitPrepared, publishPreparedInput, claim, renew,
      bindExecution, handoffExecution, requeueRetry, requeueWaitingRetry, markRecoveryRequired,
      recoverGraph, requeueRecovery, schedulerState, cancelNode, cancelGraph, complete, fail,
      bind_eq_ok] at done
  case prepare => exact tidy.of_graphs_eq (prepareWithDisposition_graphs done)
  case admitSubmission =>
    obtain ⟨_, _, _, _, _, _, admitted⟩ := done
    exact admitInTransaction_tidy keyed tidy admitted
  case admitPrepared =>
    obtain ⟨_, _, _, _, _, _, _, _, admitted⟩ := done
    exact admitInTransaction_tidy keyed tidy admitted
  case cancelSubmission => exact tidy.of_graphs_eq (cancelSubmission_graphs done)
  case registerCancelRequest => exact tidy.of_graphs_eq (registerCancelRequest_graphs done)
  case compareAndSwap => exact tidy.of_graphs_eq (compareAndSwap_graphs done)
  case append => exact tidy.of_graphs_eq (append_graphs done)
  case compactTerminal => exact tidy.of_graphs_eq (compactTerminal_graphs done)
  case publishPreparedInput =>
    obtain ⟨_, _, _, _, _, _, done⟩ := done
    exact tidy.onGraph (fun _ _ _ _ rows => publishPreparedInputIn_tidy rows) done
  case claim =>
    obtain ⟨_, _, _, _, _, _, done⟩ := done
    exact tidy.onGraph (fun _ _ _ found rows => claimIn_tidy (keyed _ _ found).2 rows) done
  case renew =>
    obtain ⟨_, _, _, _, _, _, done⟩ := done
    exact tidy.onGraph (fun _ _ _ _ rows => renewIn_tidy rows) done
  case bindExecution =>
    obtain ⟨_, _, _, _, _, _, done⟩ := done
    exact tidy.onGraph (fun _ _ _ found rows => bindExecutionIn_tidy (keyed _ _ found).2 rows) done
  case handoffExecution =>
    obtain ⟨_, _, _, _, _, _, done⟩ := done
    exact tidy.onGraph (fun _ _ _ found rows =>
      handoffExecutionIn_tidy (keyed _ _ found).2 rows) done
  case requeueRetry =>
    obtain ⟨_, _, _, _, _, _, done⟩ := done
    exact tidy.onGraph (fun _ _ _ _ rows => requeueRetryIn_tidy rows) done
  case requeueWaitingRetry =>
    obtain ⟨_, _, _, _, done⟩ := done
    exact tidy.onGraph (fun _ _ _ _ rows => requeueWaitingRetryIn_tidy rows) done
  case markRecoveryRequired =>
    obtain ⟨_, _, _, _, _, _, done⟩ := done
    exact tidy.onGraph (fun _ _ _ _ rows => markRecoveryRequiredIn_tidy rows) done
  case recoverGraph =>
    obtain ⟨_, _, done⟩ := done
    exact tidy.onGraph (fun _ _ _ _ rows => recoverGraphIn_tidy rows) done
  case requeueRecovery =>
    simp only [refuse_eq_ok, not_or, not_lt] at done
    obtain ⟨_, tenant, _, ⟨positive, named⟩, done⟩ := done
    obtain ⟨records, after, found, requeued, _⟩ := Store.onGraph_ok.mp done
    obtain ⟨node, _, _, member, rfl, recovering, fence, bound, execution, _⟩ :=
      requeueRecoveryIn_ok requeued
    refine absurd ⟨tenant, positive, fun execution given empty => named ⟨execution, given, empty⟩,
      node, ?_, recovering, ?_, bound, execution⟩ outside
    · exact Store.nodeAt_eq_some.mpr ⟨records, found, rowAt_of_mem (keyed _ records found).2 member⟩
    · omega
  case schedulerState =>
    obtain ⟨_, _, done⟩ := done
    exact tidy.onGraph (fun _ _ _ _ rows => schedulerStateIn_tidy rows) done
  case cancelNode =>
    simp only [refuse_eq_ok, not_exists, not_and, not_lt] at done
    obtain ⟨_, tenant, _, present, _, named, _, positive, done⟩ := done
    refine tidy.onGraph (fun records _ _ found rows => cancelNodeIn_tidy rows ?_) done
    intro confirmed node stored recovering bound
    refine not_not.mp fun expected => outside ⟨tenant, present, named, positive, confirmed, node,
      ?_, recovering, bound, expected⟩
    exact Store.nodeAt_eq_some.mpr ⟨records, found, stored⟩
  case cancelGraph =>
    obtain ⟨_, _, done⟩ := done
    exact tidy.onGraph (fun _ _ _ _ rows => cancelGraphIn_tidy rows) done
  case complete =>
    obtain ⟨_, tenant, _, digest, target, targetOk, done⟩ := done
    refine tidy.onGraph (fun records _ _ found rows =>
      completeIn_tidy (keyed _ _ found).2 rows ?_) done
    intro absent node stored recovering recorded valid
    exact outside ⟨tenant, refuse_eq_ok.mp digest, absent, target, records, node, targetOk, found,
      stored, recovering, recorded, valid⟩
  case fail =>
    obtain ⟨_, _, _, _, _, _, _, _, done⟩ := done
    exact tidy.onGraph (fun _ _ _ found rows => failIn_tidy (keyed _ _ found).2 rows) done

end TaskRepository

variable {first last start : System} {calls : List Call} {call : Call}

/-- The call does not take a row out of recovery with its error on it. -/
def ClearsRecoveryError (repo : TaskRepository) (system : System) (call : Call) : Prop :=
  ¬KeepsRecoveryError repo system.store call.operation

theorem step_tidy (reachable : (taskSystem repo).Reachable first)
    (tidy : TidyStore first.store) (clears : ClearsRecoveryError repo first call)
    (step : (taskSystem repo).step first call last) : TidyStore last.store := by
  rcases TaskRepository.respond_cases step.2.2 with ⟨_, _, done⟩ | ⟨_, _, same⟩
  · have keyed := (soundSystem_of_reachable reachable).wellKeyed
    exact TaskRepository.perform_tidy keyed tidy clears done
  · exact same ▸ tidy

theorem run_tidy (reachable : (taskSystem repo).Reachable first)
    (tidy : TidyStore first.store)
    (run : Machine.Run ((taskSystem repo).restrict (ClearsRecoveryError repo))
      first calls last) : TidyStore last.store := by
  induction run with
  | nil => exact tidy
  | cons step _ ih => exact ih (reachable.step step.1) (step_tidy reachable tidy step.2 step.1)

/-- In a run that takes no row out of recovery by a requeue, a confirmed cancellation or
a completion, every row that is not failing is free of error fields. -/
theorem error_fields_describe_failing_nodes {graphId : String}
    (initial : (taskSystem repo).initial start)
    (run : Machine.Run ((taskSystem repo).restrict (ClearsRecoveryError repo)) start calls last)
    (found : last.store.nodeAt graphId nodeId = some node)
    (working : node.status ≠ .failed ∧ node.status ≠ .blocked ∧ node.status ≠ .recoveryRequired) :
    node.state.errorCode = none ∧ node.state.errorDigest = none ∧
      node.state.errorOrigin = none ∧ node.state.safeErrorDetails = [] := by
  have empty : TidyStore start.store := by
    intro graphId records stored
    rw [initial] at stored
    cases stored
  obtain ⟨records, stored, inside⟩ := Store.nodeAt_eq_some.mp found
  have tidy := run_tidy (.of_initial initial) empty run graphId records stored node
    (rowAt_mem inside)
  obtain ⟨code, digest, origin, details⟩ := tidy (by
    rintro (failed | blocked | recovering)
    · exact working.1 failed
    · exact working.2.1 blocked
    · exact working.2.2 recovering)
  exact ⟨code, digest, origin, details⟩

/-- The bound first node goes to recovery, and the graph is recovered. -/
def sampleRecovery : List (Clock × Operation) :=
  sampleStart ++ [(tick 4, (sampleMark (some "exec-1")).operation),
    (tick 5, .recoverGraph "graph" "tenant" false)]

def sampleRecovered : System := sampleSystem sampleRecovery

/-- A recovered graph leaves no error on its node. -/
theorem sample_recovered_node_error_free :
    ∃ node, sampleRecovered.store.nodeAt "graph" "a" = some node ∧ node.status = .ready ∧
      node.state.errorCode = none ∧ node.state.errorDigest = none ∧
      node.state.errorOrigin = none ∧ node.state.safeErrorDetails = [] := by
  have status : (sampleRecovered.store.nodeAt "graph" "a").map NodeEntry.status =
      some .ready := by decide +kernel
  obtain ⟨node, found, ready⟩ := Option.map_eq_some_iff.mp status
  have run : Machine.Run ((taskSystem sampleRepository).restrict
      (ClearsRecoveryError sampleRepository))
      emptySystem (sampleRepository.play emptySystem sampleRecovery).1 sampleRecovered := by
    refine TaskRepository.play_restricted (show TaskRepository.Paced 0 _ by decide +kernel) ?_
    intro system timed member
    simp only [sampleRecovery, sampleStart, sampleMark, NodeOperation.operation,
      List.cons_append, List.nil_append, List.mem_cons, List.not_mem_nil, or_false] at member
    rcases member with rfl | rfl | rfl | rfl | rfl <;> exact id
  have initial : (taskSystem sampleRepository).initial emptySystem := rfl
  exact ⟨node, found, ready, error_fields_describe_failing_nodes initial run found
    (by simp [ready])⟩

def sampleRequeued : System :=
  sampleSystem (sampleStart ++ [(tick 4, (sampleMark (some "exec-1")).operation),
    (tick 5, .requeueRecovery "graph" "a" "tenant" 1 (some "exec-1") none)])

/-- A requeued node is ready and still names the origin of its past error. -/
theorem requeued_node_keeps_error_origin :
    ¬∀ (repo : TaskRepository) (system : System) (graphId nodeId : String)
      (node : NodeEntry), (taskSystem repo).Reachable system →
      system.store.nodeAt graphId nodeId = some node → node.status ≠ .failed →
      node.status ≠ .blocked → node.status ≠ .recoveryRequired →
      node.state.errorCode = none ∧ node.state.errorDigest = none ∧
        node.state.errorOrigin = none ∧ node.state.safeErrorDetails = [] := by
  intro clean
  have requeued : (sampleRequeued.store.nodeAt "graph" "a").map (fun node =>
      (node.status, node.state.errorOrigin)) = some (.ready, some .node) := by
    decide +kernel
  obtain ⟨node, found, fields⟩ := Option.map_eq_some_iff.mp requeued
  obtain ⟨ready, kept⟩ := Prod.mk.inj fields
  have reachable : (taskSystem sampleRepository).Reachable sampleRequeued :=
    play_reachable (by decide +kernel)
  have cleared := clean _ _ "graph" "a" node reachable found (by simp [ready])
    (by simp [ready]) (by simp [ready])
  simp [kept] at cleared

end Linktools.Persistence
