import Linktools.Persistence.TaskSteps

namespace Linktools.Persistence

open Linktools.Core Library Linktools.Task NodeEntry

variable {clock : Clock} {scope : Scope} {records after : TaskGraphRecords}
  {before : TaskEventState} {nodes next : List NodeEntry} {node value : NodeEntry}
  {view : TaskGraphView} {status : TaskStatus}

theorem eventState_distinct (loaded : records.eventState = .ok before) :
    (records.nodes.map NodeEntry.nodeId).Nodup := by
  obtain ⟨_, _, _, _, graph, sameNodes, _⟩ := records.eventState_ok loaded
  have distinct := graph.ids_nodup
  rwa [sameNodes, TaskGraphRecords.definitions, map_nodeId_definition] at distinct

theorem isolatedGraphStatus_rows (distinct : (records.nodes.map NodeEntry.nodeId).Nodup)
    (same : next.map definition = records.definitions)
    (computed : isolatedGraphStatus next records.definitions = .ok status) :
    status = derivedStatus next := by
  refine isolatedGraphStatus_eq computed ?_ (by rw [same])
  rw [← map_nodeId_definition, same, TaskGraphRecords.definitions, map_nodeId_definition]
  exact distinct

theorem derivedStatus_eq_of_effective (distinct : (nodes.map NodeEntry.nodeId).Nodup)
    (definitions : graph.nodes = nodes.map NodeEntry.definition)
    (computed : effectiveGraphStatus graph nodes = .ok effective) :
    effective = derivedStatus nodes ∧ graph.status ≠ .cancelled ∨
      effective = derivedStatus nodes ∧ effective = .recoveryRequired ∨
      effective = .cancelled ∧ effective = graph.status := by
  simp only [effectiveGraphStatus, bind_eq_ok] at computed
  obtain ⟨isolated, isolatedOk, computed⟩ := computed
  have derived := isolatedGraphStatus_eq isolatedOk distinct (by rw [definitions])
  split at computed
  case isTrue recovery =>
    rw [pure_eq_ok] at computed
    exact .inr (.inl ⟨computed ▸ derived, computed ▸ recovery⟩)
  case isFalse =>
    split at computed
    case isTrue header =>
      split at computed
      case isTrue =>
        rw [pure_eq_ok] at computed
        exact .inr (.inr ⟨computed.symm, computed ▸ header.symm⟩)
      case isFalse => cases computed
    case isFalse other =>
      rw [pure_eq_ok] at computed
      exact .inl ⟨computed ▸ derived, other⟩

namespace TaskRepository

section

variable (loaded : records.eventState = .ok before)
include loaded

section

variable (member : node ∈ records.nodes)
include member

theorem replaceAndIsolate_ok (definition : value.definition = node.definition)
    (done : replaceAndIsolate clock records before value = .ok (view, after)) :
    after.nodes = replaceNode records.nodes value ∧ Commits clock records
        { kept := replaceNode records.nodes value
          status := derivedStatus (replaceNode records.nodes value) } after := by
  obtain ⟨_, _, sameDefinitions, sameNodes, _⟩ := records.eventState_ok loaded
  have distinct := eventState_distinct loaded
  simp only [replaceAndIsolate, bind_eq_ok, sameDefinitions, sameNodes] at done
  obtain ⟨status, computed, done⟩ := done
  obtain rfl := isolatedGraphStatus_eq computed
    (by rw [replaceNode, map_key_rewriteAt rfl]; exact distinct)
    (by rw [replaceNode_definitions distinct member definition]; rfl)
  exact ⟨applyGraphTransition_nodes done, applyGraphTransition_commits loaded done⟩

theorem replaceAndIsolate_step
    (row : RowMoves clock.now scope.writes node value) (unfinished : ¬node.status.Terminal)
    (done : replaceAndIsolate clock records before value = .ok (view, after)) :
    GraphStep clock scope records after :=
  .inr ⟨_, .transition _ (replaceNode_rowsMove (eventState_distinct loaded) member row)
    ⟨node, member, unfinished⟩, (replaceAndIsolate_ok loaded member row.definition done).2⟩

theorem replaceAndReconcile_ok (same : value.definition = node.definition)
    (done : replaceAndReconcile clock records before value = .ok (view, after)) :
    ∃ next, List.Forall₂ (Reconciled none (statusIn (rowAt NodeEntry.nodeId next)))
        (replaceNode records.nodes value) next ∧
      next.map definition = records.definitions ∧ after.nodes = next ∧
      Commits clock records { kept := next, status := derivedStatus next } after ∧
      view = ⟨records.graphId, derivedStatus next, records.definitions⟩ := by
  obtain ⟨sameId, _, sameDefinitions, sameNodes, _⟩ := records.eventState_ok loaded
  have distinct := eventState_distinct loaded
  simp only [replaceAndReconcile, bind_eq_ok, sameDefinitions, sameNodes] at done
  obtain ⟨next, reconciled, status, computed, done⟩ := done
  have replaced := replaceNode_definitions distinct member same
  rw [TaskGraphRecords.definitions, ← replaced] at reconciled
  have settled := (reconciledTaskNodes_ok reconciled).2
  have definitions : next.map definition = records.definitions :=
    (forall₂_map_key (fun _ _ row => row.definition_eq) settled).trans replaced
  obtain rfl := isolatedGraphStatus_rows distinct definitions computed
  refine ⟨next, settled, definitions,
    applyGraphTransition_nodes done, applyGraphTransition_commits loaded done, ?_⟩
  simp only [applyGraphTransition, bind_eq_ok, pair_eq_ok, sameId, sameDefinitions] at done
  obtain ⟨_, _, _, _, rfl, _⟩ := done
  rfl

theorem replaceAndReconcile_step
    (row : RowMoves clock.now scope.writes node value) (unfinished : ¬node.status.Terminal)
    (done : replaceAndReconcile clock records before value = .ok (view, after)) :
    GraphStep clock scope records after := by
  obtain ⟨next, reconciled, _, _, committed, _⟩ :=
    replaceAndReconcile_ok loaded member row.definition done
  exact .inr ⟨_, .transition _ ((replaceNode_rowsMove (eventState_distinct loaded) member row).trans
    (reconciled.imp fun _ _ row => row.rowMoves (by simp))) ⟨node, member, unfinished⟩, committed⟩

end

end

variable {executionId : String} {nextAttemptAt : Time}

theorem requeueRetryIn_step
    (done : requeueRetryIn clock lease executionId nextAttemptAt records = .ok (result, after)) :
    GraphStep clock scope records after := by
  simp only [requeueRetryIn, bind_eq_ok, orRaise_eq_ok, refuse_eq_ok, pure_eq_ok, Prod.exists,
    Prod.mk.injEq, requireLiveTaskLease_eq_ok, replace_eq_ok, not_not] at done
  obtain ⟨before, loaded, node, found, _, ⟨live, _⟩, _, bound, value,
    ⟨definition, fields⟩, view, written, replaced, _, rfl⟩ := done
  rw [(records.eventState_ok loaded).2.2.2.1] at found
  have row : RowMoves clock.now scope.writes node value := .single definition (by
    rw [fields]
    exact .retry _ live (by simp [bound]))
  exact replaceAndIsolate_step loaded (rowAt_mem found) row
    (by simp [status, live.1, TaskStatus.Terminal]) replaced

variable {nodeId : String} {expectedFence : Nat}

theorem requeueWaitingRetryIn_ok
    (done : requeueWaitingRetryIn clock nodeId expectedFence executionId
      nextAttemptAt records = .ok (result, after)) :
    ∃ node value, node ∈ records.nodes ∧ node.nodeId = nodeId ∧
      node.status = .waiting ∧ node.state.fence = expectedFence ∧
      node.state.executionId = some executionId ∧ value.definition = node.definition ∧
      value.state.toTaskNodeFields = node.state.waitingRetried nextAttemptAt ∧ Commits clock records
        { kept := replaceNode records.nodes value
          status := derivedStatus (replaceNode records.nodes value) } after ∧
      result = value.view records.graphId := by
  simp only [requeueWaitingRetryIn, bind_eq_ok, orRaise_eq_ok, refuse_eq_ok,
    pure_eq_ok, Prod.exists, Prod.mk.injEq, replace_eq_ok, not_or, not_not] at done
  obtain ⟨before, loaded, node, found, _, ⟨waiting, fence, bound, _⟩, value,
    ⟨definition, fields⟩, view, written, replaced, rfl, rfl⟩ := done
  rw [(records.eventState_ok loaded).2.2.2.1] at found
  exact ⟨node, value, rowAt_mem found, rowAt_key found, waiting, fence, bound, definition, fields,
    (replaceAndIsolate_ok loaded (rowAt_mem found) definition replaced).2, rfl⟩

theorem requeueWaitingRetryIn_step (writes : ∀ fields, fields.status = .ready →
      fields.nextAttemptAt = some nextAttemptAt → scope.writes nodeId fields)
    (distinct : (records.nodes.map NodeEntry.nodeId).Nodup)
    (done : requeueWaitingRetryIn clock nodeId expectedFence executionId
      nextAttemptAt records = .ok (result, after)) : GraphStep clock scope records after := by
  obtain ⟨node, value, member, rfl, waiting, _, _, definition, fields, committed, _⟩ :=
    requeueWaitingRetryIn_ok done
  have row : RowMoves clock.now scope.writes node value := .single definition (by
    rw [fields]
    exact .waitingRetry _ waiting (writes _ rfl rfl))
  exact .inr ⟨_, .transition _ (replaceNode_rowsMove distinct member row)
    ⟨node, member, by simp [waiting, TaskStatus.Terminal]⟩, committed⟩

theorem requireRecoveryTarget_ok {state : TaskNodeState}
    (guarded : requireRecoveryTarget clock request state = .ok done) :
    ¬state.status.Terminal ∧ (∀ lease ∈ request.lease, state.fence = lease.fence) ∧
      (request.lease = none → ¬fenceUnexpected request.expectedFence state.fence) := by
  unfold requireRecoveryTarget at guarded
  split at guarded
  case h_1 lease given =>
    rw [requireLiveTaskLease_eq_ok] at guarded
    simp [guarded.1.1, guarded.2.2, given, TaskStatus.Terminal]
  case h_2 given =>
    simp only [refuse_eq_ok, not_or] at guarded
    obtain ⟨status, _, _, fence, _⟩ := guarded
    refine ⟨?_, by simp [given], fun _ => fence⟩
    rintro (same | same | same | same) <;> exact status (by simp [same])

theorem markRecoveryRequiredIn_ok
    (done : markRecoveryRequiredIn clock request nodeId records = .ok (result, after)) :
    ∃ node ∈ records.nodes, node.nodeId = nodeId ∧
      (∀ lease ∈ request.lease, node.state.fence = lease.fence) ∧
      (request.lease = none → ¬fenceUnexpected request.expectedFence node.state.fence) ∧
      ((node.status = .recoveryRequired ∧ node.state.errorCode = some request.errorCode ∧
          node.state.errorDigest = some request.errorDigest ∧
          resolveTaskExecutionId node.state.executionId request.executionId =
            .ok node.state.executionId ∧ result = node.view records.graphId ∧ after = records) ∨
        ∃ value resolved, ¬node.status.Terminal ∧ node.status ≠ .recoveryRequired ∧
          resolveTaskExecutionId node.state.executionId request.executionId = .ok resolved ∧
          value.definition = node.definition ∧
          value.state.toTaskNodeFields = node.state.recoveryMarked request.errorCode
            request.errorDigest resolved request.errorOrigin
            (request.safeErrorDetails.getD []) ∧ after.nodes = replaceNode records.nodes value ∧
          Commits clock records
            { kept := replaceNode records.nodes value
              status := derivedStatus (replaceNode records.nodes value) } after ∧
          result = value.view records.graphId) := by
  simp only [markRecoveryRequiredIn, bind_eq_ok, orRaise_eq_ok] at done
  obtain ⟨before, loaded, node, found, done⟩ := done
  rw [(records.eventState_ok loaded).2.2.2.1] at found
  refine ⟨node, rowAt_mem found, rowAt_key found, ?_⟩
  split at done
  case isTrue recovering =>
    simp only [bind_eq_ok, refuse_eq_ok, not_exists, not_and, not_not] at done
    obtain ⟨_, fence, _, expected, resolved, resolvedOk, done⟩ := done
    split at done
    case isTrue same =>
      rw [pair_eq_ok] at done
      exact ⟨fence, fun _ => expected, .inl ⟨recovering, same.1, same.2.1,
        same.2.2 ▸ resolvedOk, done.1.symm, done.2.symm⟩⟩
    case isFalse => cases done
  case isFalse stable =>
    simp only [bind_eq_ok, pure_eq_ok, Prod.exists, Prod.mk.injEq, replace_eq_ok] at done
    obtain ⟨_, guarded, resolved, resolvedOk, value, ⟨definition, fields⟩, view,
      written, replaced, rfl, rfl⟩ := done
    obtain ⟨unfinished, fence, expected⟩ := requireRecoveryTarget_ok guarded
    obtain ⟨rows, committed⟩ := replaceAndIsolate_ok loaded (rowAt_mem found) definition replaced
    exact ⟨fence, expected, .inr ⟨value, resolved, unfinished, stable, resolvedOk,
      definition, fields, rows, committed, rfl⟩⟩

theorem markRecoveryRequiredIn_step (writes : ∀ fields, fields.status = .recoveryRequired →
      fields.errorCode = some request.errorCode → fields.errorDigest = some request.errorDigest →
      scope.writes nodeId fields) (distinct : (records.nodes.map NodeEntry.nodeId).Nodup)
    (done : markRecoveryRequiredIn clock request nodeId records =
      .ok (result, after)) : GraphStep clock scope records after := by
  obtain ⟨node, member, rfl, _, _, ⟨_, _, _, _, _, same⟩ | ⟨value, resolved, unfinished,
    _, resolvedOk, definition, fields, _, committed, _⟩⟩ :=
    markRecoveryRequiredIn_ok done
  · exact .inl same
  · have claimed : 1 ≤ node.state.fence := by
      have shape := value.state.valid.recovery_shape (by rw [fields]; rfl)
      rw [fields] at shape
      exact shape.2.2.1
    have row : RowMoves clock.now scope.writes node value := .single definition (by
      rw [fields]
      exact .markRecovery _ _ _ _ _ unfinished claimed (resolveTaskExecutionId_ok resolvedOk)
        (writes _ rfl rfl rfl))
    exact .inr ⟨_, .transition _ (replaceNode_rowsMove distinct member row)
      ⟨node, member, unfinished⟩, committed⟩

theorem recoverNode_row (writes : ∀ nodeId fields, fields.status = .pending ∨
      fields.status = .ready ∧ fields.nextAttemptAt = none → scope.writes nodeId fields)
    (done : recoverNode node = .ok value) : RowMoves clock.now scope.writes node value := by
  unfold recoverNode at done
  split at done
  case isTrue recovering =>
    obtain ⟨definition, fields⟩ := replace_eq_ok.mp done
    have unscheduled : node.state.nextAttemptAt = none := by
      by_contra scheduled
      cases recovering.1.symm.trans (node.state.valid.retry_ready scheduled).1
    refine .single definition ?_
    rw [fields]
    refine .recover recovering.1 (writes _ _ ?_)
    by_cases bound : node.state.executionId = none <;>
      simp [TaskNodeFields.recovered, bound, unscheduled]
  case isFalse =>
    cases done
    exact .refl node

theorem recoverGraphIn_step (writes : ∀ nodeId fields, fields.status = .pending ∨
      fields.status = .ready ∧ fields.nextAttemptAt = none → scope.writes nodeId fields)
    (done : recoverGraphIn clock cancelRequested records = .ok (view, after)) :
    GraphStep clock scope records after := by
  simp only [recoverGraphIn, bind_eq_ok, refuse_eq_ok, not_not] at done
  obtain ⟨before, loaded, effective, effectiveOk, _, recovering, done⟩ := done
  obtain ⟨_, _, sameDefinitions, sameNodes, _⟩ := records.eventState_ok loaded
  have distinct := eventState_distinct loaded
  split at done
  case isTrue =>
    rw [pair_eq_ok] at done
    exact .inl done.2.symm
  case isFalse =>
    simp only [bind_eq_ok, mapM_eq_ok, sameDefinitions, sameNodes] at done
    obtain ⟨cleared, clearedOk, next, reconciled, status, computed, done⟩ := done
    have first : RowsMove clock.now scope.writes records.nodes cleared :=
      clearedOk.imp fun _ _ => recoverNode_row writes
    have same : records.definitions = cleared.map definition := first.definitions.symm
    have rows : RowsMove clock.now scope.writes records.nodes next :=
      first.trans (reconciledTaskNodes_rowsMove (by simp) (same ▸ reconciled))
    obtain rfl := isolatedGraphStatus_rows distinct rows.definitions computed
    rw [sameNodes] at effectiveOk
    have derived : derivedStatus records.nodes = .recoveryRequired := by
      rcases derivedStatus_eq_of_effective distinct sameDefinitions effectiveOk with
        same | same | cancelled
      · rw [← same.1, recovering]
      · rw [← same.1, recovering]
      · rw [recovering] at cancelled
        cases cancelled.1
    obtain ⟨node, member, status⟩ := (derivedStatus_agrees records.nodes).recovery_iff.mp derived
    exact .inr ⟨_, .transition _ rows
      ⟨node, member, by simp [status, TaskStatus.Terminal]⟩,
      applyGraphTransition_commits loaded done⟩

variable {executionId : Option String} {nextAttemptAt : Option Time}

section

variable (done : requeueRecoveryIn clock nodeId expectedFence executionId nextAttemptAt records =
    .ok (view, after))
include done

theorem requeueRecoveryIn_ok : ∃ node value next, node ∈ records.nodes ∧ node.nodeId = nodeId ∧
      node.status = .recoveryRequired ∧ node.state.fence = expectedFence ∧
      node.state.executionId ≠ none ∧ (executionId = none ∨ node.state.executionId = executionId) ∧
      value.definition = node.definition ∧ value.state.toTaskNodeFields =
        node.state.recoveryRequeued node.state.executionId nextAttemptAt ∧
      List.Forall₂ (Reconciled none (statusIn (rowAt NodeEntry.nodeId next)))
        (replaceNode records.nodes value) next ∧
      next.map definition = records.definitions ∧ after.nodes = next ∧
      Commits clock records { kept := next, status := derivedStatus next } after ∧
      view = ⟨records.graphId, derivedStatus next, records.definitions⟩ := by
  simp only [requeueRecoveryIn, bind_eq_ok, orRaise_eq_ok, refuse_eq_ok,
    replace_eq_ok, not_or, not_not] at done
  obtain ⟨before, loaded, node, found, _, ⟨recovering, fence, bound, execution⟩,
    value, ⟨definition, fields⟩, replaced⟩ := done
  rw [(records.eventState_ok loaded).2.2.2.1] at found
  have member := rowAt_mem found
  obtain ⟨next, reconciled, rows, nodes, committed, viewed⟩ :=
    replaceAndReconcile_ok loaded member definition replaced
  refine ⟨node, value, next, member, rowAt_key found, recovering, fence, bound, ?_,
    definition, fields, reconciled, rows, nodes, committed, viewed⟩
  by_cases unnamed : executionId = none
  · exact .inl unnamed
  · exact .inr (not_not.mp fun different => execution ⟨unnamed, different⟩)

theorem requeueRecoveryIn_step (writes : ∀ fields, fields.status = .ready →
      fields.nextAttemptAt = nextAttemptAt → scope.writes nodeId fields)
    (distinct : (records.nodes.map NodeEntry.nodeId).Nodup) :
    GraphStep clock scope records after := by
  obtain ⟨node, value, next, member, rfl, recovering, _, bound, _, definition, fields, reconciled,
    _, _, committed, _⟩ := requeueRecoveryIn_ok done
  have row : RowMoves clock.now scope.writes node value := .single definition (by
    rw [fields]
    exact .requeueRecovery _ recovering bound (writes _ rfl rfl))
  exact .inr ⟨_, .transition _ ((replaceNode_rowsMove distinct member row).trans
    (reconciled.imp fun _ _ row => row.rowMoves (by simp)))
    ⟨node, member, by simp [recovering, TaskStatus.Terminal]⟩, committed⟩

end

theorem schedulerStateIn_ok (done : schedulerStateIn clock records = .ok (result, after)) :
    ∃ next, reconciledTaskNodes records.nodes records.definitions
        (some clock.now) = .ok next ∧
      Commits clock records { kept := next, status := derivedStatus next } after := by
  simp only [schedulerStateIn, bind_eq_ok, Prod.exists, pair_eq_ok] at done
  obtain ⟨before, loaded, next, reconciled, status, computed, view, written,
    applied, _, _, _, rfl⟩ := done
  obtain ⟨_, _, sameDefinitions, sameNodes, _⟩ := records.eventState_ok loaded
  rw [sameDefinitions, sameNodes] at reconciled
  rw [sameDefinitions] at computed
  have same : next.map definition = records.definitions :=
    forall₂_map_key (fun _ _ row => row.definition_eq) (reconciledTaskNodes_ok reconciled).2
  obtain rfl := isolatedGraphStatus_rows (eventState_distinct loaded) same computed
  exact ⟨next, reconciled, applyGraphTransition_commits loaded applied⟩

theorem schedulerStateIn_step (schedules : scope.schedules)
    (done : schedulerStateIn clock records = .ok (result, after)) :
    GraphStep clock scope records after := by
  obtain ⟨next, reconciled, committed⟩ := schedulerStateIn_ok done
  exact .inr ⟨_, .scheduled _ schedules (reconciledTaskNodes_rowsMove (by simp) reconciled),
    committed⟩

variable {repo : TaskRepository}

theorem cancelNodeIn_step {nodeId executionId : String} {cancelConfirmed : Bool}
    {expectedFence : Option Int} (writes : ∀ fields, fields.status = .recoveryRequired →
      fields.errorCode = some ErrorCode.taskEffectUnknown.value → scope.writes nodeId fields)
    (done : repo.cancelNodeIn clock nodeId executionId cancelConfirmed
      expectedFence records = .ok (view, after)) : GraphStep clock scope records after := by
  simp only [cancelNodeIn, bind_eq_ok, orRaise_eq_ok] at done
  obtain ⟨before, loaded, node, found, _, _, _, _, done⟩ := done
  rw [(records.eventState_ok loaded).2.2.2.1] at found
  obtain rfl := rowAt_key found
  have member := rowAt_mem found
  split at done
  case isTrue =>
    rw [pair_eq_ok] at done
    exact .inl done.2.symm
  case isFalse unfinished =>
    split at done
    case isTrue =>
      rw [pair_eq_ok] at done
      exact .inl done.2.symm
    case isFalse =>
      split at done
      case isTrue =>
        simp only [bind_eq_ok, replace_eq_ok] at done
        obtain ⟨value, ⟨definition, fields⟩, replaced⟩ := done
        have claimed : 1 ≤ node.state.fence := by
          have shape := value.state.valid.recovery_shape (by rw [fields]; rfl)
          rw [fields] at shape
          exact shape.2.2.1
        have row : RowMoves clock.now scope.writes node value := .single definition (by
          rw [fields]
          exact .markRecovery _ _ _ _ _ unfinished claimed (.inr rfl) (writes _ rfl rfl))
        exact replaceAndIsolate_step loaded member row unfinished replaced
      case isFalse =>
        simp only [bind_eq_ok, replace_eq_ok] at done
        obtain ⟨value, ⟨definition, fields⟩, replaced⟩ := done
        have row : RowMoves clock.now scope.writes node value := .single definition (by
          rw [fields]
          exact .cancel unfinished)
        exact replaceAndReconcile_step loaded member row unfinished replaced

theorem cancelGraphNode_row (writes : ∀ nodeId fields, fields.status = .recoveryRequired →
      fields.errorCode = some ErrorCode.executionStartUnknown.value → scope.writes nodeId fields)
    (done : repo.cancelGraphNode graphId node = .ok value) :
    RowMoves clock.now scope.writes node value := by
  unfold cancelGraphNode at done
  split at done
  case isTrue recovering =>
    split at done
    · obtain ⟨definition, fields⟩ := replace_eq_ok.mp done
      exact .single definition (by rw [fields]; exact .cancelProjection recovering)
    · cases done
      exact .refl node
  case isFalse =>
    split at done
    case isTrue =>
      cases done
      exact .refl node
    case isFalse unfinished =>
      split at done
      case isTrue =>
        split at done
        · obtain ⟨definition, fields⟩ := replace_eq_ok.mp done
          exact .single definition (by rw [fields]; exact .cancelUnclaimed unfinished)
        · obtain ⟨definition, fields⟩ := replace_eq_ok.mp done
          have claimed : 1 ≤ node.state.fence := by omega
          exact .single definition (by
            rw [fields]
            exact .markRecovery _ _ _ _ _ unfinished claimed (.inr rfl) (writes _ _ rfl rfl))
      case isFalse =>
        cases done
        exact .refl node

theorem cancelGraphIn_step (cancels : scope.cancels)
    (writes : ∀ nodeId fields, fields.status = .recoveryRequired →
      fields.errorCode = some ErrorCode.executionStartUnknown.value → scope.writes nodeId fields)
    (done : repo.cancelGraphIn clock records = .ok (view, after)) :
    GraphStep clock scope records after := by
  simp only [cancelGraphIn, bind_eq_ok, mapM_eq_ok] at done
  obtain ⟨before, loaded, next, cancelled, isolated, computed, done⟩ := done
  obtain ⟨_, _, sameDefinitions, sameNodes, _⟩ := records.eventState_ok loaded
  rw [sameNodes] at cancelled
  rw [sameDefinitions] at computed
  have rows : RowsMove clock.now scope.writes records.nodes next :=
    cancelled.imp fun _ _ => cancelGraphNode_row writes
  obtain rfl := isolatedGraphStatus_rows (eventState_distinct loaded) rows.definitions computed
  refine .inr ⟨_, .cancelled next _ cancels rows ?_, applyGraphTransition_commits loaded done⟩
  by_cases header : CancelledHeader next
  · refine .inr ⟨if_pos ⟨?_, header⟩, header⟩
    intro recovering
    obtain ⟨node, member, status⟩ := (derivedStatus_agrees next).recovery_iff.mp recovering
    have terminal := header.1 node member
    rw [status] at terminal
    simp [TaskStatus.Terminal] at terminal
  · exact .inl ⟨if_neg fun all => header all.2, header⟩

end TaskRepository

end Linktools.Persistence
