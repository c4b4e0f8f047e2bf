import Linktools.Persistence.ReadbackAnswers

namespace Linktools.Persistence

open Linktools.Core Library Linktools.Task NodeEntry Store

variable {repo : TaskRepository} {clock : Clock} {answered : Time}
  {store after : Store} {report : CommitReport} {graphId nodeId tenantId : String}
  {records written : TaskGraphRecords} {node value : NodeEntry}
  {change : GraphChange} {view : TaskNodeView} {graph : TaskGraphView}
  {lease : TaskLease} {record : TaskTerminalRecord}

theorem readNode_rewritten (committed : Commits clock records change written)
    (keyedAfter : WellKeyed (store.putGraph written)) (sameId : records.graphId = graphId)
    (kept : change.kept = replaceNode records.nodes value)
    (member : node ∈ records.nodes) (definition : value.definition = node.definition) :
    (store.putGraph written).readNode graphId node.nodeId = .ok (value.view records.graphId) := by
  have sameGraph := committed.graphId.trans sameId
  have distinct := (keyedAfter _ _ (putGraph_graphs_self _ sameGraph)).2
  rw [← committed.graphId]
  exact readNode_putGraph sameGraph (committed.entryAt_replaced distinct kept member definition)

namespace TaskRepository

variable {executionId : String}

theorem handoffExecution_readBack (keyed : WellKeyed store) (keyedAfter : WellKeyed after)
    (done : repo.handoffExecution clock lease tenantId executionId occupies
      store = .ok (view, after)) :
    handoffExecutionReadback lease executionId occupies report after = .ok view := by
  simp only [handoffExecution, bind_eq_ok, onGraph_ok] at done
  obtain ⟨_, _, _, _, _, _, records, written, found, handed, rfl⟩ := done
  obtain ⟨sameId, distinct⟩ := keyed _ _ found
  obtain ⟨node, stored, fence, ⟨waiting, bound, unowned, unleased, slot, rfl, rfl⟩ |
    ⟨value, live, _, definition, fields, committed, rfl⟩⟩ :=
    handoffExecutionIn_ok distinct handed
  · exact handoffExecutionReadback_eq_ok.mpr ⟨readNode_putGraph sameId stored, fence,
      waiting, bound, unowned, unleased, slot⟩
  · obtain ⟨member, sameNode⟩ := entryAt_mem stored
    refine handoffExecutionReadback_eq_ok.mpr ⟨?_, ?_⟩
    · rw [← sameNode]
      exact readNode_rewritten committed keyedAfter sameId rfl member definition
    · simp only [view, fields]
      exact ⟨fence, rfl, rfl, rfl, rfl, rfl⟩

variable {expectedFence : Int}

theorem requeueWaitingRetry_readBack (keyed : WellKeyed store) (keyedAfter : WellKeyed after)
    (done : repo.requeueWaitingRetry clock graphId nodeId tenantId expectedFence
      executionId nextAttemptAt store = .ok (view, after)) :
    requeueWaitingRetryReadback graphId nodeId expectedFence executionId nextAttemptAt
      report after = .ok view := by
  simp only [requeueWaitingRetry, bind_eq_ok, refuse_eq_ok, not_or, onGraph_ok] at done
  obtain ⟨_, _, _, ⟨_, _, positive, _⟩, records, written, found, requeued, rfl⟩ := done
  obtain ⟨sameId, _⟩ := keyed _ _ found
  obtain ⟨node, value, member, rfl, _, fence, bound, definition, fields, committed,
    rfl⟩ := requeueWaitingRetryIn_ok requeued
  refine requeueWaitingRetryReadback_eq_ok.mpr
    ⟨readNode_rewritten committed keyedAfter sameId rfl member definition, ?_⟩
  simp only [view, fields]
  refine ⟨rfl, ?_, bound, rfl⟩
  change (node.state.fence : Int) = expectedFence
  omega

theorem claim_readBack (keyed : WellKeyed store) (keyedAfter : WellKeyed after)
    (done : repo.claim clock graphId nodeId tenantId owner leaseSeconds store =
      .ok (lease, after)) :
    claimReadback graphId nodeId tenantId owner (some lease.fence) report after = .ok lease := by
  simp only [claim, bind_eq_ok, onGraph_ok] at done
  obtain ⟨_, _, _, _, _, _, records, written, found, claimed, rfl⟩ := done
  obtain ⟨sameId, distinct⟩ := keyed _ _ found
  obtain ⟨node, value, claimable, rfl, definition, fields, committed, built⟩ :=
    claimIn_ok distinct claimed
  refine claimReadback_eq_ok.mpr ⟨value.view records.graphId,
    Time.plusSeconds clock.now leaseSeconds,
    readNode_rewritten committed keyedAfter sameId rfl claimable.member definition, ?_⟩
  obtain ⟨_, _, _, _, fence, _⟩ := TaskLease.build_ok built
  simp only [view, fields] at built ⊢
  exact ⟨rfl, rfl, by rw [fence]; rfl, rfl, built⟩

theorem resolved_eq_iff (done : resolveTaskExecutionId known supplied = .ok resolved) :
    resolved = supplied ↔ (known ≠ none → supplied ≠ none) := by
  unfold resolveTaskExecutionId at done
  split at done
  case isTrue unbound =>
    cases done
    simp [unbound]
  case isFalse bound =>
    split at done
    case isTrue agrees =>
      cases done
      constructor
      · rintro rfl _
        exact bound
      · intro named
        exact ((agrees.resolve_left (named bound)).symm)
    case isFalse => cases done

variable {request : MarkRecoveryRequired} {target : TargetNode}

theorem MarkRecoveryRequired.fence_expected (targeted : request.target = .ok target)
    (leased : ∀ lease ∈ request.lease, fence = lease.fence)
    (unleased : request.lease = none → ¬fenceUnexpected request.expectedFence fence) :
    ¬fenceUnexpected request.expectedFence fence := by
  cases given : request.lease with
  | none => exact unleased given
  | some lease =>
    simp only [MarkRecoveryRequired.target, given, bind_eq_ok, refuse_eq_ok] at targeted
    obtain ⟨_, _, _, same, _⟩ := targeted
    rintro ⟨expected, supplied, different⟩
    rw [leased lease given] at different
    exact same ⟨expected, supplied, fun equal => different equal.symm⟩

theorem recovering_header (agrees : HeaderAgrees records.status records.nodes)
    (member : node ∈ records.nodes) (recovering : node.status = .recoveryRequired) :
    records.status = .recoveryRequired ∧ records.status = derivedStatus records.nodes := by
  have status := agrees.recovery_iff.mpr ⟨node, member, recovering⟩
  have derived := (derivedStatus_agrees records.nodes).recovery_iff.mpr ⟨node, member, recovering⟩
  exact ⟨status, status.trans derived.symm⟩

variable {time later : Time}

theorem markRecoveryRequired_stored
    (sound : SoundSystem ⟨store, time⟩) (soundAfter : SoundSystem ⟨after, later⟩)
    (done : repo.markRecoveryRequired clock request store = .ok (view, after)) :
    ∃ target node, request.target = .ok target ∧
      store.nodeAt target.graphId target.nodeId = some node ∧
      after.readNode target.graphId target.nodeId = .ok view ∧
      (∃ graph, after.projectionReadback target.graphId = .ok (graph, true) ∧
        graph.status = .recoveryRequired) ∧ view.state.status = .recoveryRequired ∧
      (∀ lease ∈ request.lease, view.state.fence = lease.fence) ∧
      ¬fenceUnexpected request.expectedFence view.state.fence ∧
      view.state.errorCode = some request.errorCode ∧
      view.state.errorDigest = some request.errorDigest ∧
      resolveTaskExecutionId node.state.executionId request.executionId =
        .ok view.state.executionId := by
  simp only [markRecoveryRequired, bind_eq_ok, onGraph_ok] at done
  obtain ⟨_, _, _, _, target, targeted, records, written, found, marked, rfl⟩ := done
  obtain ⟨sameId, soundGraph⟩ := sound _ _ found
  have distinct := soundGraph.formed.distinct
  obtain ⟨state, loaded⟩ : ∃ state, records.eventState = .ok state := by
    simp only [markRecoveryRequiredIn, bind_eq_ok] at marked
    obtain ⟨state, loaded, _⟩ := marked
    exact ⟨state, loaded⟩
  obtain ⟨node, member, sameNode, leased, unleased, outcome⟩ := markRecoveryRequiredIn_ok marked
  have expected := request.fence_expected targeted leased unleased
  have stored : records.entryAt target.nodeId = some node := by
    rw [← sameNode]
    exact rowAt_of_mem distinct member
  refine ⟨target, node, targeted, nodeAt_eq_some.mpr ⟨records, found, stored⟩, ?_⟩
  rcases outcome with ⟨recovering, code, digest, resolved, rfl, rfl⟩ |
    ⟨value, resolved, _, _, resolvedOk, definition, fields, rows, committed, rfl⟩
  · obtain ⟨status, derived⟩ :=
      recovering_header soundGraph.header.agrees member recovering
    refine ⟨readNode_putGraph sameId stored, ⟨_, projectionReadback_eq
      (putGraph_graphs_self _ sameId) loaded derived (by simp [status]), status⟩,
      recovering, leased, expected, code, digest, resolved⟩
  · have sameGraph := committed.graphId.trans sameId
    have foundAfter := putGraph_graphs_self store sameGraph
    have inside : value ∈ written.nodes := by
      refine (entryAt_mem (committed.entryAt_replaced ?_ rfl member definition)).1
      exact (soundAfter _ _ foundAfter).2.formed.distinct
    obtain ⟨status, derived⟩ := recovering_header
      (soundAfter _ _ foundAfter).2.header.agrees inside
      (by rw [status, fields]; rfl)
    obtain ⟨stateAfter, loadedAfter⟩ := eventState_of_same loaded committed.graphId
      (by rw [TaskGraphRecords.definitions, rows,
        replaceNode_definitions distinct member definition]; rfl) derived
    rw [← sameNode]
    refine ⟨readNode_rewritten committed soundAfter.wellKeyed sameId rfl member
      definition, ⟨_, projectionReadback_eq foundAfter loadedAfter derived
      (by simp [status]), status⟩, ?_⟩
    simp only [view, fields]
    exact ⟨rfl, leased, expected, rfl, rfl, resolvedOk⟩

theorem markRecoveryRequired_readBack (report : CommitReport)
    (sound : SoundSystem ⟨store, time⟩) (soundAfter : SoundSystem ⟨after, later⟩)
    (done : repo.markRecoveryRequired clock request store = .ok (view, after)) :
    ∃ target node, request.target = .ok target ∧
      store.nodeAt target.graphId target.nodeId = some node ∧
      (markRecoveryRequiredReadback request target report after = .ok view ↔
        (node.state.executionId ≠ none → request.executionId ≠ none)) := by
  obtain ⟨target, node, targeted, stored, read, projected, status, leased, expected,
    code, digest, resolved⟩ := markRecoveryRequired_stored sound soundAfter done
  refine ⟨target, node, targeted, stored, ?_⟩
  rw [markRecoveryRequiredReadback_eq_ok, ← resolved_eq_iff resolved]
  constructor
  · rintro ⟨_, _, _, _, _, _, _, same⟩
    exact same
  · intro same
    exact ⟨read, projected, status, leased, expected, code, digest, same⟩

theorem requeueRecovery_readBack {executionId : Option String} {nextAttemptAt : Option Time}
    (sound : SoundSystem ⟨store, time⟩) (soundAfter : SoundSystem ⟨after, later⟩)
    (done : repo.requeueRecovery clock graphId nodeId tenantId expectedFence
      executionId nextAttemptAt store = .ok (graph, after)) :
    requeueRecoveryReadback graphId nodeId expectedFence executionId nextAttemptAt
      report after = .ok graph := by
  simp only [requeueRecovery, bind_eq_ok, refuse_eq_ok, not_or, onGraph_ok] at done
  obtain ⟨_, _, _, ⟨positive, _⟩, records, written, found, requeued, rfl⟩ := done
  obtain ⟨sameId, soundGraph⟩ := sound _ _ found
  obtain ⟨state, loaded⟩ : ∃ state, records.eventState = .ok state := by
    simp only [requeueRecoveryIn, bind_eq_ok] at requeued
    obtain ⟨state, loaded, _⟩ := requeued
    exact ⟨state, loaded⟩
  obtain ⟨node, value, next, member, rfl, _, fence, bound, execution, definition, fields,
    reconciled, rows, rfl, committed, rfl⟩ := requeueRecoveryIn_ok requeued
  have sameGraph := committed.graphId.trans sameId
  have foundAfter := putGraph_graphs_self store sameGraph
  have sameNode : value.nodeId = node.nodeId := by
    rw [nodeId, nodeId, definition]
  have stored : written.entryAt node.nodeId = some value := by
    have rewritten := rowAt_rewriteAt_self value sameNode (List.mem_map_of_mem (f := nodeId) member)
    have related := rowAt_forall₂ node.nodeId
      (fun _ _ reconciled => reconciled.nodeId_eq) reconciled
    rw [replaceNode, sameNode, rewritten] at related
    rw [TaskGraphRecords.entryAt]
    cases kept : rowAt nodeId written.nodes node.nodeId with
    | none =>
      rw [kept] at related
      cases related
    | some row =>
      rw [kept] at related
      cases related with
      | some reconciled => rw [reconciled.eq_of_bound (by rw [fields]; exact bound)]
  have ready : value.status = .ready := by rw [status, fields]; rfl
  have standing : ¬written.status.Terminal := by
    have agrees := (soundAfter _ _ foundAfter).2.header.agrees
    exact agrees.open_of_unfinished (entryAt_mem stored).1 (by simp [ready, TaskStatus.Terminal])
  have definitions : written.definitions = records.definitions := rows
  obtain ⟨stateAfter, loadedAfter⟩ :=
    eventState_of_same loaded committed.graphId definitions committed.status
  refine requeueRecoveryReadback_eq_ok.mpr
    ⟨?_, value, nodeAt_eq_some.mpr ⟨written, foundAfter, stored⟩, ready, ?_⟩
  · rw [projectionReadback_eq foundAfter loadedAfter committed.status
      (fun cancelled => standing (by simp [cancelled, TaskStatus.Terminal])),
      committed.graphId, definitions, committed.status]
  · rw [fields]
    refine ⟨?_, bound, execution, rfl⟩
    change (node.state.fence : Int) = expectedFence
    omega

variable {held : Option TaskLease}

theorem terminalTarget_ok (targeted : terminalTarget held tenantId given owner = .ok target)
    (leased : held = some lease) : target = ⟨lease.graphId, lease.nodeId⟩ := by
  subst leased
  simp only [terminalTarget, bind_eq_ok, pure_eq_ok] at targeted
  obtain ⟨_, _, _, _, _, _, rfl⟩ := targeted
  rfl

theorem named_iff {known stored supplied : Option String} (same : stored = known)
    (named : supplied ≠ none → stored = supplied) :
    stored = supplied ↔ (known ≠ none → supplied ≠ none) := by
  subst same
  constructor
  · rintro rfl bound
    exact bound
  · intro supply
    by_cases bound : stored = none
    · by_contra different
      exact different (named fun unnamed => different (bound.trans unnamed.symm))
    · exact named (supply bound)

variable {resolved : Option String} {request : Complete} {state : TaskNodeState}

theorem completionExecutionId_ok (done : completionExecutionId clock request state = .ok resolved) :
    (∀ lease ∈ request.lease, state.fence = lease.fence) ∧
      (request.lease = none → resolved = state.executionId) ∧
      (request.executionId ≠ none → resolved = request.executionId) := by
  unfold completionExecutionId at done
  split at done
  case h_1 lease given =>
    simp only [bind_eq_ok, requireLiveTaskLease_eq_ok] at done
    obtain ⟨_, ⟨_, _, fence⟩, resolvedOk⟩ := done
    exact ⟨by simp [given, fence], by simp [given],
      fun named => (resolved_eq_iff resolvedOk).mpr fun _ => named⟩
  case h_2 given =>
    simp only [bind_eq_ok, pure_eq_ok] at done
    obtain ⟨_, guarded, rfl⟩ := done
    refine ⟨by simp [given], fun _ => rfl, fun _ => ?_⟩
    simp only [requireRecordedCompletion] at guarded
    split_ifs at guarded <;> simp only [refuse_eq_ok, not_or, not_not] at guarded
    · exact guarded.1.2.symm
    · exact guarded.1.2.symm
    · exact guarded.2.2.symm

theorem failureExecutionId_ok {request : Fail}
    (done : failureExecutionId clock request state = .ok resolved) :
    (∀ lease ∈ request.lease, state.fence = lease.fence) ∧
      (request.lease = none → resolved = state.executionId) ∧
      (request.executionId ≠ none → resolved = request.executionId) ∧
      (request.lease = none → ¬fenceUnexpected request.expectedFence state.fence) := by
  unfold failureExecutionId at done
  split at done
  case h_1 lease given =>
    simp only [bind_eq_ok, requireLiveTaskLease_eq_ok] at done
    obtain ⟨_, ⟨_, _, fence⟩, resolvedOk⟩ := done
    exact ⟨by simp [given, fence], by simp [given],
      fun named => (resolved_eq_iff resolvedOk).mpr fun _ => named, by simp [given]⟩
  case h_2 given =>
    simp only [bind_eq_ok, pure_eq_ok] at done
    obtain ⟨_, guarded, rfl⟩ := done
    refine ⟨by simp [given], fun _ => rfl, fun _ => ?_, fun _ => ?_⟩
    · simp only [requireRecordedFailure] at guarded
      split_ifs at guarded <;> simp only [refuse_eq_ok, not_or, not_not] at guarded
      · exact guarded.2.1.2.symm
      · exact guarded.2.2.1.2.symm
    · simp only [requireRecordedFailure] at guarded
      split_ifs at guarded with unexpected <;>
        simp only [refuse_eq_ok, not_or, not_not] at guarded
      · simp [fenceUnexpected, unexpected]
      · exact guarded.2.1

/-- What a terminal call leaves to be read, and its answer made from it. -/
structure TerminalStored (held : Option TaskLease) (supplied : Option String)
    (wanted : TaskStatus) (digest code errors : Option String) (stamped : Time)
    (after : Store) (target : TargetNode) (node : NodeEntry) (current : TaskNodeView)
    (record : TaskTerminalRecord) : Prop where
  read : after.readNode target.graphId target.nodeId = .ok current
  status : current.state.status = wanted
  resultDigest : current.state.resultDigest = digest
  errorCode : current.state.errorCode = code
  errorDigest : current.state.errorDigest = errors
  leased : ∀ lease ∈ held, current.state.fence = lease.fence
  unleased : held = none → current.state.executionId = node.state.executionId
  named : supplied ≠ none → current.state.executionId = supplied
  result : ∀ lease ∈ held, requireStoredResult lease current after = .ok ()
  claimed : 1 ≤ current.state.fence
  record : record =
    { nodeId := target.nodeId, owner := held.map TaskLease.owner
      fence := current.state.fence, status := wanted, resultDigest := digest
      errorCode := code, errorDigest := errors, completedAt := stamped
      executionId := current.state.executionId }

theorem TerminalStored.classified
    (stored : TerminalStored held supplied wanted digest code errors stamped after target
      node current record)
    (given : held = some lease) (targeted : target = ⟨lease.graphId, lease.nodeId⟩) :
    classifyTerminalReadback answered lease wanted supplied digest code errors report
      after = .ok { record with completedAt := answered } := by
  subst targeted
  have fence := stored.leased lease given
  refine classifyTerminalReadback_eq_ok.mpr ⟨current, stored.read, fence, stored.status,
    stored.resultDigest, stored.errorCode, stored.errorDigest, stored.named,
    stored.result lease given, ?_⟩
  rw [stored.record, given, fence]
  rfl

theorem requireStoredResult_ok (sound : SoundGraph time records)
    (sameId : records.graphId = lease.graphId) (found : store.graphs lease.graphId = some records)
    (stored : records.entryAt lease.nodeId = some node) :
    requireStoredResult lease (node.view records.graphId) store = .ok () := by
  unfold requireStoredResult
  split
  case isFalse => rfl
  case isTrue succeeded =>
    have distinct := sound.formed.distinct
    obtain ⟨result, recorded⟩ := (sound.results.succeeded_iff distinct stored).mp succeeded
    have owned := sound.results.resultAt distinct stored recorded
    have read : store.readResult lease.graphId lease.nodeId = .ok (some result) := by
      simp only [readResult, found, Option.bind_some, recorded]
      apply if_neg
      rintro ⟨_, ⟨⟩, otherGraph | otherNode⟩
      · exact otherGraph (owned.graphId.trans sameId)
      · exact otherNode (rowAt_key recorded)
    simp only [read, ok_bind]
    rw [refuse_of_not, ok_bind, refuse_of_not]
    · rintro (absent | ⟨_, ⟨⟩, different⟩)
      · cases absent
      · exact different owned.executionId.symm
    · rintro ⟨_, ⟨⟩, different⟩
      exact different owned.resultDigest.symm

theorem completeAgain_ok (done : completeAgain clock request before node found = .ok record) :
    (∀ lease ∈ request.lease, node.state.fence = lease.fence) ∧ node.status = .succeeded ∧
      node.state.resultDigest = some request.resultDigest ∧
      (request.executionId ≠ none → node.state.executionId = request.executionId) ∧
      1 ≤ node.state.fence ∧ record =
        { nodeId := node.nodeId, owner := request.lease.map TaskLease.owner
          fence := node.state.fence, status := .succeeded
          resultDigest := some request.resultDigest, errorCode := none
          errorDigest := none, completedAt := clock.fresh
          executionId := node.state.executionId } := by
  simp only [completeAgain, bind_eq_ok, refuse_eq_ok, pure_eq_ok, not_exists, not_and,
    not_or, not_not] at done
  obtain ⟨_, fence, _, _, _, status, _, ⟨digest, execution⟩, _, _, _, _, _, _, _, checked,
    rfl⟩ := done
  exact ⟨fence, status, digest, execution, (terminalRecord_check.mp checked).2, rfl⟩

theorem failAgain_ok {request : Fail} (done : failAgain clock request node = .ok record) :
    (∀ lease ∈ request.lease, node.state.fence = lease.fence) ∧
      ¬fenceUnexpected request.expectedFence node.state.fence ∧
      node.status = .failed ∧ node.state.errorCode = some request.errorCode ∧
      node.state.errorDigest = some request.errorDigest ∧
      node.state.errorOrigin = some request.errorOrigin ∧
      node.state.safeErrorDetails.same request.details = true ∧
      (request.executionId ≠ none → node.state.executionId = request.executionId) ∧
      1 ≤ node.state.fence ∧ record =
        { nodeId := node.nodeId, owner := request.lease.map TaskLease.owner
          fence := node.state.fence, status := .failed, resultDigest := none
          errorCode := some request.errorCode
          errorDigest := some request.errorDigest, completedAt := clock.fresh
          executionId := node.state.executionId } := by
  simp only [failAgain, bind_eq_ok, refuse_eq_ok, pure_eq_ok, not_exists, not_and,
    not_or, not_not, Bool.not_eq_false] at done
  obtain ⟨_, fence, _, expected, _, status, _, ⟨code, digest, origin, details, execution⟩,
    _, checked, rfl⟩ := done
  exact ⟨fence, expected, status, code, digest, origin, details, execution,
    (terminalRecord_check.mp checked).2, rfl⟩

theorem complete_stored (sound : SoundSystem ⟨store, time⟩)
    (soundAfter : SoundSystem ⟨after, later⟩)
    (done : repo.complete clock request store = .ok (record, after)) : ∃ target node current,
      terminalTarget request.lease request.tenantId request.graphId request.nodeId = .ok target ∧
      store.nodeAt target.graphId target.nodeId = some node ∧
      TerminalStored request.lease request.executionId .succeeded
        (some request.resultDigest) none none clock.fresh after target node current record := by
  simp only [complete, bind_eq_ok, onGraph_ok] at done
  obtain ⟨_, _, _, _, target, targeted, records, written, found, completed, rfl⟩ := done
  obtain ⟨sameId, soundGraph⟩ := sound _ _ found
  have distinct := soundGraph.formed.distinct
  obtain ⟨node, member, sameNode, outcome⟩ := completeIn_ok distinct completed
  have stored : records.entryAt target.nodeId = some node := by
    rw [← sameNode]
    exact rowAt_of_mem distinct member
  have sameTarget : ∀ lease ∈ request.lease, target = ⟨lease.graphId, lease.nodeId⟩ :=
    fun lease given => terminalTarget_ok targeted given
  rcases outcome with ⟨_, ⟨before, again⟩, rfl⟩ | ⟨value, executionId, added, resolved,
    completes, absent, extends', committed, checked, rfl⟩
  · obtain ⟨fence, status, digest, named, claimed, answer⟩ := completeAgain_ok again
    have found' := putGraph_graphs_self store sameId
    have reportable := (soundGraph.reported node member).reportable
    simp only [TaskNodeFields.Reportable, status] at reportable
    refine ⟨target, node, node.view written.graphId, targeted,
      nodeAt_eq_some.mpr ⟨written, found, stored⟩,
      { read := readNode_putGraph sameId stored
        status := status
        resultDigest := digest
        errorCode := reportable.2.2.2.1
        errorDigest := reportable.2.2.2.2
        leased := fence
        unleased := fun _ => rfl
        named := named
        result := ?_
        claimed := claimed
        record := sameNode ▸ answer }⟩
    intro lease given
    obtain rfl := sameTarget lease given
    exact requireStoredResult_ok soundGraph sameId found' stored
  · obtain ⟨fence, unleased, named⟩ := completionExecutionId_ok resolved
    have sameGraph := committed.graphId.trans sameId
    have foundAfter := putGraph_graphs_self store sameGraph
    have soundWritten := (soundAfter _ _ foundAfter).2
    have storedAfter := committed.entryAt_replaced soundWritten.formed.distinct rfl member
      completes.definition
    rw [sameNode] at storedAfter
    have sameFence : value.state.fence = node.state.fence := by
      rw [completes.state]
      rfl
    have execution : value.state.executionId = some executionId := by
      rw [completes.state]
      rfl
    refine ⟨target, node, value.view written.graphId, targeted,
      nodeAt_eq_some.mpr ⟨records, found, stored⟩,
      { read := readNode_putGraph sameGraph storedAfter
        status := by simp only [view, completes.state]; rfl
        resultDigest := by simp only [view, completes.state]; rfl
        errorCode := by simp only [view, completes.state]; rfl
        errorDigest := by simp only [view, completes.state]; rfl
        leased := by simpa only [view, sameFence] using fence
        unleased := by simpa only [view, execution] using unleased
        named := by simpa only [view, execution] using named
        result := ?_
        claimed := by simpa only [view, sameFence] using completes.claimed
        record := by simp only [view, sameFence, execution] }⟩
    intro lease given
    obtain rfl := sameTarget lease given
    exact requireStoredResult_ok soundWritten sameGraph foundAfter storedAfter

theorem complete_readBack (answered : Time) (report : CommitReport)
    (sound : SoundSystem ⟨store, time⟩) (soundAfter : SoundSystem ⟨after, later⟩)
    (done : repo.complete clock request store = .ok (record, after)) : ∃ target node,
      terminalTarget request.lease request.tenantId request.graphId request.nodeId = .ok target ∧
      store.nodeAt target.graphId target.nodeId = some node ∧
      (completeReadback answered request target report after =
          .ok { record with completedAt := answered } ↔
        (request.lease = none → node.state.executionId ≠ none → request.executionId ≠ none)) := by
  obtain ⟨target, node, current, targeted, found, stored⟩ := complete_stored sound soundAfter done
  refine ⟨target, node, targeted, found, ?_⟩
  cases given : request.lease with
  | some lease =>
    rw [given] at stored
    simp only [completeReadback, given, reduceCtorEq, false_implies, iff_true]
    exact stored.classified rfl (terminalTarget_ok targeted given)
  | none =>
    simp only [true_implies, ← named_iff (stored.unleased given) stored.named]
    rw [completeReadback_eq_ok given]
    constructor
    · rintro ⟨other, read, _, _, same, _⟩
      rw [stored.read, Except.ok.injEq] at read
      rw [read]
      exact same
    · intro same
      refine ⟨current, stored.read, stored.status, stored.resultDigest, same, stored.claimed, ?_⟩
      rw [stored.record, given]
      rfl

theorem fail_stored {request : Fail}
    (sound : SoundSystem ⟨store, time⟩) (soundAfter : SoundSystem ⟨after, later⟩)
    (done : repo.fail clock request store = .ok (record, after)) : ∃ target node current,
      terminalTarget request.lease request.tenantId request.graphId request.nodeId = .ok target ∧
      store.nodeAt target.graphId target.nodeId = some node ∧
      current.state.errorOrigin = some request.errorOrigin ∧
      current.state.safeErrorDetails.same request.details = true ∧
      (request.lease = none → ¬fenceUnexpected request.expectedFence current.state.fence) ∧
      TerminalStored request.lease request.executionId .failed none
        (some request.errorCode) (some request.errorDigest) clock.fresh after target node
        current record := by
  simp only [fail, bind_eq_ok, onGraph_ok] at done
  obtain ⟨_, _, _, _, _, _, target, targeted, records, written, found, failed, rfl⟩ := done
  obtain ⟨sameId, soundGraph⟩ := sound _ _ found
  have distinct := soundGraph.formed.distinct
  obtain ⟨node, member, sameNode, outcome⟩ := failIn_ok distinct failed
  have stored : records.entryAt target.nodeId = some node := by
    rw [← sameNode]
    exact rowAt_of_mem distinct member
  have sameTarget : ∀ lease ∈ request.lease, target = ⟨lease.graphId, lease.nodeId⟩ :=
    fun lease given => terminalTarget_ok targeted given
  rcases outcome with ⟨_, again, rfl⟩ | ⟨value, resolved, _, claimed, resolvedOk,
    definition, fields, committed, checked, rfl⟩
  · obtain ⟨fence, expected, status, code, digest, origin, details, named, claimed,
      answer⟩ := failAgain_ok again
    have found' := putGraph_graphs_self store sameId
    have reportable := (soundGraph.reported node member).reportable
    simp only [TaskNodeFields.Reportable, status] at reportable
    refine ⟨target, node, node.view written.graphId, targeted,
      nodeAt_eq_some.mpr ⟨written, found, stored⟩, origin, details,
      fun _ => expected,
      { read := readNode_putGraph sameId stored
        status := status
        resultDigest := reportable.2.2.1
        errorCode := code
        errorDigest := digest
        leased := fence
        unleased := fun _ => rfl
        named := named
        result := ?_
        claimed := claimed
        record := sameNode ▸ answer }⟩
    intro lease given
    obtain rfl := sameTarget lease given
    exact requireStoredResult_ok soundGraph sameId found' stored
  · obtain ⟨fence, unleased, named, expected⟩ := failureExecutionId_ok resolvedOk
    have sameGraph := committed.graphId.trans sameId
    have foundAfter := putGraph_graphs_self store sameGraph
    have soundWritten := (soundAfter _ _ foundAfter).2
    have storedAfter := committed.entryAt_replaced soundWritten.formed.distinct rfl member
      definition
    rw [sameNode] at storedAfter
    have sameFence : value.state.fence = node.state.fence := by
      rw [fields]
      rfl
    have execution : value.state.executionId = resolved := by
      rw [fields]
      rfl
    refine ⟨target, node, value.view written.graphId, targeted,
      nodeAt_eq_some.mpr ⟨records, found, stored⟩,
      by simp only [view, fields]; rfl, ?_,
      by simpa only [view, sameFence] using expected,
      { read := readNode_putGraph sameGraph storedAfter
        status := by simp only [view, fields]; rfl
        resultDigest := by simp only [view, fields]; rfl
        errorCode := by simp only [view, fields]; rfl
        errorDigest := by simp only [view, fields]; rfl
        leased := by simpa only [view, sameFence] using fence
        unleased := by simpa only [view, execution] using unleased
        named := by simpa only [view, execution] using named
        result := ?_
        claimed := by simpa only [view, sameFence] using claimed
        record := by simp only [view, sameFence, execution] }⟩
    · simp only [view, fields]
      exact JsonMapping.same_refl _
    · intro lease given
      obtain rfl := sameTarget lease given
      exact requireStoredResult_ok soundWritten sameGraph foundAfter storedAfter

theorem fail_readBack {request : Fail} (answered : Time) (report : CommitReport)
    (sound : SoundSystem ⟨store, time⟩) (soundAfter : SoundSystem ⟨after, later⟩)
    (done : repo.fail clock request store = .ok (record, after)) : ∃ target node,
      terminalTarget request.lease request.tenantId request.graphId request.nodeId = .ok target ∧
      store.nodeAt target.graphId target.nodeId = some node ∧
      (failReadback answered request target report after =
          .ok { record with completedAt := answered } ↔
        (request.lease = none → node.state.executionId ≠ none → request.executionId ≠ none)) := by
  obtain ⟨target, node, current, targeted, found, origin, details, expected, stored⟩ :=
    fail_stored sound soundAfter done
  refine ⟨target, node, targeted, found, ?_⟩
  cases given : request.lease with
  | some lease =>
    rw [given] at stored
    simp only [failReadback, given, reduceCtorEq, false_implies, iff_true]
    exact stored.classified rfl (terminalTarget_ok targeted given)
  | none =>
    simp only [true_implies, ← named_iff (stored.unleased given) stored.named]
    rw [failReadback_eq_ok given]
    constructor
    · rintro ⟨other, read, _, same, _⟩
      rw [stored.read, Except.ok.injEq] at read
      rw [read]
      exact same
    · intro same
      refine ⟨current, stored.read, stored.status, same, stored.errorCode,
        stored.errorDigest, origin, details, expected given, stored.claimed, ?_⟩
      rw [stored.record, given]
      rfl

end TaskRepository

end Linktools.Persistence
