import Linktools.Persistence.TaskRuns

namespace Linktools.Persistence

open Library Linktools.Task TaskRepository

/-! A fence names one claim of a node, and a lease with an older fence is refused. -/

variable {repo : TaskRepository} {store after : Store} {records written : TaskGraphRecords}
  {first last : System} {calls : List Call} {call : Call} {graphId nodeId : String}
  {node value : NodeEntry} {lease : TaskLease}

def Operation.lease? : Operation → Option TaskLease
  | .publishPreparedInput lease _ _ | .renew lease _ _ | .bindExecution lease _ _
  | .handoffExecution lease _ _ _ | .requeueRetry lease _ _ _ => some lease
  | .markRecoveryRequired request => request.lease
  | .complete request => request.lease
  | .fail request => request.lease
  | _ => none

def Call.Grants (call : Call) (lease : TaskLease) : Prop :=
  (∃ tenantId owner leaseSeconds, call.operation =
    .claim lease.graphId lease.nodeId tenantId owner leaseSeconds) ∧
  call.answer = .ok (.lease lease)

def FenceMatches (records : TaskGraphRecords) (lease : TaskLease) : Prop :=
  ∃ node, records.entryAt lease.nodeId = some node ∧ node.state.fence = lease.fence

namespace TaskRepository

theorem publishPreparedInputIn_fence
    (done : publishPreparedInputIn clock lease record records = .ok (result, written)) :
    FenceMatches records lease := by
  simp only [publishPreparedInputIn, bind_eq_ok, orRaise_eq_ok, requireLiveTaskLease_eq_ok] at done
  obtain ⟨node, found, _, _, _, ⟨_, _, fence⟩, _⟩ := done
  exact ⟨node, found, fence⟩

theorem renewIn_fence (done : renewIn clock lease leaseSeconds records = .ok (result, written)) :
    FenceMatches records lease := by
  simp only [renewIn, bind_eq_ok, orRaise_eq_ok, requireLiveTaskLease_eq_ok] at done
  obtain ⟨node, found, _, ⟨_, _, fence⟩, _⟩ := done
  exact ⟨node, found, fence⟩

theorem bindExecutionIn_fence (done : bindExecutionIn clock lease executionId records =
      .ok (result, written)) : FenceMatches records lease := by
  simp only [bindExecutionIn, bind_eq_ok, orRaise_eq_ok, requireLiveTaskLease_eq_ok] at done
  obtain ⟨node, found, _, ⟨_, _, fence⟩, _⟩ := done
  exact ⟨node, found, fence⟩

theorem handoffExecutionIn_fence
    (done : handoffExecutionIn clock lease executionId occupies records = .ok (result, written)) :
    FenceMatches records lease := by
  simp only [handoffExecutionIn, bind_eq_ok, orRaise_eq_ok] at done
  obtain ⟨node, found, done⟩ := done
  refine ⟨node, found, ?_⟩
  split at done
  · simp only [bind_eq_ok, refuse_eq_ok, not_not] at done
    obtain ⟨_, fence, _⟩ := done
    exact fence
  · simp only [bind_eq_ok, requireLiveTaskLease_eq_ok] at done
    obtain ⟨_, ⟨_, _, fence⟩, _⟩ := done
    exact fence

theorem requeueRetryIn_fence (done : requeueRetryIn clock lease executionId nextAttemptAt records =
      .ok (result, written)) : FenceMatches records lease := by
  simp only [requeueRetryIn, bind_eq_ok, orRaise_eq_ok, requireLiveTaskLease_eq_ok] at done
  obtain ⟨before, loaded, node, found, _, ⟨_, _, fence⟩, _⟩ := done
  rw [(records.eventState_ok loaded).2.2.2.1] at found
  exact ⟨node, found, fence⟩

theorem markRecoveryRequiredIn_fence (held : request.lease = some lease)
    (done : markRecoveryRequiredIn clock request lease.nodeId records = .ok (result, written)) :
    FenceMatches records lease := by
  simp only [markRecoveryRequiredIn, bind_eq_ok, orRaise_eq_ok] at done
  obtain ⟨before, loaded, node, found, done⟩ := done
  rw [(records.eventState_ok loaded).2.2.2.1] at found
  refine ⟨node, found, ?_⟩
  split at done
  · simp only [bind_eq_ok, refuse_eq_ok, held] at done
    obtain ⟨_, fence, _⟩ := done
    simpa using fence
  · simp only [bind_eq_ok, requireRecoveryTarget, held, requireLiveTaskLease_eq_ok] at done
    obtain ⟨_, ⟨_, _, fence⟩, _⟩ := done
    exact fence

theorem completeIn_fence (held : request.lease = some lease)
    (done : completeIn clock request lease.nodeId records = .ok (result, written)) :
    FenceMatches records lease := by
  simp only [completeIn, bind_eq_ok, orRaise_eq_ok] at done
  obtain ⟨_, _, before, loaded, node, found, _, _, done⟩ := done
  rw [(completionState_ok loaded).2.1] at found
  refine ⟨node, found, ?_⟩
  split at done
  · simp only [completeAgain, bind_eq_ok, refuse_eq_ok, held] at done
    obtain ⟨_, ⟨_, fence, _⟩, _⟩ := done
    simpa using fence
  · simp only [bind_eq_ok, completionExecutionId, held, requireLiveTaskLease_eq_ok] at done
    obtain ⟨_, ⟨_, ⟨_, _, fence⟩, _⟩, _⟩ := done
    exact fence

theorem failIn_fence (held : request.lease = some lease)
    (done : failIn clock request lease.nodeId records = .ok (result, written)) :
    FenceMatches records lease := by
  simp only [failIn, bind_eq_ok, orRaise_eq_ok] at done
  obtain ⟨_, _, before, loaded, node, found, done⟩ := done
  rw [(records.terminalState_ok loaded).2.2.1] at found
  refine ⟨node, found, ?_⟩
  split at done
  · simp only [failAgain, bind_eq_ok, refuse_eq_ok, held] at done
    obtain ⟨_, ⟨_, fence, _⟩, _⟩ := done
    simpa using fence
  · simp only [bind_eq_ok, failureExecutionId, held, requireLiveTaskLease_eq_ok] at done
    obtain ⟨_, ⟨_, ⟨_, _, fence⟩, _⟩, _⟩ := done
    exact fence

theorem terminalTarget_lease {tenantId : String}
    (named : terminalTarget (some lease) tenantId givenGraph givenNode = .ok target) :
    target = ⟨lease.graphId, lease.nodeId⟩ := by
  simp only [terminalTarget, bind_eq_ok, pure_eq_ok] at named
  obtain ⟨_, _, _, _, _, _, rfl⟩ := named
  rfl

/-- An operation that presents a lease succeeds only under the lease's fence. -/
theorem perform_fence (held : operation.lease? = some lease)
    (done : repo.perform clock operation store = .ok (outcome, after)) :
    ∃ records, store.graphs lease.graphId = some records ∧ FenceMatches records lease := by
  cases operation <;> simp only [Operation.lease?, reduceCtorEq, Option.some.injEq]
    at held <;> simp only [perform, presented_eq_ok] at done <;>
    obtain ⟨value, done, _⟩ := done
  case publishPreparedInput =>
    subst held
    simp only [publishPreparedInput, bind_eq_ok, Store.onGraph_ok] at done
    obtain ⟨_, _, _, _, _, _, records, _, found, done, _⟩ := done
    exact ⟨records, found, publishPreparedInputIn_fence done⟩
  case renew =>
    subst held
    simp only [renew, bind_eq_ok, Store.onGraph_ok] at done
    obtain ⟨_, _, _, _, _, _, records, _, found, done, _⟩ := done
    exact ⟨records, found, renewIn_fence done⟩
  case bindExecution =>
    subst held
    simp only [bindExecution, bind_eq_ok, Store.onGraph_ok] at done
    obtain ⟨_, _, _, _, _, _, records, _, found, done, _⟩ := done
    exact ⟨records, found, bindExecutionIn_fence done⟩
  case handoffExecution =>
    subst held
    simp only [handoffExecution, bind_eq_ok, Store.onGraph_ok] at done
    obtain ⟨_, _, _, _, _, _, records, _, found, done, _⟩ := done
    exact ⟨records, found, handoffExecutionIn_fence done⟩
  case requeueRetry =>
    subst held
    simp only [requeueRetry, bind_eq_ok, Store.onGraph_ok] at done
    obtain ⟨_, _, _, _, _, _, records, _, found, done, _⟩ := done
    exact ⟨records, found, requeueRetryIn_fence done⟩
  case markRecoveryRequired =>
    simp only [markRecoveryRequired, bind_eq_ok, Store.onGraph_ok] at done
    obtain ⟨_, _, _, _, target, named, records, _, found, done, _⟩ := done
    simp only [MarkRecoveryRequired.target, held, bind_eq_ok, pure_eq_ok] at named
    obtain ⟨_, _, _, _, _, _, _, _, rfl⟩ := named
    exact ⟨records, found, markRecoveryRequiredIn_fence held done⟩
  case complete =>
    simp only [complete, bind_eq_ok, Store.onGraph_ok, held] at done
    obtain ⟨_, _, _, _, target, named, records, _, found, done, _⟩ := done
    obtain rfl := terminalTarget_lease named
    exact ⟨records, found, completeIn_fence held done⟩
  case fail =>
    simp only [fail, bind_eq_ok, Store.onGraph_ok, held] at done
    obtain ⟨_, _, _, _, _, _, target, named, records, _, found, done, _⟩ := done
    obtain rfl := terminalTarget_lease named
    exact ⟨records, found, failIn_fence held done⟩

end TaskRepository

theorem claim_granted {tenantId owner : String} (sound : SoundSystem first)
    (done : repo.claim clock graphId nodeId tenantId owner leaseSeconds
      first.store = .ok (lease, after)) : lease.graphId = graphId ∧ lease.nodeId = nodeId ∧
      ∃ node value, first.store.nodeAt graphId nodeId = some node ∧
        after.nodeAt graphId nodeId = some value ∧
        lease.fence = node.state.fence + 1 ∧ value.state.fence = lease.fence := by
  simp only [claim, bind_eq_ok, Store.onGraph_ok] at done
  obtain ⟨_, _, _, _, _, _, records, written, found, claimed, rfl⟩ := done
  obtain ⟨sameId, soundGraph⟩ := sound graphId records found
  have distinct := soundGraph.formed.distinct
  obtain ⟨node, value, claimable, rfl, definition, state, committed, built⟩ :=
    claimIn_ok distinct claimed
  obtain ⟨leaseGraph, leaseNode, _, _, leaseFence, _⟩ := TaskLease.build_ok built
  have stored : written.entryAt node.nodeId = some value := by
    have permitted : Permitted clock { claims := fun _ _ => True } records
        { kept := replaceNode records.nodes value, status := records.status } :=
      .claimed node value owner _ trivial claimable definition state
    exact committed.entryAt_replaced (committed.distinct permitted distinct) rfl
      claimable.member definition
  refine ⟨leaseGraph, leaseNode, node, value, ?_, ?_, leaseFence, ?_⟩
  · exact Store.nodeAt_eq_some.mpr ⟨records, found, rowAt_of_mem distinct claimable.member⟩
  · exact Store.nodeAt_eq_some.mpr
      ⟨written, Store.putGraph_graphs_self _ (committed.graphId.trans sameId), stored⟩
  · rw [leaseFence, state]
    rfl

theorem Call.Grants.fence (grants : call.Grants lease) (sound : SoundSystem first)
    (step : (taskSystem repo).step first call last) :
    ∃ node value, first.store.nodeAt lease.graphId lease.nodeId = some node ∧
      last.store.nodeAt lease.graphId lease.nodeId = some value ∧
      lease.fence = node.state.fence + 1 ∧ value.state.fence = lease.fence := by
  obtain ⟨⟨tenantId, owner, leaseSeconds, operation⟩, answer⟩ := grants
  obtain ⟨_, _, responded⟩ := step
  rw [operation, answer, respond] at responded
  split at responded
  case h_1 performed =>
    simp only [Prod.mk.injEq, Except.ok.injEq] at responded
    obtain ⟨rfl, same⟩ := responded
    simp only [perform, presented_eq_ok, Outcome.lease.injEq] at performed
    obtain ⟨_, claimed, rfl⟩ := performed
    rw [same]
    exact (claim_granted sound claimed).2.2
  case h_2 => cases responded

theorem step_fence (sound : SoundSystem first) (step : (taskSystem repo).step first call last)
    (found : first.store.nodeAt graphId nodeId = some node) :
    ∃ value, last.store.nodeAt graphId nodeId = some value ∧ (value.state.fence = node.state.fence ∨
        ∃ lease, call.Grants lease ∧ lease.graphId = graphId ∧
          lease.nodeId = nodeId ∧ lease.fence = node.state.fence + 1 ∧
          value.state.fence = lease.fence) := by
  obtain ⟨records, foundGraph, foundRow⟩ := Store.nodeAt_eq_some.mp found
  by_cases claims : ∃ worker, (call.operation.scope graphId).claims nodeId worker
  · obtain ⟨worker, claims⟩ := claims
    obtain ⟨clock, operation, answer⟩ := call
    cases operation <;> simp only [Operation.scope] at claims
    case claim tenantId owner leaseSeconds =>
      obtain ⟨rfl, rfl, rfl⟩ := claims
      obtain ⟨_, _, responded⟩ := step
      simp only [respond] at responded
      split at responded
      case h_1 performed =>
        simp only [Prod.mk.injEq] at responded
        obtain ⟨answered, same⟩ := responded
        simp only [perform, presented_eq_ok] at performed
        obtain ⟨lease, claimed, rfl⟩ := performed
        obtain ⟨leaseGraph, leaseNode, node', value, found', stored, leaseFence,
          fence⟩ := claim_granted sound claimed
        rw [found, Option.some.injEq] at found'
        subst found'
        rw [same]
        exact ⟨value, stored, .inr ⟨lease, ⟨⟨tenantId, worker, leaseSeconds, by
          rw [leaseGraph, leaseNode]⟩, answered⟩, leaseGraph, leaseNode, leaseFence, fence⟩⟩
      case h_2 =>
        simp only [Prod.mk.injEq] at responded
        rw [responded.2]
        exact ⟨node, found, .inl rfl⟩
  · obtain ⟨after, grown, graphStep⟩ := step_graph sound step foundGraph
    rcases graphStep with rfl | ⟨change, permitted, committed⟩
    · exact ⟨node, Store.nodeAt_eq_some.mpr ⟨_, grown, foundRow⟩, .inl rfl⟩
    · obtain ⟨value, stored, advance⟩ := committed.entryAt permitted
        (sound graphId records foundGraph).2.formed.distinct foundRow
      refine ⟨value, Store.nodeAt_eq_some.mpr ⟨after, grown, stored⟩, .inl ?_⟩
      exact advance.fence_eq fun worker claimed =>
        claims ⟨worker, (entryAt_mem foundRow).2 ▸ claimed⟩

theorem fence_after_grant (reachable : (taskSystem repo).Reachable first)
    (grants : call.Grants lease)
    (run : Machine.Run (taskSystem repo) first (call :: before) last) :
    ∃ node, last.store.nodeAt lease.graphId lease.nodeId = some node ∧
      lease.fence ≤ node.state.fence := by
  obtain ⟨middle, step, rest⟩ := run.of_cons
  obtain ⟨_, value, _, stored, _, fence⟩ := grants.fence (soundSystem_of_reachable reachable) step
  obtain ⟨node, found, descends⟩ := run_nodeAt (reachable.step step) rest stored
  exact ⟨node, found, fence ▸ descends.fence_le⟩

theorem stale_call_refused (step : (taskSystem repo).step first call last)
    (held : call.operation.lease? = some stale)
    (found : first.store.nodeAt stale.graphId stale.nodeId = some node)
    (superseded : stale.fence < node.state.fence) :
    (∃ raised, call.answer = .error raised) ∧ last.store = first.store := by
  obtain ⟨_, _, responded⟩ := step
  rw [respond] at responded
  split at responded
  case h_1 performed =>
    exfalso
    obtain ⟨records, foundGraph, matched, foundRow, fence⟩ := perform_fence held performed
    rw [Store.nodeAt_eq_some.mpr ⟨records, foundGraph, foundRow⟩, Option.some.injEq] at found
    subst found
    exact absurd fence superseded.ne'
  case h_2 raised _ =>
    simp only [Prod.mk.injEq] at responded
    exact ⟨⟨raised, responded.1⟩, responded.2⟩

theorem grants_ordered {claim reclaim : Call} (reachable : (taskSystem repo).Reachable first)
    (run : Machine.Run (taskSystem repo) first (claim :: between ++ [reclaim]) last)
    (granted : claim.Grants lease) (regranted : reclaim.Grants release)
    (sameGraph : release.graphId = lease.graphId) (sameNode : release.nodeId = lease.nodeId) :
    lease.fence < release.fence := by
  obtain ⟨middle, earlier, later⟩ := run.of_append
  obtain ⟨_, step, _⟩ := later.of_cons
  obtain ⟨node, found, reached⟩ := fence_after_grant reachable granted earlier
  obtain ⟨node', _, found', _, fence, _⟩ :=
    regranted.fence (soundSystem_of_reachable (reachable.run earlier)) step
  rw [sameGraph, sameNode, found, Option.some.injEq] at found'
  subst found'
  omega

structure Fenced (repo : TaskRepository) (first : System) : Prop where
  /-- Fences never decrease. -/
  monotone : ∀ {calls last graphId nodeId node},
    Machine.Run (taskSystem repo) first calls last →
    first.store.nodeAt graphId nodeId = some node →
    ∃ value, last.store.nodeAt graphId nodeId = some value ∧ node.state.fence ≤ value.state.fence
  /-- Only a claim that succeeds changes a fence. -/
  changed : ∀ {call last graphId nodeId node}, (taskSystem repo).step first call last →
    first.store.nodeAt graphId nodeId = some node →
    ∃ value, last.store.nodeAt graphId nodeId = some value ∧ (value.state.fence = node.state.fence ∨
        ∃ lease, call.Grants lease ∧ lease.graphId = graphId ∧
          lease.nodeId = nodeId ∧ lease.fence = node.state.fence + 1 ∧
          value.state.fence = lease.fence)
  /-- A claim that succeeds raises the fence by one and returns the new one. -/
  granted : ∀ {call last lease}, (taskSystem repo).step first call last → call.Grants lease →
    ∃ node value, first.store.nodeAt lease.graphId lease.nodeId = some node ∧
      last.store.nodeAt lease.graphId lease.nodeId = some value ∧
      lease.fence = node.state.fence + 1 ∧ value.state.fence = lease.fence
  /-- No two successful claims return the same graph, node and fence. -/
  distinct : ∀ {claim between reclaim last lease release},
    Machine.Run (taskSystem repo) first (claim :: between ++ [reclaim]) last →
    claim.Grants lease → reclaim.Grants release →
    release.graphId = lease.graphId → release.nodeId = lease.nodeId → release.fence ≠ lease.fence
  /-- After a later claim every operation under the earlier lease raises and leaves
  the store as it is. -/
  refused : ∀ {claim reclaim middle late last} (between rest : List Call)
    (lease release stale : TaskLease),
    Machine.Run (taskSystem repo) first (claim :: between ++ reclaim :: rest) middle →
    (taskSystem repo).step middle late last → claim.Grants lease → reclaim.Grants release →
    release.graphId = lease.graphId → release.nodeId = lease.nodeId →
    late.operation.lease? = some stale →
    stale.graphId = lease.graphId → stale.nodeId = lease.nodeId → stale.fence = lease.fence →
    (∃ raised, late.answer = .error raised) ∧ last.store = middle.store

theorem reachable_fenced (reachable : (taskSystem repo).Reachable first) :
    Fenced repo first where
  monotone run found := by
    obtain ⟨value, same, descends⟩ := run_nodeAt reachable run found
    exact ⟨value, same, descends.fence_le⟩
  changed step found := step_fence (soundSystem_of_reachable reachable) step found
  granted step grants := grants.fence (soundSystem_of_reachable reachable) step
  distinct run granted regranted sameGraph sameNode :=
    (grants_ordered reachable run granted regranted sameGraph sameNode).ne'
  refused := by
    intro claim reclaim middle late last between rest lease release stale run step
      granted regranted sameGraph sameNode held staleGraph staleNode staleFence
    rw [List.append_cons] at run
    obtain ⟨start, earlier, later⟩ := run.of_append
    obtain ⟨before, opening, closing⟩ := earlier.of_append
    have ordered := grants_ordered reachable (opening.append closing) granted
      regranted sameGraph sameNode
    obtain ⟨node, found, reached⟩ := fence_after_grant (reachable.run opening)
      regranted (closing.append later)
    rw [sameGraph, sameNode, ← staleGraph, ← staleNode] at found
    exact stale_call_refused step held found (by omega)

/-- One worker's lease lapses, another claims the node, and the first is refused. -/
theorem sample_stale_lease_refused :
    let admitted := sampleSystem [(tick 1, .admitSubmission sampleAdmission sampleGraph)]
    let held := sampleRepository.next admitted (tick 2) (.claim "graph" "a" "tenant" "worker-1" 60)
    let lost := sampleRepository.next held (tick 70000000)
      (.claim "graph" "a" "tenant" "worker-2" 60)
    (∃ raised, (sampleRepository.called lost (tick 70000001)
        sampleCompletion).answer = .error raised) ∧
      (sampleRepository.next lost (tick 70000001) sampleCompletion).store = lost.store :=
  (reachable_fenced (play_reachable (by decide +kernel))).refused [] [] firstLease
    (sampleLease "a" "worker-2" 2 130000000) firstLease
    (.cons (step_next (by decide +kernel))
      (.cons (step_next (by decide +kernel)) (.nil _)))
    (step_next (by decide +kernel))
    ⟨⟨_, _, _, rfl⟩, rfl⟩ ⟨⟨_, _, _, rfl⟩, rfl⟩ rfl rfl rfl rfl rfl rfl

end Linktools.Persistence
