import Linktools.Persistence.TaskRuns

namespace Linktools.Persistence

open Linktools.Core Library Linktools.Task TaskRepository List

variable {repo : TaskRepository} {system : System} {clock : Clock}
  {records : TaskGraphRecords} {node value : NodeEntry} {statuses : String → TaskStatus}
  {graphId tenantId : String}

/-- A row left pending or ready whose dependencies are decided is ready, and so are
they. -/
theorem Reconciled.ready_of_decided (reconciled : Reconciled now statuses node value)
    (decided : node.definition.dependencyStatus statuses = .ready ∨
      node.definition.dependencyStatus statuses = .blocked)
    (bound : value.state.executionId ≠ none → node.definition.dependencyStatus statuses = .ready)
    (queued : value.status = .pending ∨ value.status = .ready) :
    value.status = .ready ∧ node.definition.dependencyStatus statuses = .ready := by
  obtain ⟨_, expired, _, followed⟩ := reconciled
  unfold followDependencies at followed
  split at followed
  case isTrue settled =>
    cases followed
    have unsettled : value.status ≠ .recoveryRequired ∧ ¬value.status.Terminal := by
      rcases queued with status | status <;> simp [status, TaskStatus.Terminal]
    have named : value.state.executionId ≠ none := by
      rcases settled with terminal | recovering | named
      · exact absurd terminal unsettled.2
      · exact absurd recovering unsettled.1
      · exact named
    refine ⟨?_, bound named⟩
    rcases queued with pending | ready
    · exact absurd (value.state.valid.pending_unbound pending) named
    · exact ready
  case isFalse =>
    simp only [orRaise, ok_bind, bind_eq_ok, refuse_eq_ok] at followed
    obtain ⟨_, _, followed⟩ := followed
    split at followed
    case isTrue =>
      have status : value.status = .blocked :=
        congrArg TaskNodeFields.status (NodeEntry.replace_eq_ok.mp followed).2
      simp [status] at queued
    case isFalse open' =>
      have ready := decided.resolve_right open'
      refine ⟨?_, ready⟩
      split at followed
      case isTrue => exact congrArg TaskNodeFields.status (NodeEntry.replace_eq_ok.mp followed).2
      case isFalse notPending =>
        rw [if_neg (by simp [ready])] at followed
        cases followed
        exact queued.resolve_left fun pending => notPending ⟨ready, pending⟩

theorem SoundGraph.exists_first_unfinished (sound : SoundGraph time records)
    (unfinished : ∃ node ∈ records.nodes, ¬node.status.Terminal) :
    ∃ node ∈ records.nodes, ¬node.status.Terminal ∧ ∀ dependency ∈ node.definition.dependencies,
        (statusIn records.entryAt dependency).Terminal := by
  have distinct := sound.formed.distinct
  obtain ⟨graph, same, _⟩ := sound.formed
  have ids : ∀ nodeId, nodeId ∈ graph.nodes.map TaskNode.nodeId ↔
      nodeId ∈ records.nodes.map NodeEntry.nodeId := by
    intro nodeId
    rw [(same.map TaskNode.nodeId).mem_iff, TaskGraphRecords.definitions, map_nodeId_definition]
  have statusOf : ∀ node ∈ records.nodes, statusIn records.entryAt node.nodeId = node.status := by
    intro node member
    simp only [statusIn, TaskGraphRecords.entryAt, rowAt_of_mem distinct member]
  have waiting : ∃ nodeId ∈ graph.nodes.map TaskNode.nodeId,
      ¬(statusIn records.entryAt nodeId).Terminal := by
    obtain ⟨node, member, isOpen⟩ := unfinished
    exact ⟨node.nodeId, (ids _).mpr (mem_map_of_mem member), by rwa [statusOf node member]⟩
  obtain ⟨nodeId, listed, isOpen, earlier⟩ := exists_first_of_acyclic
    (dependenciesOf_known graph.ids_nodup graph.closed) (fun _ => graph.acyclic) waiting
  obtain ⟨node, member, rfl⟩ := mem_map.mp ((ids nodeId).mp listed)
  refine ⟨node, member, by rwa [statusOf node member] at isOpen, ?_⟩
  intro dependency depends
  have own : dependenciesOf graph.nodes node.nodeId = node.definition.dependencies := by
    exact dependenciesOf_mem graph.ids_nodup (same.mem_iff.mpr (mem_map_of_mem member))
  exact Classical.not_not.mp (earlier dependency (own ▸ depends))

def Idle (records : TaskGraphRecords) : Prop :=
  ∀ node ∈ records.nodes, node.status ≠ .running ∧ node.status ≠ .waiting ∧
    node.status ≠ .recoveryRequired

theorem SoundGraph.exists_ready {next : List NodeEntry} (sound : SoundGraph time records)
    (reconciled : reconciledTaskNodes before (before.map NodeEntry.definition) now = .ok next)
    (stored : records.nodes.Perm next) (idle : Idle records)
    (unfinished : ∃ node ∈ records.nodes, ¬node.status.Terminal) :
    ∃ node ∈ records.nodes, node.status = .ready ∧
      node.definition.dependencyStatus (statusIn records.entryAt) = .ready := by
  have sameRows : rowAt NodeEntry.nodeId next = records.entryAt := by
    funext nodeId
    exact (rowAt_perm sound.formed.distinct stored).symm
  obtain ⟨value, member, isOpen, terminal⟩ := sound.exists_first_unfinished unfinished
  obtain ⟨node, _, row⟩ := forall₂_mem_right (reconciledTaskNodes_ok reconciled).2
    (stored.mem_iff.mp member)
  rw [sameRows] at row
  obtain ⟨notRunning, notWaiting, stable⟩ := idle value member
  have queued : value.status = .pending ∨ value.status = .ready := by
    cases status : value.status <;>
      simp_all [TaskStatus.Terminal]
  have bound : value.state.executionId ≠ none →
      node.definition.dependencyStatus (statusIn records.entryAt) = .ready := by
    intro named
    rw [← row.definition_eq]
    exact sound.readiness.ready_of_claimed value member
      (sound.readiness.claimed_of_bound value member named)
  obtain ⟨ready, dependencies⟩ := row.ready_of_decided
    (TaskNode.dependencyStatus_of_terminal (row.definition_eq ▸ terminal)) bound queued
  exact ⟨value, member, ready, row.definition_eq ▸ dependencies⟩

variable {owner : String}

theorem claimed_event_checked {sequence : Nat} (reported : Reported node.state.toTaskNodeFields)
    (ready : node.status = .ready) (present : blank graphId = false) (positive : 1 ≤ sequence)
    (valid : validLeaseOwner owner = true)
    (fields : value.state.toTaskNodeFields = node.state.claimed owner expires) :
    ∀ event ∈ stampEvents graphId time sequence
        (taskNodeEventDrafts node.nodeId node.state value.state), event.check = .ok () := by
  intro event member
  unfold taskNodeEventDrafts at member
  split at member
  · simp [stampEvents] at member
  · have shape := reported.reportable
    unfold TaskNodeFields.Reportable at shape
    rw [show node.state.status = .ready from ready] at shape
    obtain ⟨_, noResult, noCode, noDigest⟩ := shape
    have nonblank := reported.execution_present
    have unnamed : ¬∃ execution, node.state.executionId = some execution ∧
        blank execution = true := by
      rintro ⟨execution, bound, empty⟩
      rw [nonblank execution bound] at empty
      cases empty
    have numbered : ¬sequence = 0 := by omega
    rw [stampEvents, stampEvents, mem_singleton] at member
    subst member
    simp [nodeChangedDraft, fields, TaskNodeFields.claimed, noResult, noCode, noDigest,
      TaskEvent.check, TaskEventDraft.validate, TaskEventDraft.validateNodeChanged,
      TaskEventDraft.validateNodeStateFields, refuse_of_not, ok_bind, present, valid,
      node.definition.nodeId_present, NodeEntry.nodeId, unnamed, numbered]

theorem claimed_valid (valid : validLeaseOwner owner = true) :
    (node.state.claimed owner expires).Valid where
  owner_valid := by
    rintro _ ⟨⟩
    exact valid
  pending_unbound := nofun
  details_storable := node.state.valid.details_storable
  slot_waiting := nofun
  retry_ready := by simp [TaskNodeFields.claimed]
  recovery_shape := nofun
  waiting_shape := nofun

/-- What a caller supplies and what it must not have asked for, to claim a node. -/
structure ClaimRequest (repo : TaskRepository) (clock : Clock) (store : Store)
    (graphId tenantId owner : String) (leaseSeconds : Int) (node : NodeEntry) : Prop where
  tenant : tenantId = repo.tenantId
  tenant_valid : validTenantId tenantId = true
  owner_valid : validLeaseOwner owner = true
  seconds_valid : validLeaseSeconds leaseSeconds = true
  pending : (pendingOperations store graphId).length ≤ maxPendingTaskOperations
  uncancelled : ¬cancelPending
    (pendingOperations store graphId) node.state.executionId
  retry_passed : ∀ attempt ∈ node.state.nextAttemptAt, attempt ≤ clock.now

theorem SoundGraph.claim_succeeds {store : Store} (sound : SoundGraph time records)
    (found : store.graphs graphId = some records) (sameId : records.graphId = graphId)
    (idle : Idle records) (member : node ∈ records.nodes) (ready : node.status = .ready)
    (dependencies : node.definition.dependencyStatus (statusIn records.entryAt) = .ready)
    (request : ClaimRequest repo clock store graphId tenantId owner leaseSeconds node) :
    ∃ lease last, repo.claim clock graphId node.nodeId tenantId owner leaseSeconds
      store = .ok (lease, last) := by
  have distinct := sound.formed.distinct
  have stored : records.entryAt node.nodeId = some node := rowAt_of_mem distinct member
  have agrees := sound.header.agrees
  have isOpen : ¬records.status.Terminal := fun terminal => by
    have := agrees.terminal_iff.mp terminal node member
    simp [ready, TaskStatus.Terminal] at this
  have stable : records.status ≠ .recoveryRequired := fun recovering => by
    obtain ⟨other, inside, status⟩ := agrees.recovery_iff.mp recovering
    exact (idle other inside).2.2 status
  have canonical := agrees.canonical
  have closed : ¬∃ dependency ∈ node.definition.dependencies,
      records.entryAt dependency = none := by
    rintro ⟨dependency, depends, absent⟩
    obtain ⟨row, present⟩ := sound.formed.closed member depends
    rw [absent] at present
    cases present
  have noneRunning : ¬∃ current ∈ records.nodes, current.status = .running ∧
      (current.state.owner = none ∨ current.state.fence < 1 ∨
        current.state.leaseExpiresAt = none) := by
    rintro ⟨current, inside, running, _⟩
    exact (idle current inside).1 running
  have noneActive : activeNodes clock.now records.nodes = 0 := by
    rw [activeNodes, countP_eq_zero]
    intro current inside active
    rcases of_decide_eq_true active with ⟨waiting, _⟩ | ⟨running, _⟩
    · exact (idle current inside).2.1 waiting
    · exact (idle current inside).1 running
  have slot : ¬records.admission.limits.maxConcurrency ≤ activeNodes clock.now records.nodes := by
    have := records.admission.limits.maxConcurrency_positive
    omega
  have attempts : ¬(node.status = .ready ∧
      ∃ attempt ∈ node.state.nextAttemptAt, clock.now < attempt) := by
    rintro ⟨_, attempt, scheduled, future⟩
    exact absurd future (not_lt.mpr (request.retry_passed attempt scheduled))
  have reported := sound.reported node member
  obtain ⟨value, replaced⟩ : ∃ value, NodeEntry.replace node (node.state.claimed owner
      (Time.plusSeconds clock.now leaseSeconds)) = .ok value :=
    ⟨⟨node.definition, ⟨_, claimed_valid request.owner_valid⟩⟩,
      NodeEntry.replace_eq_ok.mpr ⟨rfl, rfl⟩⟩
  have fields := (NodeEntry.replace_eq_ok.mp replaced).2
  obtain ⟨lease, built⟩ : ∃ lease, TaskLease.build graphId node.nodeId tenantId owner
      (node.state.fence + 1) (Time.plusSeconds clock.now leaseSeconds)
        value.state.executionId = .ok lease := by
    unfold TaskLease.build
    rw [dif_pos ⟨request.tenant_valid, request.owner_valid⟩, dif_pos]
    · exact ⟨_, rfl⟩
    · refine ⟨sameId ▸ sound.graphId_present, node.definition.nodeId_present, by omega, ?_⟩
      rw [fields]
      exact reported.execution_present
  have claimed : ∃ written, claimIn clock graphId node.nodeId tenantId owner
      leaseSeconds (pendingOperations store graphId) records = .ok (lease, written) := by
    simp only [claimIn, bind_eq_ok, orRaise_eq_ok, refuse_eq_ok, pure_eq_ok,
      updateNodeWithEvent, appendTaskEvents_eq_ok, Prod.mk.injEq]
    refine ⟨_, node, stored, (), canonical, (), not_or_intro isOpen stable, (),
      not_lt.mpr request.pending, (), request.uncancelled, (), not_not_intro sameId, (),
      closed, (), noneRunning, (), slot, (), by simp [ready], (), by simp [ready], (),
      attempts, (), not_not_intro dependencies, value, replaced, _, ⟨?_, rfl⟩, lease, built,
      rfl, rfl⟩
    exact claimed_event_checked reported ready sound.graphId_present (by omega)
      request.owner_valid fields
  obtain ⟨written, claimed⟩ := claimed
  refine ⟨lease, store.putGraph written, ?_⟩
  simp only [claim, bind_eq_ok, requireTenant, refuse_eq_ok, Store.onGraph_ok]
  exact ⟨(), not_not_intro request.tenant, (), by simp [request.owner_valid], (),
    by simp [request.seconds_valid], records, written, found, claimed, rfl⟩

/-- After a poll, a graph that is not finished and has nothing running, waiting or in
recovery has a ready node with ready dependencies, and every request for it is granted. -/
theorem polled_idle_graph_has_claimable_node {state : TaskGraphState} {store : Store}
    (reachable : (taskSystem repo).Reachable system) (current : system.time ≤ clock.now)
    (polled : repo.schedulerState clock graphId tenantId system.store = .ok (state, store))
    (found : store.graphs graphId = some records) (unfinished : ¬records.status.Terminal)
    (idle : Idle records) : ∃ node ∈ records.nodes, node.status = .ready ∧
      node.definition.dependencyStatus (statusIn records.entryAt) = .ready ∧
      ∀ later tenantId owner leaseSeconds,
        ClaimRequest repo later store graphId tenantId owner leaseSeconds node →
        ∃ lease last, repo.claim later graphId node.nodeId tenantId owner leaseSeconds
          store = .ok (lease, last) := by
  have step : (taskSystem repo).step system
      ⟨clock, .schedulerState graphId tenantId, .ok (.state state)⟩
      ⟨store, clock.fresh⟩ :=
    ⟨current, rfl, by simp only [respond, perform, presented, polled, Except.map]⟩
  obtain ⟨sameId, sound⟩ := soundSystem_of_reachable (reachable.step step) graphId records found
  simp only [schedulerState, bind_eq_ok, Store.onGraph_ok] at polled
  obtain ⟨_, _, before, written, foundBefore, scheduled, rfl⟩ := polled
  obtain ⟨next, reconciled, committed⟩ := schedulerStateIn_ok scheduled
  have ownId := (soundSystem_of_reachable reachable graphId before foundBefore).1
  rw [Store.putGraph_graphs_self _ (committed.graphId.trans ownId), Option.some.injEq] at found
  subst found
  have stored : written.nodes.Perm next := by
    simpa [GraphChange.nodes] using committed.nodes
  have rows : ∃ node ∈ written.nodes, ¬node.status.Terminal := by
    by_contra none
    apply unfinished
    apply sound.header.agrees.terminal_iff.mpr
    intro node member
    by_contra isOpen
    exact none ⟨node, member, isOpen⟩
  obtain ⟨node, member, ready, dependencies⟩ :=
    sound.exists_ready reconciled stored idle rows
  exact ⟨node, member, ready, dependencies, fun later tenantId owner leaseSeconds request =>
    sound.claim_succeeds (Store.putGraph_graphs_self _ sameId) sameId idle member ready
    dependencies request⟩

/-- The second node of a chain, once the first one has succeeded. -/
theorem sample_polled_graph_claimable :
    ∃ state store records, sampleRepository.schedulerState (tick 5) "graph" "tenant"
        (sampleSystem (chainStart ++ [(tick 4, sampleCompletion)])).store = .ok (state, store) ∧
      store.graphs "graph" = some records ∧ ∃ node ∈ records.nodes, node.status = .ready ∧
        node.definition.dependencies = ["a"] := by
  have polled : ((sampleRepository.schedulerState (tick 5) "graph" "tenant"
      (sampleSystem (chainStart ++ [(tick 4, sampleCompletion)])).store).toOption.bind fun pair =>
        (pair.2.graphs "graph").map fun records => (records.status,
          records.nodes.map fun node => (node.status, node.definition.dependencies))) =
      some (.pending, [(.succeeded, []), (.ready, ["a"])]) := by decide +kernel
  obtain ⟨⟨state, store⟩, done, shown⟩ := Option.bind_eq_some_iff.mp polled
  obtain ⟨records, found, rows⟩ := Option.map_eq_some_iff.mp shown
  obtain ⟨header, rows⟩ := Prod.mk.inj rows
  have polled := toOption_eq_some.mp done
  refine ⟨state, store, records, polled, found, ?_⟩
  have shown : ∀ node ∈ records.nodes, (node.status, node.definition.dependencies) ∈
      [(TaskStatus.succeeded, []), (.ready, ["a"])] :=
    fun node member => rows ▸ mem_map_of_mem member
  have idle : Idle records := by
    intro node member
    rcases mem_pair.mp (shown node member) with same | same <;>
      simp [(Prod.mk.inj same).1]
  obtain ⟨node, member, ready, _⟩ := polled_idle_graph_has_claimable_node
    (play_reachable (by decide +kernel)) (by decide +kernel) polled found
    (by simp [header, TaskStatus.Terminal]) idle
  refine ⟨node, member, ready, ?_⟩
  rcases mem_pair.mp (shown node member) with same | same
  · cases ready.symm.trans (Prod.mk.inj same).1
  · exact (Prod.mk.inj same).2

end Linktools.Persistence
