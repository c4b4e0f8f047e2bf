import Linktools.Persistence.TaskRuns

namespace Linktools.Persistence

open Linktools.Core Library Linktools.Task List

variable {repo : TaskRepository} {first last : System} {calls : List Call}
  {records : TaskGraphRecords} {graphId nodeId : String} {node : NodeEntry}

/-- A terminal row never changes again, and a result is stored exactly for each
succeeded row, which it matches. -/
theorem terminal_rows_final_and_results_agree (reachable : (taskSystem repo).Reachable first)
    (run : Machine.Run (taskSystem repo) first calls last) :
    (∀ graphId nodeId node, first.store.nodeAt graphId nodeId = some node →
      node.status.Terminal → last.store.nodeAt graphId nodeId = some node) ∧
    ∀ graphId records, last.store.graphs graphId = some records →
      (∀ nodeId node, records.entryAt nodeId = some node →
        (node.status = .succeeded ↔ ∃ result, records.resultAt nodeId = some result) ∧
        ∀ result, records.resultAt nodeId = some result →
          result.graphId = graphId ∧ result.nodeId = nodeId ∧
            node.state.resultDigest = some result.resultDigest ∧
            node.state.executionId = some result.executionId) ∧
      ∀ nodeId result, records.resultAt nodeId = some result →
        ∃ node, records.entryAt nodeId = some node := by
  constructor
  · intro graphId nodeId node found terminal
    obtain ⟨value, same, descends⟩ := run_nodeAt reachable run found
    rw [same, descends.frozen terminal]
  · intro graphId records found
    obtain ⟨sameId, sound⟩ :=
      soundSystem_of_reachable (reachable.run run) graphId records found
    have distinct := sound.formed.distinct
    refine ⟨?_, fun nodeId result => sound.results.entryAt distinct⟩
    intro nodeId node stored
    refine ⟨sound.results.succeeded_iff distinct stored, ?_⟩
    intro result recorded
    have owned := sound.results.resultAt distinct stored recorded
    exact ⟨owned.graphId.trans sameId, rowAt_key recorded, owned.resultDigest, owned.executionId⟩

/-- The first node completes, and the graph is polled and cancelled afterwards. -/
theorem sample_terminal_row_final :
    ∃ node, (sampleSystem (sampleStart ++ [(tick 4, sampleCompletion)])).store.nodeAt
        "graph" "a" = some node ∧ node.status = .succeeded ∧ (sampleRepository.play
        (sampleSystem (sampleStart ++ [(tick 4, sampleCompletion)]))
        [(tick 5, .schedulerState "graph" "tenant"),
          (tick 6, .cancelGraph "graph" "tenant")]).2.store.nodeAt "graph" "a" = some node := by
  have status : ((sampleSystem
      (sampleStart ++ [(tick 4, sampleCompletion)])).store.nodeAt "graph" "a").map
        NodeEntry.status = some .succeeded := by decide +kernel
  obtain ⟨node, found, succeeded⟩ := Option.map_eq_some_iff.mp status
  exact ⟨node, found, succeeded, (terminal_rows_final_and_results_agree
      (play_reachable (by decide +kernel))
      (TaskRepository.play_run (by decide +kernel))).1 "graph" "a" node found (.inl succeeded)⟩

/-- An execution id, once stored, stays the node's execution id. -/
theorem execution_id_write_once {executionId : String}
    (reachable : (taskSystem repo).Reachable first)
    (run : Machine.Run (taskSystem repo) first calls last)
    (found : first.store.nodeAt graphId nodeId = some node)
    (bound : node.state.executionId = some executionId) :
    ∃ value, last.store.nodeAt graphId nodeId = some value ∧
      value.state.executionId = some executionId := by
  obtain ⟨value, same, descends⟩ := run_nodeAt reachable run found
  exact ⟨value, same, descends.execution_kept executionId bound⟩

/-- The lease of the bound node lapses and another worker claims the node. -/
theorem sample_execution_id_kept : ∃ value, (sampleRepository.play (sampleSystem sampleStart)
        [(tick 70000000, .schedulerState "graph" "tenant"),
          (tick 70000001, .claim "graph" "a" "tenant" "worker-2" 60)]).2.store.nodeAt
        "graph" "a" = some value ∧ value.state.executionId = some "exec-1" := by
  have bound : ((sampleSystem sampleStart).store.nodeAt "graph" "a").map
      (fun node => node.state.executionId) = some (some "exec-1") := by
    decide +kernel
  obtain ⟨node, found, same⟩ := Option.map_eq_some_iff.mp bound
  exact execution_id_write_once (play_reachable (by decide +kernel))
    (TaskRepository.play_run (by decide +kernel)) found same

variable {system : System} {value : NodeEntry}

theorem WellFormed.builds (formed : WellFormed records) (present : blank records.graphId = false) :
    ∃ graph, TaskGraph.build records.graphId records.definitions = .ok graph := by
  obtain ⟨graph, same, _⟩ := formed
  exact graph.exists_build_of_perm present same.symm

theorem SoundGraph.loads (sound : SoundGraph time records) (member : node ∈ records.nodes) :
    (∃ projected, records.terminalState node.nodeId = .ok projected) ∧
      ∃ whole, records.eventState = .ok whole := by
  have canonical := sound.header.agrees.canonical
  obtain ⟨graph, built⟩ := sound.formed.builds sound.graphId_present
  constructor
  · rw [TaskGraphRecords.terminalState, canonical, ok_bind,
      refuse_of_not (not_not.mpr (mem_map_of_mem member))]
    exact ⟨_, rfl⟩
  · rw [TaskGraphRecords.eventState, canonical, ok_bind, built]
    exact ⟨_, rfl⟩

section Drafts

variable {nodes rows : List NodeEntry}

theorem taskCompletionEventDrafts_returns (status : TaskStatus)
    (ids : rows.map NodeEntry.nodeId = nodes.map NodeEntry.nodeId)
    (member : nodeId ∈ nodes.map NodeEntry.nodeId) : ∃ drafts, ∀ before : TaskEventState,
      before.nodeStates = nodes → before.graph.status = header → ∀ graphId definitions,
        taskCompletionEventDrafts before ⟨⟨graphId, status, definitions⟩, rows⟩ nodeId [] =
          .ok drafts := by
  obtain ⟨first, here⟩ := rowAt_isSome_iff.mpr member
  obtain ⟨last, written⟩ := rowAt_isSome_iff.mpr (ids ▸ member)
  have stays : ¬∃ entry ∈ nodes, entry.nodeId ∉ rows.map NodeEntry.nodeId := by
    rintro ⟨entry, inside, gone⟩
    exact gone (ids ▸ mem_map_of_mem inside)
  have comes : ¬∃ entry ∈ rows, entry.nodeId ∉ nodes.map NodeEntry.nodeId ∧
      entry.nodeId ∉ ([] : List String) := by
    rintro ⟨entry, inside, new, _⟩
    exact new (ids ▸ mem_map_of_mem inside)
  refine ⟨taskNodeEventDrafts nodeId first.state last.state ++ expansionDrafts status nodeId [] ++
    (((nodes.map NodeEntry.nodeId).insertionSort (· ≤ ·)).flatMap fun other =>
      if other = nodeId then [] else rowDrafts nodes rows other) ++
    taskGraphEventDrafts header status, fun before states headed graphId definitions => ?_⟩
  simp only [taskCompletionEventDrafts, states, headed, refuse_of_not stays, refuse_of_not comes,
    here, written, orRaise, ok_bind]
  rfl

/-- The drafts report each row whose status has changed, and the new status only. -/
theorem taskCompletionEventDrafts_reports (states : before.nodeStates = nodes)
    (done : taskCompletionEventDrafts before ⟨⟨graphId, status, definitions⟩, rows⟩ source [] =
      .ok drafts) (first : rowAt NodeEntry.nodeId nodes nodeId = some current)
    (last : rowAt NodeEntry.nodeId rows nodeId = some value) :
    (current.status ≠ value.status → ∃ draft ∈ drafts, draft.nodeId = some nodeId ∧
      draft.status = value.status) ∧
    ∀ draft ∈ drafts, draft.nodeId = some nodeId → draft.status = value.status := by
  simp only [taskCompletionEventDrafts, bind_eq_ok, orRaise_eq_ok, pure_eq_ok, states] at done
  obtain ⟨_, _, sourceBefore, sourceFirst, sourceAfter, sourceLast, _, _, rfl⟩ := done
  have own : ∀ id (before after : TaskNodeState), ∀ draft ∈ taskNodeEventDrafts id before after,
      draft.nodeId = some id ∧ draft.status = after.status := by
    intro id before after draft drafted
    unfold taskNodeEventDrafts at drafted
    split at drafted
    · cases drafted
    · rw [mem_singleton.mp drafted]
      exact ⟨rfl, rfl⟩
  constructor
  · intro changed
    refine ⟨nodeChangedDraft nodeId current.state value.state, ?_, rfl, rfl⟩
    have drafted : nodeChangedDraft nodeId current.state value.state ∈
        taskNodeEventDrafts nodeId current.state value.state := by
      rw [taskNodeEventDrafts, if_neg fun same => changed same.1]
      exact mem_cons_self
    rw [mem_append, mem_append, mem_append, mem_flatMap]
    by_cases here : nodeId = source
    case pos =>
      subst here
      cases first.symm.trans sourceFirst
      cases last.symm.trans sourceLast
      exact .inl (.inl (.inl drafted))
    case neg =>
      refine .inl (.inr ⟨nodeId, ?_, ?_⟩)
      · rw [mem_insertionSort]
        exact rowAt_isSome_iff.mp ⟨current, first⟩
      · rw [if_neg here, rowDrafts, first, last]
        exact drafted
  · intro draft drafted named
    simp only [mem_append, mem_flatMap, expansionDrafts, if_true, not_mem_nil,
      or_false] at drafted
    rcases drafted with (drafted | ⟨id, _, drafted⟩) | drafted
    · obtain ⟨here, status⟩ := own _ _ _ _ drafted
      cases named.symm.trans here
      cases last.symm.trans sourceLast
      exact status
    · split at drafted
      · cases drafted
      · unfold rowDrafts at drafted
        split at drafted
        · rename_i stored
          obtain ⟨here, status⟩ := own _ _ _ _ drafted
          cases named.symm.trans here
          cases last.symm.trans stored
          exact status
        · cases drafted
    · unfold taskGraphEventDrafts at drafted
      split at drafted
      · cases drafted
      · cases mem_singleton.mp drafted
        cases named

theorem Reconciled.eq_of_status (reconciled : Reconciled none statuses node value)
    (same : value.status = node.status) : value = node := by
  obtain ⟨_, expired, expiredOk, followed⟩ := reconciled
  rcases expireLease_cases expiredOk with rfl | ⟨_, _, _, _, given, _⟩
  · rcases followDependencies_cases followed with kept | ⟨unfinished, _, _, _, _, _, moved⟩
    · exact kept
    · simp only [NodeEntry.status] at same unfinished moved
      rcases moved with ⟨_, fields⟩ | ⟨_, status, fields⟩ | ⟨_, status, fields⟩ <;>
        rw [fields] at same
      · rw [← same] at unfinished
        change ¬TaskStatus.Terminal .blocked at unfinished
        exact absurd (by decide) unfinished
      · cases same.trans status
      · cases same.trans status
  · cases given

end Drafts

/-- What a replaced row makes of a graph, by the definitions that are at hand, and when the
reconciliation of all rows makes the same of it. -/
structure ProjectionAgrees (records : TaskGraphRecords) (projected whole : TaskEventState)
    (nodeId : String) (rows : List NodeEntry) (definitions : List TaskNode) : Prop where
  loaded : ∀ row ∈ rows, row.status = .failed ∨ row.status = .blocked →
    failurePoliciesOf definitions row.nodeId = some row.definition.failurePolicy
  status : isolatedGraphStatus rows whole.graph.nodes =
    .ok (aggregateGraphStatus rows (failurePoliciesOf definitions))
  drafts : ∀ status, ∃ drafts,
    taskCompletionEventDrafts projected ⟨⟨records.graphId, status, definitions⟩, rows⟩ nodeId [] =
      .ok drafts ∧
    taskCompletionEventDrafts whole ⟨⟨records.graphId, status, whole.graph.nodes⟩, rows⟩ nodeId [] =
      .ok drafts
  reconciled : ∀ next, reconciledTaskNodes rows whole.graph.nodes = .ok next → ∃ status drafts,
    isolatedGraphStatus next whole.graph.nodes = .ok status ∧
    taskCompletionEventDrafts whole ⟨⟨records.graphId, status, whole.graph.nodes⟩, next⟩ nodeId [] =
      .ok drafts ∧
    (aggregateGraphStatus rows (failurePoliciesOf definitions) = status ∧
      taskCompletionEventDrafts projected ⟨⟨records.graphId,
        aggregateGraphStatus rows (failurePoliciesOf definitions), definitions⟩, rows⟩ nodeId [] =
        .ok drafts ↔ next = rows)

/-- A row replaced in a reachable graph, with the definitions of the terminal projection in any
order: the header and the events are those of the whole graph, every policy is at hand, and a
reconciliation gives the same header and events exactly if it leaves all rows as they are. -/
theorem terminal_projection_agrees_with_the_whole_graph
    (reachable : (taskSystem repo).Reachable system)
    (found : system.store.graphs graphId = some records) (member : node ∈ records.nodes)
    (same : value.definition = node.definition) :
    ∃ projected whole, records.terminalState node.nodeId = .ok projected ∧
      records.eventState = .ok whole ∧ projected.nodeStates = whole.nodeStates ∧
      ∀ definitions, definitions.Perm projected.graph.nodes →
        ProjectionAgrees records projected whole node.nodeId
          (replaceNode whole.nodeStates value) definitions := by
  have sound := soundGraph_of_reachable reachable found
  have distinct := sound.formed.distinct
  obtain ⟨⟨projected, projects⟩, whole, loads⟩ := sound.loads member
  obtain ⟨_, headed, rows, _, nodes⟩ := records.terminalState_ok projects
  obtain ⟨_, header, definitions, states, _⟩ := records.eventState_ok loads
  refine ⟨projected, whole, projects, loads, rows.trans states.symm, fun loaded perm => ?_⟩
  rw [nodes] at perm
  rw [states]
  have kept := replaceNode_definitions distinct member same
  have ids : (replaceNode records.nodes value).map NodeEntry.nodeId =
      records.nodes.map NodeEntry.nodeId := map_key_rewriteAt rfl
  have inside : node.nodeId ∈ records.nodes.map NodeEntry.nodeId := mem_map_of_mem member
  have isolated : isolatedGraphStatus (replaceNode records.nodes value) whole.graph.nodes =
      .ok (aggregateGraphStatus (replaceNode records.nodes value) (failurePoliciesOf loaded)) := by
    rw [aggregateGraphStatus_loaded distinct member same perm, definitions,
      isolatedGraphStatus_ok _ _ (by rw [kept]; exact .refl _), derivedStatus, kept]
    rfl
  refine ⟨failurePoliciesOf_loaded distinct member same perm, isolated, fun status => ?_,
    fun next reconciled => ?_⟩
  · obtain ⟨drafts, returns⟩ := taskCompletionEventDrafts_returns status ids inside
    exact ⟨drafts, returns projected rows headed _ _, returns whole states header _ _⟩
  · have along : whole.graph.nodes =
        (replaceNode records.nodes value).map NodeEntry.definition := by
      rw [kept, definitions]
      rfl
    rw [along] at reconciled
    have pass := (reconciledTaskNodes_ok reconciled).2
    have nextDefinitions : next.map NodeEntry.definition =
        (replaceNode records.nodes value).map NodeEntry.definition :=
      forall₂_map_key (fun _ _ row => row.definition_eq) pass
    have nextIds : next.map NodeEntry.nodeId = records.nodes.map NodeEntry.nodeId := by
      rw [← ids, ← map_nodeId_definition, ← map_nodeId_definition, nextDefinitions]
    have settled : isolatedGraphStatus next whole.graph.nodes = .ok (derivedStatus next) := by
      rw [along, ← nextDefinitions, isolatedGraphStatus_ok _ _ (.refl _)]
      rfl
    obtain ⟨drafts, returns⟩ :=
      taskCompletionEventDrafts_returns (derivedStatus next) nextIds inside
    have done := returns whole states header records.graphId whole.graph.nodes
    refine ⟨_, drafts, settled, done, ?_, ?_⟩
    · rintro ⟨-, fast⟩
      have equal : List.Forall₂ Eq (replaceNode records.nodes value) next := by
        refine forall₂_iff_zip.mpr ⟨pass.length_eq, fun {row last} pair => ?_⟩
        have moved := (forall₂_iff_zip.mp pass).2 pair
        have inRows := (of_mem_zip pair).1
        obtain ⟨current, first⟩ := rowAt_isSome_iff.mpr (ids ▸ mem_map_of_mem inRows :
          row.nodeId ∈ records.nodes.map NodeEntry.nodeId)
        have written := rowAt_of_mem (ids ▸ distinct) inRows
        have stored := rowAt_of_mem (nextIds ▸ distinct) (of_mem_zip pair).2
        rw [moved.nodeId_eq] at stored
        obtain ⟨fastChanged, fastOnly⟩ :=
          taskCompletionEventDrafts_reports rows fast first written
        obtain ⟨changed, only⟩ := taskCompletionEventDrafts_reports states done first stored
        refine (moved.eq_of_status ?_).symm
        by_contra different
        by_cases still : current.status = row.status
        case pos =>
          obtain ⟨draft, drafted, named, status⟩ := changed (still ▸ Ne.symm different)
          exact different (status.symm.trans (fastOnly draft drafted named))
        case neg =>
          obtain ⟨draft, drafted, named, status⟩ := fastChanged still
          exact different ((only draft drafted named).symm.trans status)
      exact (forall₂_eq_eq_eq ▸ equal : replaceNode records.nodes value = next).symm
    · rintro rfl
      have status := Except.ok.inj (isolated.symm.trans settled)
      rw [status]
      exact ⟨rfl, returns projected rows headed _ _⟩

/-- The first of two chained nodes completes. -/
theorem sample_completion_projection_agrees : ∃ records node value projected whole,
      (sampleSystem chainStart).store.graphs "graph" = some records ∧ node ∈ records.nodes ∧
      value.status = .succeeded ∧ records.terminalState node.nodeId = .ok projected ∧
      records.eventState = .ok whole ∧
      ProjectionAgrees records projected whole node.nodeId (replaceNode whole.nodeStates value)
        projected.graph.nodes := by
  have started : (taskSystem sampleRepository).Reachable (sampleSystem chainStart) :=
    play_reachable (by decide +kernel)
  have stored : (((sampleSystem chainStart).store.graphs "graph").bind fun records =>
      (records.entryAt "a").bind fun node => (NodeEntry.replace node
        (node.state.succeeded sampleResult (some "exec-1"))).toOption.map NodeEntry.status) =
      some .succeeded := by
    decide +kernel
  obtain ⟨records, found, stored⟩ := Option.bind_eq_some_iff.mp stored
  obtain ⟨node, first, stored⟩ := Option.bind_eq_some_iff.mp stored
  obtain ⟨value, replaced, succeeded⟩ := Option.map_eq_some_iff.mp stored
  have member := (entryAt_mem first).1
  obtain ⟨projected, whole, projects, loads, _, agrees⟩ :=
    terminal_projection_agrees_with_the_whole_graph started found member
      (NodeEntry.replace_eq_ok.mp (toOption_eq_some.mp replaced)).1
  exact ⟨records, node, value, projected, whole, found, member, succeeded, projects, loads,
    agrees _ (.refl _)⟩

/-- The first of two chained nodes fails: the header stays `PENDING`, where the reconciliation
of both rows blocks the second node and fails the graph. -/
theorem fast_path_leaves_dependents : ¬∀ (repo : TaskRepository) (system : System)
      (graphId : String) (records : TaskGraphRecords) (node value : NodeEntry)
      (projected whole : TaskEventState) (next : List NodeEntry) (status : TaskStatus),
      (taskSystem repo).Reachable system → system.store.graphs graphId = some records →
      node ∈ records.nodes → value.definition = node.definition → value.status.Terminal →
      records.terminalState node.nodeId = .ok projected → records.eventState = .ok whole →
      reconciledTaskNodes (replaceNode whole.nodeStates value) whole.graph.nodes = .ok next →
      isolatedGraphStatus next whole.graph.nodes = .ok status →
      aggregateGraphStatus (replaceNode whole.nodeStates value)
        (failurePoliciesOf projected.graph.nodes) = status := by
  intro agrees
  have computed : (((sampleSystem chainStart).store.graphs "graph").bind fun records =>
      (records.entryAt "a").bind fun node => (NodeEntry.replace node (node.state.failed
        "EXECUTION_FAILED" sampleError (some "exec-1") .node [])).toOption.bind fun value =>
      (records.terminalState node.nodeId).toOption.bind fun projected =>
      records.eventState.toOption.bind fun whole =>
      (reconciledTaskNodes (replaceNode whole.nodeStates value) whole.graph.nodes).toOption.bind
        fun next => (isolatedGraphStatus next whole.graph.nodes).toOption.map fun status =>
          (value.status, aggregateGraphStatus (replaceNode whole.nodeStates value)
            (failurePoliciesOf projected.graph.nodes), status)) =
      some (.failed, .pending, .failed) := by
    decide +kernel
  simp only [Option.bind_eq_some_iff, Option.map_eq_some_iff, toOption_eq_some,
    Prod.mk.injEq] at computed
  obtain ⟨records, found, node, first, value, replaced, projected, projects, whole, loads, next,
    reconciled, status, isolated, failed, fast, slow⟩ := computed
  have same := agrees _ _ _ records node value projected whole next status
    (play_reachable (by decide +kernel)) found (entryAt_mem first).1
    (NodeEntry.replace_eq_ok.mp replaced).1 (.inr (.inl failed)) projects loads reconciled isolated
  rw [fast, slow] at same
  cases same

end Linktools.Persistence
