import Linktools.Persistence.TransitionSteps

namespace Linktools.Persistence

open Linktools.Core Library Linktools.Task
open List hiding head

variable {clock : Clock} {scope : Scope} {records after : TaskGraphRecords}
  {nodes added : List NodeEntry} {node value : NodeEntry}

/-- Besides the source's event, an expansion and a new header are reported. -/
theorem taskCompletionEventDrafts_eq (added : List NodeEntry)
    (distinct : (nodes.map NodeEntry.nodeId).Nodup) (member : node ∈ nodes)
    (same : value.nodeId = node.nodeId) (rowsBefore : before.nodeStates = nodes)
    (rowsFinal : final.nodeStates = replaceNode nodes value ++ added)
    (done : taskCompletionEventDrafts before final node.nodeId addedNodeIds = .ok drafts) :
    drafts = nodeTableDrafts nodes (replaceNode nodes value) ++
      expansionDrafts final.graph.status node.nodeId addedNodeIds ++
      taskGraphEventDrafts before.graph.status final.graph.status := by
  simp only [taskCompletionEventDrafts, bind_eq_ok, orRaise_eq_ok, pure_eq_ok,
    rowsBefore, rowsFinal] at done
  obtain ⟨_, _, sourceBefore, foundBefore, sourceFinal, foundFinal, _, _, rfl⟩ := done
  have first : sourceBefore = node := by
    rw [rowAt_of_mem distinct member] at foundBefore
    cases foundBefore
    rfl
  have last : sourceFinal = value := by
    have written : rowAt NodeEntry.nodeId (replaceNode nodes value) node.nodeId = some value := by
      rw [← same]
      exact rowAt_rewriteAt_self _ rfl (same ▸ mem_map_of_mem member)
    rw [rowAt_append, written] at foundFinal
    cases foundFinal
    rfl
  have others : ∀ nodeId ∈ (nodes.map NodeEntry.nodeId).insertionSort (· ≤ ·),
      (if nodeId = node.nodeId then ([] : List TaskEventDraft)
      else rowDrafts nodes (replaceNode nodes value ++ added) nodeId) = [] := by
    intro nodeId inside
    split
    case isTrue => rfl
    case isFalse different =>
      rw [mem_insertionSort] at inside
      obtain ⟨row, found⟩ := rowAt_isSome_iff.mpr inside
      have kept : rowAt NodeEntry.nodeId (replaceNode nodes value) nodeId = some row := by
        rw [← found]
        exact rowAt_rewriteAt_of_ne rfl (same ▸ different)
      rw [rowDrafts, rowAt_append, kept, found]
      exact taskNodeEventDrafts_self nodeId row.state
  rw [flatMap_eq_nil_iff.mpr others, append_nil, first, last,
    nodeTableDrafts_replaceNode distinct member same]

section

variable (distinct : (records.nodes.map NodeEntry.nodeId).Nodup)
  (sourceMember : node ∈ records.nodes) (same : value.definition = node.definition)
  {definitions : List TaskNode}
  (loads : definitions.Perm ((records.nodes.filter fun entry => entry.nodeId = node.nodeId ∨
    entry.status = .failed ∨ entry.status = .blocked).map NodeEntry.definition))
include distinct sourceMember same loads

theorem failurePoliciesOf_loaded :
    ∀ entry ∈ replaceNode records.nodes value, entry.status = .failed ∨ entry.status = .blocked →
      failurePoliciesOf definitions entry.nodeId = some entry.definition.failurePolicy := by
  intro entry member status
  apply failurePoliciesOf_mem
  case member =>
    rw [loads.mem_iff]
    rcases mem_rewriteAt member with rfl | ⟨inside, _⟩
    · rw [same]
      exact mem_map_of_mem (mem_filter.mpr ⟨sourceMember, by simp⟩)
    · exact mem_map_of_mem (mem_filter.mpr ⟨inside, by simp [status]⟩)
  case distinct =>
    rw [(loads.map TaskNode.nodeId).nodup_iff, map_nodeId_definition]
    exact distinct.sublist (filter_sublist.map _)

theorem aggregateGraphStatus_loaded :
    aggregateGraphStatus (replaceNode records.nodes value) (failurePoliciesOf definitions) =
      derivedStatus (replaceNode records.nodes value) := by
  have sameIds : (replaceNode records.nodes value).map NodeEntry.nodeId =
      records.nodes.map NodeEntry.nodeId := map_key_rewriteAt rfl
  exact aggregateGraphStatus_eq_derived (sameIds ▸ distinct)
    (failurePoliciesOf_loaded distinct sourceMember same loads)

end

theorem terminalRecord_claimed {record : TaskTerminalRecord} (recorded : record.check = .ok done) :
    1 ≤ record.fence := by
  simp only [TaskTerminalRecord.check, bind_eq_ok, refuse_eq_ok] at recorded
  obtain ⟨_, _, positive⟩ := recorded
  omega

namespace TaskRepository

variable {request : Complete} {resolved : Option String} {state : TaskNodeState}

theorem completionExecutionId_resolves
    (done : completionExecutionId clock request state = .ok resolved) :
    state.Resolves resolved := by
  unfold completionExecutionId at done
  split at done
  · simp only [bind_eq_ok] at done
    obtain ⟨_, _, resolvedOk⟩ := done
    exact resolveTaskExecutionId_ok resolvedOk
  · simp only [bind_eq_ok, pure_eq_ok] at done
    obtain ⟨_, _, rfl⟩ := done
    exact .inr rfl

theorem failureExecutionId_resolves {request : Fail}
    (done : failureExecutionId clock request state = .ok resolved) : state.Resolves resolved := by
  unfold failureExecutionId at done
  split at done
  · simp only [bind_eq_ok] at done
    obtain ⟨_, _, resolvedOk⟩ := done
    exact resolveTaskExecutionId_ok resolvedOk
  · simp only [bind_eq_ok, pure_eq_ok] at done
    obtain ⟨_, _, rfl⟩ := done
    exact .inr rfl

variable {result : TaskTerminalRecord} {nodeId : String}

theorem failIn_ok {request : Fail} (distinct : (records.nodes.map NodeEntry.nodeId).Nodup)
    (done : failIn clock request nodeId records = .ok (result, after)) :
    ∃ node ∈ records.nodes, node.nodeId = nodeId ∧
      ((node.status.Terminal ∧ failAgain clock request node = .ok result ∧ after = records) ∨
        ∃ value resolved, ¬node.status.Terminal ∧ 1 ≤ node.state.fence ∧
          failureExecutionId clock request node.state = .ok resolved ∧
          value.definition = node.definition ∧
          value.state.toTaskNodeFields = node.state.failed request.errorCode
            request.errorDigest resolved request.errorOrigin request.details ∧ Commits clock records
            { kept := replaceNode records.nodes value
              status := derivedStatus (replaceNode records.nodes value) } after ∧
          result.check = .ok () ∧ result =
            { nodeId := nodeId, owner := request.lease.map TaskLease.owner
              fence := node.state.fence, status := .failed, resultDigest := none
              errorCode := some request.errorCode
              errorDigest := some request.errorDigest, completedAt := clock.fresh
              executionId := resolved }) := by
  simp only [failIn, bind_eq_ok, orRaise_eq_ok] at done
  obtain ⟨_, _, before, loaded, node, found, done⟩ := done
  obtain ⟨_, sameStatus, sameNodes, _, definitions⟩ := records.terminalState_ok loaded
  rw [sameNodes] at found
  have member := rowAt_mem found
  obtain rfl := rowAt_key found
  refine ⟨node, member, rfl, ?_⟩
  split at done
  case isTrue terminal =>
    simp only [bind_eq_ok, pair_eq_ok] at done
    obtain ⟨_, again, rfl, rfl⟩ := done
    exact .inl ⟨terminal, again, rfl⟩
  case isFalse unfinished =>
    simp only [bind_eq_ok, pair_eq_ok, NodeEntry.replace_eq_ok, sameNodes, definitions] at done
    obtain ⟨resolved, resolvedOk, value, ⟨definition, fields⟩, drafts, drafted,
      written, appended, _, recorded, rfl, rfl⟩ := done
    have sameId : value.nodeId = node.nodeId := by
      rw [NodeEntry.nodeId, NodeEntry.nodeId, definition]
    have sameFence : value.state.fence = node.state.fence := by rw [fields]; rfl
    rw [aggregateGraphStatus_loaded distinct member definition (.refl _)] at drafted appended
    refine .inr ⟨value, resolved, unfinished, ?_, resolvedOk, definition, fields, ?_,
      recorded, by rw [sameFence]⟩
    · exact sameFence ▸ terminalRecord_claimed recorded
    · apply Commits.of_append { records with
        nodes := replaceNode records.nodes value
        status := derivedStatus (replaceNode records.nodes value) }
      case appended =>
        rw [← appended, taskCompletionEventDrafts_eq [] distinct member sameId sameNodes
          (append_nil _).symm drafted, sameStatus]
        rfl
      all_goals simp [GraphChange.nodes]

theorem failIn_step {request : Fail} (writes : ∀ fields, fields.status = .failed →
      fields.errorCode = some request.errorCode → fields.errorDigest = some request.errorDigest →
      scope.writes nodeId fields) (distinct : (records.nodes.map NodeEntry.nodeId).Nodup)
    (done : failIn clock request nodeId records = .ok (result, after)) :
    GraphStep clock scope records after := by
  obtain ⟨node, member, rfl, ⟨_, _, same⟩ | ⟨value, resolved, unfinished, claimed,
    resolvedOk, definition, fields, committed, _⟩⟩ := failIn_ok distinct done
  · exact .inl same
  · have row : RowMoves clock.now scope.writes node value := .single definition (by
      rw [fields]
      exact .fail _ _ _ _ _ unfinished claimed (failureExecutionId_resolves resolvedOk)
        (writes _ rfl rfl rfl))
    exact .inr ⟨_, .transition _ (replaceNode_rowsMove distinct member row)
      ⟨node, member, unfinished⟩, committed⟩

theorem initialNode_congr (left right : String → TaskStatus) :
    initialNode left definition = initialNode right definition := by
  unfold initialNode initialNodeFields
  by_cases free : definition.dependencies ≠ []
  · simp only [if_pos free]
  · rw [not_not] at free
    have agree : ∀ dependency ∈ definition.dependencies,
        left dependency = right dependency := by simp [free]
    rw [TaskNode.dependencyStatus_congr agree]

variable {statuses : String → TaskStatus}

theorem initialNode_definition (done : initialNode statuses definition = .ok entry) :
    entry.definition = definition := by
  simp only [initialNode, bind_eq_ok, pure_eq_ok] at done
  obtain ⟨_, _, rfl⟩ := done
  rfl

theorem initialNodes_ok (done : definitions.mapM (initialNode statuses) = .ok added) :
    added.map NodeEntry.definition = definitions ∧
      ∀ entry ∈ added, initialNode (fun _ => .pending) entry.definition = .ok entry := by
  rw [mapM_eq_ok] at done
  induction done with
  | nil => simp
  | cons head _ ih =>
    have same := initialNode_definition head
    rw [map_cons, same, ih.1, forall_mem_cons, same]
    exact ⟨rfl, (initialNode_congr _ _).trans head, ih.2⟩

variable {before : TaskEventState}

theorem completionState_ok (loaded : completionState request nodeId records = .ok before) :
    before.graph.status = records.status ∧ before.nodeStates = records.nodes ∧
      if request.expandedNodes ≠ [] then before.graph.nodes = records.definitions
      else before.graph.nodes = (records.nodes.filter fun entry =>
        entry.nodeId = nodeId ∨ entry.status = .failed ∨
          entry.status = .blocked).map NodeEntry.definition := by
  unfold completionState at loaded
  split at loaded
  case isTrue expanding =>
    obtain ⟨_, status, definitions, rows, _⟩ := records.eventState_ok loaded
    exact ⟨status, rows, by rw [if_pos expanding, definitions]⟩
  case isFalse plain =>
    obtain ⟨_, status, rows, _, definitions⟩ := records.terminalState_ok loaded
    exact ⟨status, rows, by rw [if_neg plain, definitions]⟩

theorem validateExpansion_ok
    (done : validateExpansion graph sourceNodeId expanded limits = .ok ordered) :
    ∃ extended : TaskGraph, extended.nodes = graph.nodes ++ ordered ∧
      extended.validateLimits limits = .ok () := by
  simp only [validateExpansion, bind_eq_ok] at done
  obtain ⟨_, _, _, _, _, _, _, _, _, _, done⟩ := done
  split at done
  case h_1 within =>
    rw [pure_eq_ok] at done
    subst done
    simp only [validateExtended, bind_eq_ok] at within
    obtain ⟨extended, built, valid⟩ := within
    exact ⟨extended, (TaskGraph.build_ok built).2, valid⟩
  case h_2 => cases done

variable {expanded : List TaskNode}

theorem validatedExpansion_ok
    (definitions : request.expandedNodes ≠ [] → before.graph.nodes = records.definitions)
    (done : validatedExpansion request nodeId records before = .ok expanded) :
    request.expandedNodes = [] ∧ expanded = [] ∨
    request.expandedNodes ≠ [] ∧ ∃ extended : TaskGraph,
      extended.nodes = records.definitions ++ expanded ∧
      extended.validateLimits records.admission.limits = .ok () := by
  unfold validatedExpansion at done
  split at done
  case isTrue expanding =>
    simp only [bind_eq_ok] at done
    obtain ⟨graph, built, validated⟩ := done
    obtain ⟨extended, nodes, valid⟩ := validateExpansion_ok validated
    rw [(TaskGraph.build_ok built).2, definitions expanding] at nodes
    exact .inr ⟨expanding, extended, nodes, valid⟩
  case isFalse plain =>
    cases done
    exact .inl ⟨not_not.mp plain, rfl⟩

section

variable (distinct : (records.nodes.map NodeEntry.nodeId).Nodup)
include distinct

/-- With or without an expansion the header is the one the rows call for. -/
theorem completionStatus_eq
    (member : node ∈ records.nodes) (same : value.definition = node.definition)
    (loaded : completionState request node.nodeId records = .ok before)
    (validated : validatedExpansion request node.nodeId records before = .ok expanded)
    (definitions : added.map NodeEntry.definition = expanded)
    (done : completionStatus request (replaceNode records.nodes value ++ added)
      (sortedByNodeId (before.graph.nodes ++ expanded)) = .ok status) :
    status = derivedStatus (replaceNode records.nodes value ++ added) := by
  obtain ⟨_, _, loadedNodes⟩ := completionState_ok loaded
  have afterDefinitions : (replaceNode records.nodes value ++ added).map
      NodeEntry.definition = records.definitions ++ expanded := by
    rw [map_append, replaceNode_definitions distinct member same, definitions]
    rfl
  rcases validatedExpansion_ok (fun expanding => by
      rwa [if_pos expanding] at loadedNodes) validated with
    ⟨plain, none⟩ | ⟨expanding, extended, nodes, _⟩
  · rw [if_neg (not_not_intro plain)] at loadedNodes
    subst none
    rw [map_eq_nil_iff] at definitions
    subst definitions
    simp only [completionStatus, plain, ne_eq, not_true_eq_false, if_false,
      append_nil, Except.ok.injEq] at done ⊢
    rw [← done, loadedNodes,
      aggregateGraphStatus_loaded distinct member same (sortedByNodeId_perm _)]
  · rw [if_pos expanding] at loadedNodes
    rw [completionStatus, if_pos expanding, loadedNodes] at done
    have distinctAfter : ((replaceNode records.nodes value ++ added).map
        NodeEntry.nodeId).Nodup := by
      rw [← map_nodeId_definition, afterDefinitions, ← nodes]
      exact extended.ids_nodup
    apply isolatedGraphStatus_eq done distinctAfter
    rw [afterDefinitions]
    exact (sortedByNodeId_perm _).symm

/-- A completion finds the row terminal, or writes it with its result and the added
rows, and derives the header. -/
theorem completeIn_ok (done : completeIn clock request nodeId records = .ok (result, after)) :
    ∃ node ∈ records.nodes, node.nodeId = nodeId ∧ ((node.status.Terminal ∧
          (∃ before, completeAgain clock request before node
            (records.resultAt nodeId) = .ok result) ∧ after = records) ∨ ∃ value executionId added,
          completionExecutionId clock request node.state = .ok (some executionId) ∧
          Completes records node value
            ⟨records.graphId, node.nodeId, request.resultDigest, executionId⟩ ∧
          records.resultAt node.nodeId = none ∧ (added = [] ∨ Extends records added) ∧
          Commits clock records
            { kept := replaceNode records.nodes value
              status := derivedStatus (replaceNode records.nodes value ++ added)
              added := added, sourceNodeId := node.nodeId
              results := [⟨records.graphId, node.nodeId, request.resultDigest,
                executionId⟩] } after ∧ result.check = .ok () ∧ result =
            { nodeId := nodeId, owner := request.lease.map TaskLease.owner
              fence := node.state.fence, status := .succeeded
              resultDigest := some request.resultDigest, errorCode := none
              errorDigest := none, completedAt := clock.fresh
              executionId := some executionId }) := by
  simp only [completeIn, bind_eq_ok, orRaise_eq_ok] at done
  obtain ⟨_, _, before, loaded, node, found, _, _, done⟩ := done
  obtain ⟨sameStatus, sameNodes, _⟩ := completionState_ok loaded
  rw [sameNodes] at found
  have member := rowAt_mem found
  obtain rfl := rowAt_key found
  refine ⟨node, member, rfl, ?_⟩
  split at done
  case isTrue terminal =>
    simp only [bind_eq_ok, pair_eq_ok] at done
    obtain ⟨_, again, rfl, rfl⟩ := done
    exact .inl ⟨terminal, ⟨before, again⟩, rfl⟩
  case isFalse unfinished =>
    simp only [bind_eq_ok] at done
    obtain ⟨resolved, resolvedOk, expanded, validated, done⟩ := done
    simp only [writeCompletion, bind_eq_ok, orRaise_eq_ok, refuse_eq_ok,
      pair_eq_ok, NodeEntry.replace_eq_ok, not_not, sameNodes]
      at done
    obtain ⟨value, ⟨definition, fields⟩, added, addedOk, status, statusOk, drafts,
      drafted, _, absent, executionId, bound, _, _, written, appended, _, recorded,
      rfl, rfl⟩ := done
    subst bound
    obtain ⟨definitions, fresh⟩ := initialNodes_ok addedOk
    have statusEq := completionStatus_eq distinct member definition loaded validated
      definitions statusOk
    subst statusEq
    have sameId : value.nodeId = node.nodeId := by
      rw [NodeEntry.nodeId, NodeEntry.nodeId, definition]
    have sameFence : value.state.fence = node.state.fence := by rw [fields]; rfl
    have extends' : added = [] ∨ Extends records added := by
      obtain ⟨_, _, loadedNodes⟩ := completionState_ok loaded
      rcases validatedExpansion_ok (fun expanding => by
          rwa [if_pos expanding] at loadedNodes) validated with
        ⟨_, none⟩ | ⟨_, extended, nodes, valid⟩
      · exact .inl (map_eq_nil_iff.mp (definitions.trans none))
      · exact .inr ⟨fresh, extended, by rw [nodes, definitions], valid⟩
    have completes : Completes records node value
        ⟨records.graphId, node.nodeId, request.resultDigest, executionId⟩ :=
      { member := member
        unfinished := unfinished
        claimed := sameFence ▸ terminalRecord_claimed recorded
        resolves := completionExecutionId_resolves resolvedOk
        definition := definition
        state := fields
        graphId := rfl
        nodeId := rfl }
    refine .inr ⟨value, executionId, added, resolvedOk, completes, absent, extends', ?_,
      recorded, by rw [sameFence]⟩
    apply Commits.of_append { records with
      nodes := sortedEntries (replaceNode records.nodes value ++ added)
      status := derivedStatus (replaceNode records.nodes value ++ added)
      results := records.results ++
        [⟨records.graphId, node.nodeId, request.resultDigest, executionId⟩] }
    case appended =>
      rw [← appended, taskCompletionEventDrafts_eq added distinct member sameId
        sameNodes rfl drafted, sameStatus, ← definitions, map_map]
      rfl
    case nodes => exact perm_insertionSort _ _
    all_goals simp

end

theorem completeIn_step (writes : ∀ fields, fields.status = .succeeded →
      fields.resultDigest = some request.resultDigest → scope.writes nodeId fields)
    (distinct : (records.nodes.map NodeEntry.nodeId).Nodup)
    (done : completeIn clock request nodeId records = .ok (result, after)) :
    GraphStep clock scope records after := by
  obtain ⟨node, _, rfl, ⟨_, _, same⟩ | ⟨value, executionId, added, _, completes, absent,
    extends', committed, _⟩⟩ := completeIn_ok distinct done
  · exact .inl same
  · exact .inr ⟨_, .completed node value _ added completes
      (completes.state ▸ writes _ rfl rfl) absent extends', committed⟩

end TaskRepository

namespace TaskRepository

variable {repo : TaskRepository} {scopes : String → Scope} {store after : Store}
  {admission : TaskGraphAdmission} {graph : TaskGraph} {view : TaskGraphView}

theorem createAdmission_ok (valid : admission.validateGraph repo.sha256 graph = .ok ())
    (done : repo.createAdmission clock admission graph store = .ok (view, after)) :
    ∃ records, Created clock records ∧ records.graphId = graph.graphId ∧ after.graphs =
        Function.update store.graphs graph.graphId (some records) := by
  simp only [createAdmission, bind_eq_ok, pure_eq_ok, Prod.exists, Prod.mk.injEq] at done
  obtain ⟨nodeViews, initial, status, computed, records, appended, _, _, _, written, _, rfl⟩ := done
  obtain ⟨definitions, fresh⟩ := initialNodes_ok initial
  have sorted : (sortedEntries nodeViews).Perm nodeViews := perm_insertionSort _ _
  have distinct : (nodeViews.map NodeEntry.nodeId).Nodup := by
    rw [← map_nodeId_definition, definitions]
    exact graph.ids_nodup
  have derived := isolatedGraphStatus_eq computed distinct (by rw [definitions])
  obtain ⟨checked, rfl⟩ := appendTaskEvents_eq_ok.mp appended
  refine ⟨_, ?_, rfl, Store.appendOperation_graphs written⟩
  obtain ⟨sameId, limits⟩ := TaskGraphAdmission.validateGraph_ok valid
  exact
    { graph := ⟨graph, rfl, by
        rw [← definitions]
        exact (sorted.map _).symm, limits⟩
      fresh := fun entry member => fresh entry (sorted.mem_iff.mp member)
      status := by
        rw [derived]
        exact derivedStatus_perm distinct sorted.symm
      results := rfl
      preparedInputs := rfl
      events := rfl
      eventSequence := rfl
      checked := checked }

theorem requireCommittedAdmission_ok
    (done : repo.requireCommittedAdmission store records = .ok view) :
    ∃ nodes, nodes = records.definitions ∧
      effectiveGraphStatus ⟨records.graphId, records.status, nodes⟩ records.nodes =
        .ok view.status := by
  simp only [requireCommittedAdmission, bind_eq_ok, pure_eq_ok] at done
  obtain ⟨graph, built, status, computed, _, _, _, _, _, _, _, _, rfl⟩ := done
  exact ⟨graph.nodes, (TaskGraph.build_ok built).2, computed⟩

theorem repairAggregateProjection_step (distinct : (records.nodes.map NodeEntry.nodeId).Nodup)
    (committed : repo.requireCommittedAdmission store records = .ok view)
    (done : repairAggregateProjection clock records view = .ok (repaired, written)) :
    GraphStep clock scope records written := by
  unfold repairAggregateProjection at done
  split at done
  case isTrue =>
    cases done
    exact .inl rfl
  case isFalse different =>
    simp only [bind_eq_ok, pair_eq_ok] at done
    obtain ⟨_, appended, _, rfl⟩ := done
    obtain ⟨nodes, definitions, effective⟩ := requireCommittedAdmission_ok committed
    have header : view.status = derivedStatus records.nodes ∧
        (records.status ≠ .cancelled ∨ view.status = .recoveryRequired) := by
      rcases derivedStatus_eq_of_effective distinct definitions effective with
        ⟨derived, other⟩ | ⟨derived, recovering⟩ | ⟨_, same⟩
      · exact ⟨derived, .inl other⟩
      · exact ⟨derived, .inr recovering⟩
      · exact absurd same.symm different
    refine .inr ⟨_, .repaired view.status header.1 header.2, ?_⟩
    apply Commits.of_append { records with status := view.status }
    case appended =>
      rw [← appended]
      simp only [GraphChange.drafts, nodeTableDrafts_self, map_nil,
        expansionDrafts, if_true, nil_append]
    all_goals simp [GraphChange.nodes]

theorem admitGraph_step {alreadyAdmitted : Prop} [Decidable alreadyAdmitted]
    (keyed : WellKeyed store) (valid : admission.validateGraph repo.sha256 graph = .ok ())
    (done : repo.admitGraph clock admission graph alreadyAdmitted store =
      .ok (view, after)) : StoreStep clock scopes store after := by
  unfold admitGraph at done
  split at done
  case h_1 absent _ =>
    simp only [bind_eq_ok] at done
    obtain ⟨_, _, created⟩ := done
    obtain ⟨records, isCreated, ownId, graphs⟩ := createAdmission_ok valid created
    intro other
    rw [graphs]
    by_cases here : other = graph.graphId
    · subst here
      rw [absent, Function.update_self]
      exact .created records isCreated ownId
    · rw [Function.update_of_ne here]
      exact .refl clock _ _ _
  case h_2 => cases done
  case h_3 =>
    simp only [bind_eq_ok] at done
    obtain ⟨_, _, _, _, impossible⟩ := done
    cases impossible
  case h_4 records operation found _ =>
    simp only [bind_eq_ok, pure_eq_ok, Prod.exists, Prod.mk.injEq] at done
    obtain ⟨_, _, _, _, committedView, committed, _, _, repaired, written,
      repairedOk, _, rfl⟩ := done
    obtain ⟨sameId, distinct⟩ := keyed graph.graphId records found
    have step : GraphStep clock (scopes graph.graphId) records written :=
      repairAggregateProjection_step distinct committed repairedOk
    intro other
    simp only [Store.putGraph, step.graphId_eq, sameId]
    by_cases here : other = graph.graphId
    · subst here
      rw [found, Function.update_self]
      exact .stepped records written step
    · rw [Function.update_of_ne here]
      exact .refl clock _ _ _

variable {submission : TaskGraphSubmission}

theorem submissionCheck_ok (checked : submission.check repo.sha256 = .ok done) :
    submission.admission.validateGraph repo.sha256 submission.graph = .ok () := by
  simp only [TaskGraphSubmission.check, bind_eq_ok] at checked
  obtain ⟨_, _, _, _, valid⟩ := checked
  exact valid

theorem preparedSubmission_ok
    (valid : candidate.admission.validateGraph repo.sha256 candidate.graph = .ok ())
    (done : repo.preparedSubmission store head candidate = .ok prepared) :
    prepared.admission.validateGraph repo.sha256 prepared.graph = .ok () := by
  unfold preparedSubmission at done
  split at done
  · cases done
    exact valid
  · simp only [decodePayload, bind_eq_ok, pure_eq_ok] at done
    obtain ⟨_, ⟨_, _, _, checked, rfl⟩, _, _, rfl⟩ := done
    exact submissionCheck_ok checked

section

variable (keyed : WellKeyed store)
include keyed

theorem admitInTransaction_step
    (done : repo.admitInTransaction clock admission graph requirePrepared
      store = .ok (view, after)) : StoreStep clock scopes store after := by
  simp only [admitInTransaction, bind_eq_ok] at done
  obtain ⟨_, checked, head, _, done⟩ := done
  have valid := submissionCheck_ok checked
  split at done
  case h_1 =>
    simp only [bind_eq_ok] at done
    obtain ⟨_, _, admitted⟩ := done
    change StoreStep clock scopes (store.setSubmission
      (TaskGraphSubmission.mk repo.namespaceId admission graph).ref .admitted) after
    exact admitGraph_step keyed valid admitted
  case h_2 =>
    simp only [bind_eq_ok] at done
    obtain ⟨prepared, preparedOk, admitted⟩ := done
    change StoreStep clock scopes ((store.setSubmission
      (TaskGraphSubmission.mk repo.namespaceId admission graph).ref
        .admitted).setPayload prepared.graph.graphId none) after
    exact admitGraph_step keyed (preparedSubmission_ok valid preparedOk) admitted
  case h_3 => exact admitGraph_step keyed valid done
  case h_4 =>
    split at done
    · rw [pair_eq_ok] at done
      exact .of_graphs_eq (by rw [done.2])
    · exact admitGraph_step keyed valid done

theorem admit_step
    (done : repo.admitSubmission clock admission graph store = .ok (view, after)) :
    StoreStep clock scopes store after := by
  simp only [admitSubmission, bind_eq_ok] at done
  obtain ⟨_, _, _, _, _, _, admitted⟩ := done
  exact admitInTransaction_step keyed admitted

theorem admitPrepared_step
    (done : repo.admitPrepared clock submission store = .ok (view, after)) :
    StoreStep clock scopes store after := by
  simp only [admitPrepared, bind_eq_ok] at done
  obtain ⟨_, _, _, _, _, _, _, _, admitted⟩ := done
  exact admitInTransaction_step keyed admitted

end

theorem prepareWithDisposition_graphs
    (done : repo.prepareWithDisposition submission store = .ok (result, after)) :
    after.graphs = store.graphs := by
  simp only [prepareWithDisposition, bind_eq_ok] at done
  obtain ⟨_, _, head, _, done⟩ := done
  split at done
  · simp only [bind_eq_ok, pair_eq_ok] at done
    obtain ⟨_, _, _, rfl⟩ := done
    rfl
  · simp only [bind_eq_ok, pair_eq_ok] at done
    obtain ⟨_, _, _, rfl⟩ := done
    rfl

variable {submission : TaskSubmissionRef}

theorem withdrawSubmission_graphs
    (done : repo.withdrawSubmission submission store = .ok after) :
    after.graphs = store.graphs := by
  simp only [withdrawSubmission, bind_eq_ok] at done
  obtain ⟨head, _, done⟩ := done
  split at done
  · rw [pure_eq_ok] at done
    exact done ▸ rfl
  · rw [pure_eq_ok] at done
    exact done ▸ rfl
  · simp only [bind_eq_ok, pure_eq_ok] at done
    obtain ⟨_, _, rfl⟩ := done
    rfl
  · simp only [bind_eq_ok, pure_eq_ok] at done
    obtain ⟨_, _, _, _, _, _, rfl⟩ := done
    rfl

variable {operation : OperationLedgerInput}

theorem cancelSubmission_graphs
    (done : repo.cancelSubmission submission operation store = .ok (result, after)) :
    after.graphs = store.graphs := by
  simp only [cancelSubmission, bind_eq_ok, pure_eq_ok, Prod.exists, Prod.mk.injEq] at done
  obtain ⟨_, _, withdrawn, withdrawnOk, _, _, _, appended, _, rfl⟩ := done
  rw [Store.appendOperation_graphs appended, withdrawSubmission_graphs withdrawnOk]

theorem registerCancelRequest_graphs
    (done : repo.registerCancelRequest operation store = .ok (result, after)) :
    after.graphs = store.graphs := by
  simp only [registerCancelRequest, bind_eq_ok] at done
  obtain ⟨_, _, _, _, _, _, appended⟩ := done
  exact Store.appendOperation_graphs appended

theorem compareAndSwap_graphs {operationId tenantId : String}
    (done : repo.compareAndSwap operationId tenantId expectedStatus
      nextRecord store = .ok (result, after)) : after.graphs = store.graphs := by
  simp only [compareAndSwap, bind_eq_ok, pair_eq_ok] at done
  obtain ⟨_, _, _, _, _, _, _, _, _, _, _, _, _, rfl⟩ := done
  rfl

theorem append_graphs {value : OperationLedgerInput}
    (done : repo.append value store = .ok (result, after)) : after.graphs = store.graphs := by
  simp only [append, bind_eq_ok, pure_eq_ok, Prod.exists, Prod.mk.injEq] at done
  obtain ⟨_, _, _, _, _, appended, rfl, rfl⟩ := done
  exact Store.appendOperation_graphs appended

theorem compactTerminal_graphs {resourceKind : ResourceKind} {resourceId tenantId : String}
    (done : repo.compactTerminal resourceKind resourceId tenantId throughSequence
      store = .ok (result, after)) : after.graphs = store.graphs := by
  simp only [compactTerminal, bind_eq_ok] at done
  obtain ⟨_, _, done⟩ := done
  split at done
  · cases done
    rfl
  · cases done
    rfl

end TaskRepository

end Linktools.Persistence
