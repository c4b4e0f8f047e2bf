import Linktools.Persistence.TaskAdmission

namespace Linktools.Persistence

open Linktools.Core Library Linktools.Task

structure GraphChange where
  kept : List NodeEntry
  status : TaskStatus
  added : List NodeEntry := []
  sourceNodeId : String := ""
  results : List TaskResultRecord := []
  preparedInputs : List TaskPreparedInputRecord := []

namespace GraphChange

def nodes (change : GraphChange) : List NodeEntry := change.kept ++ change.added

def drafts (before : TaskGraphRecords) (change : GraphChange) : List TaskEventDraft :=
  nodeTableDrafts before.nodes change.kept ++
    expansionDrafts change.status change.sourceNodeId (change.added.map NodeEntry.nodeId) ++
    taskGraphEventDrafts before.status change.status

def events (clock : Clock) (before : TaskGraphRecords) (change : GraphChange) : List TaskEvent :=
  stampEvents before.graphId clock.now (before.eventSequence + 1) (change.drafts before)

end GraphChange

structure Commits (clock : Clock) (before : TaskGraphRecords)
    (change : GraphChange) (after : TaskGraphRecords) : Prop where
  graphId : after.graphId = before.graphId
  admission : after.admission = before.admission
  nodes : after.nodes.Perm change.nodes
  status : after.status = change.status
  results : after.results = before.results ++ change.results
  preparedInputs : after.preparedInputs = before.preparedInputs ++ change.preparedInputs
  events : after.events = before.events ++ change.events clock before
  eventSequence : after.eventSequence = before.eventSequence + (change.drafts before).length
  checked : ∀ event ∈ change.events clock before, event.check = .ok ()

/-- One row of the table before and after: the definition stays and the state
makes moves. -/
structure RowMoves (now : Time) (writes : String → TaskNodeFields → Prop)
    (node value : NodeEntry) : Prop where
  definition : value.definition = node.definition
  moves : TaskNodeFields.Moves now (writes node.nodeId) node.state.toTaskNodeFields
    value.state.toTaskNodeFields

def RowsMove (now : Time) (writes : String → TaskNodeFields → Prop) :
    List NodeEntry → List NodeEntry → Prop :=
  List.Forall₂ (RowMoves now writes)

structure Claimable (now : Time) (before : TaskGraphRecords) (node : NodeEntry) : Prop where
  member : node ∈ before.nodes
  status_open : ¬before.status.Terminal
  status_stable : before.status ≠ .recoveryRequired
  unfinished : ¬node.status.Terminal
  stable : node.status ≠ .recoveryRequired
  dependencies_ready : node.definition.dependencyStatus (statusIn before.entryAt) = .ready
  slot : TaskRepository.activeNodes now before.nodes < before.admission.limits.maxConcurrency

def CancelledHeader (nodes : List NodeEntry) : Prop :=
  (∀ node ∈ nodes, node.status.Terminal) ∧ ∃ node ∈ nodes, node.status = .cancelled

structure Completes (before : TaskGraphRecords) (node value : NodeEntry)
    (result : TaskResultRecord) : Prop where
  member : node ∈ before.nodes
  unfinished : ¬node.status.Terminal
  claimed : 1 ≤ node.state.fence
  resolves : node.state.Resolves (some result.executionId)
  definition : value.definition = node.definition
  state : value.state.toTaskNodeFields =
    node.state.succeeded result.resultDigest (some result.executionId)
  graphId : result.graphId = before.graphId
  nodeId : result.nodeId = node.nodeId

structure Extends (before : TaskGraphRecords) (added : List NodeEntry) : Prop where
  fresh : ∀ entry ∈ added, initialNode (fun _ => .pending) entry.definition = .ok entry
  within : ∃ graph : TaskGraph, graph.nodes = before.definitions ++ added.map NodeEntry.definition ∧
    graph.validateLimits before.admission.limits = .ok ()

/-- What sets an operation on a graph apart: the node that it claims and the owner it claims it
for, what it may write to a node, and whether it polls or cancels the graph. -/
structure Scope where
  claims : String → String → Prop := fun _ _ => False
  writes : String → TaskNodeFields → Prop := fun _ _ => False
  schedules : Prop := False
  cancels : Prop := False

section

variable (clock : Clock) (scope : Scope) (before : TaskGraphRecords)

inductive Permitted : GraphChange → Prop
  /-- `claim` -/
  | claimed (node value : NodeEntry) (owner : String) (expires : Time)
      (claims : scope.claims node.nodeId owner) (claimable : Claimable clock.now before node)
      (definition : value.definition = node.definition)
      (state : value.state.toTaskNodeFields = node.state.claimed owner expires) :
      Permitted
        { kept := replaceNode before.nodes value, status := before.status }
  /-- `renew`, `bind_execution` and `handoff_execution` -/
  | held (node value : NodeEntry) (member : node ∈ before.nodes)
      (running : node.status = .running) (row : RowMoves clock.now scope.writes node value)
      (active : value.status = .running ∨ value.status = .waiting) : Permitted
        { kept := replaceNode before.nodes value, status := before.status }
  /-- `publish_prepared_input` -/
  | prepared (record : TaskPreparedInputRecord) : Permitted
        { kept := before.nodes, status := before.status
          preparedInputs := [record] }
  /-- The operations that move some unfinished row and derive the header. -/
  | transition (kept : List NodeEntry) (rows : RowsMove clock.now scope.writes before.nodes kept)
      (unfinished : ∃ node ∈ before.nodes, ¬node.status.Terminal) :
      Permitted { kept := kept, status := derivedStatus kept }
  /-- `scheduler_state` -/
  | scheduled (kept : List NodeEntry) (schedules : scope.schedules)
      (rows : RowsMove clock.now scope.writes before.nodes kept) :
      Permitted { kept := kept, status := derivedStatus kept }
  /-- `cancel_graph` -/
  | cancelled (kept : List NodeEntry) (status : TaskStatus)
      (cancels : scope.cancels) (rows : RowsMove clock.now scope.writes before.nodes kept)
      (header : status = derivedStatus kept ∧ ¬CancelledHeader kept ∨
        status = .cancelled ∧ CancelledHeader kept) :
      Permitted { kept := kept, status := status }
  /-- a repeated admission -/
  | repaired (status : TaskStatus) (header : status = derivedStatus before.nodes)
      (cancelled : before.status ≠ .cancelled ∨ status = .recoveryRequired) :
      Permitted { kept := before.nodes, status := status }
  /-- `complete` -/
  | completed (node value : NodeEntry) (result : TaskResultRecord) (added : List NodeEntry)
      (completes : Completes before node value result)
      (written : scope.writes node.nodeId value.state.toTaskNodeFields)
      (absent : before.resultAt node.nodeId = none)
      (extends' : added = [] ∨ Extends before added) : Permitted
        { kept := replaceNode before.nodes value
          status := derivedStatus (replaceNode before.nodes value ++ added)
          added := added, sourceNodeId := node.nodeId, results := [result] }

end

structure Created (clock : Clock) (records : TaskGraphRecords) : Prop where
  graph : ∃ graph : TaskGraph, graph.graphId = records.graphId ∧
    graph.nodes.Perm records.definitions ∧ graph.validateLimits records.admission.limits = .ok ()
  fresh : ∀ entry ∈ records.nodes, initialNode (fun _ => .pending) entry.definition = .ok entry
  status : records.status = derivedStatus records.nodes
  results : records.results = []
  preparedInputs : records.preparedInputs = []
  events : records.events = stampEvents records.graphId clock.now 1
    [{ eventType := .graphAdmitted, status := records.status }]
  eventSequence : records.eventSequence = 1
  checked : ∀ event ∈ records.events, event.check = .ok ()

/-- A graph's records are as before or have gone through one permitted change. -/
def GraphStep (clock : Clock) (scope : Scope) (before after : TaskGraphRecords) : Prop :=
  after = before ∨ ∃ change, Permitted clock scope before change ∧ Commits clock before change after

inductive GraphFate (clock : Clock) (scope : Scope) (graphId : String) :
    Option TaskGraphRecords → Option TaskGraphRecords → Prop
  | absent : GraphFate clock scope graphId none none
  | created (records : TaskGraphRecords) (created : Created clock records)
      (sameId : records.graphId = graphId) : GraphFate clock scope graphId none (some records)
  | stepped (before after : TaskGraphRecords) (step : GraphStep clock scope before after) :
      GraphFate clock scope graphId (some before) (some after)

def StoreStep (clock : Clock) (scope : String → Scope) (before after : Store) : Prop :=
  ∀ graphId, GraphFate clock (scope graphId) graphId (before.graphs graphId) (after.graphs graphId)

theorem GraphFate.refl (clock : Clock) (scope : Scope) (graphId : String)
    (records : Option TaskGraphRecords) : GraphFate clock scope graphId records records := by
  cases records with
  | none => exact .absent
  | some records => exact .stepped records records (.inl rfl)

variable {clock : Clock} {scope : String → Scope} {before after : Store}

theorem StoreStep.of_graphs_eq
    (same : after.graphs = before.graphs) : StoreStep clock scope before after := by
  intro graphId
  rw [same]
  exact .refl clock _ _ _

/-- Every graph is stored under its own id, with rows of different ids. -/
def WellKeyed (store : Store) : Prop :=
  ∀ graphId records, store.graphs graphId = some records →
    records.graphId = graphId ∧ (records.nodes.map NodeEntry.nodeId).Nodup

theorem GraphStep.graphId_eq {scope : Scope} {before after : TaskGraphRecords}
    (step : GraphStep clock scope before after) : after.graphId = before.graphId := by
  rcases step with rfl | ⟨_, _, committed⟩
  · rfl
  · exact committed.graphId

/-- The records of one stored graph go through one step, and nothing else changes. -/
def OneGraphStep (clock : Clock) (scope : String → Scope) (before after : Store) : Prop :=
  ∃ graphId records records', before.graphs graphId = some records ∧
    GraphStep clock (scope graphId) records records' ∧ after = before.putGraph records'

theorem OneGraphStep.of_onGraph {α : Type} {graphId : String} {missing : Raised} {result : α}
    {mutate : TaskGraphRecords → Except Raised (α × TaskGraphRecords)} (keyed : WellKeyed before)
    (stepped : ∀ records records' result, (records.nodes.map NodeEntry.nodeId).Nodup →
      mutate records = .ok (result, records') → GraphStep clock (scope graphId) records records')
    (done : before.onGraph graphId missing mutate = .ok (result, after)) :
    OneGraphStep clock scope before after := by
  obtain ⟨records, records', found, mutated, written⟩ := Store.onGraph_ok.mp done
  obtain ⟨_, distinct⟩ := keyed graphId records found
  exact ⟨graphId, records, records', found,
    stepped records records' result distinct mutated, written⟩

theorem OneGraphStep.storeStep (keyed : WellKeyed before)
    (changed : OneGraphStep clock scope before after) : StoreStep clock scope before after := by
  obtain ⟨graphId, records, records', found, step, rfl⟩ := changed
  obtain ⟨sameId, _⟩ := keyed graphId records found
  intro other
  simp only [Store.putGraph, step.graphId_eq, sameId]
  by_cases here : other = graphId
  · subst here
    rw [found, Function.update_self]
    exact .stepped records records' step
  · rw [Function.update_of_ne here]
    exact .refl clock _ _ _

theorem Commits.of_append {before after : TaskGraphRecords} (candidate : TaskGraphRecords)
    (appended : appendTaskEvents clock candidate (change.drafts before) = .ok after)
    (graphId : candidate.graphId = before.graphId)
    (admission : candidate.admission = before.admission) (nodes : candidate.nodes.Perm change.nodes)
    (status : candidate.status = change.status)
    (results : candidate.results = before.results ++ change.results)
    (preparedInputs : candidate.preparedInputs = before.preparedInputs ++ change.preparedInputs)
    (events : candidate.events = before.events)
    (eventSequence : candidate.eventSequence = before.eventSequence) :
    Commits clock before change after := by
  obtain ⟨checked, rfl⟩ := appendTaskEvents_eq_ok.mp appended
  rw [graphId, eventSequence] at checked
  exact
    { graphId := graphId
      admission := admission
      nodes := nodes
      status := status
      results := results
      preparedInputs := preparedInputs
      events := by simp only [events, graphId, eventSequence]; rfl
      eventSequence := by simp only [eventSequence]
      checked := checked }

open List
open Task.TaskNodeFields (Moves)

variable {now : Time} {records after : TaskGraphRecords} {nodes left middle right : List NodeEntry}
  {node value : NodeEntry}

theorem SameObserved_refl (fields : TaskNodeFields) : fields.SameObserved fields :=
  ⟨rfl, rfl, rfl, rfl, rfl, rfl, rfl⟩

theorem taskNodeEventDrafts_self (nodeId : String) (state : TaskNodeState) :
    taskNodeEventDrafts nodeId state state = [] :=
  if_pos (SameObserved_refl _)

theorem nodeTableDrafts_self (nodes : List NodeEntry) : nodeTableDrafts nodes nodes = [] := by
  induction nodes with
  | nil => rfl
  | cons head tail ih =>
    simp only [nodeTableDrafts, zip_cons_cons, flatMap_cons,
      taskNodeEventDrafts_self, nil_append] at ih ⊢
    exact ih

theorem nodeTableDrafts_cons (head value : NodeEntry) :
    nodeTableDrafts (head :: left) (value :: right) =
      taskNodeEventDrafts head.nodeId head.state value.state ++ nodeTableDrafts left right := by
  simp only [nodeTableDrafts, zip_cons_cons, flatMap_cons]

theorem replaceNode_of_absent (absent : value.nodeId ∉ nodes.map NodeEntry.nodeId) :
    replaceNode nodes value = nodes := by
  unfold replaceNode rewriteAt
  refine (map_congr_left ?_).trans (map_id nodes)
  intro current member
  apply if_neg
  intro same
  exact absent (same ▸ mem_map_of_mem member)

theorem nodeTableDrafts_replaceNode
    (distinct : (nodes.map NodeEntry.nodeId).Nodup) (member : node ∈ nodes)
    (same : value.nodeId = node.nodeId) : nodeTableDrafts nodes (replaceNode nodes value) =
      taskNodeEventDrafts node.nodeId node.state value.state := by
  induction nodes with
  | nil => simp at member
  | cons head tail ih =>
    obtain ⟨headFresh, tailDistinct⟩ := nodup_cons.mp distinct
    have unfolded : replaceNode (head :: tail) value =
        (if head.nodeId = value.nodeId then value else head) :: replaceNode tail value := rfl
    rw [unfolded, nodeTableDrafts_cons]
    rcases mem_cons.mp member with rfl | inTail
    · rw [if_pos same.symm, replaceNode_of_absent (same ▸ headFresh),
        nodeTableDrafts_self, append_nil]
    · have different : head.nodeId ≠ value.nodeId := fun equal =>
        headFresh (by rw [equal, same]; exact mem_map_of_mem inTail)
      rw [if_neg different, taskNodeEventDrafts_self, nil_append, ih tailDistinct inTail]

theorem RowMoves.refl (node : NodeEntry) : RowMoves now writes node node := ⟨rfl, .refl⟩

theorem RowMoves.single (definition : value.definition = node.definition)
    (move : TaskNodeFields.Move now (writes node.nodeId) node.state.toTaskNodeFields
      value.state.toTaskNodeFields) : RowMoves now writes node value :=
  ⟨definition, .single move⟩

theorem RowMoves.trans (first : RowMoves now writes node other)
    (second : RowMoves now writes other value) : RowMoves now writes node value := by
  have same : other.nodeId = node.nodeId := congrArg TaskNode.nodeId first.definition
  exact ⟨second.definition.trans first.definition, first.moves.trans (same ▸ second.moves)⟩

theorem RowsMove.trans (first : RowsMove now writes left middle)
    (second : RowsMove now writes middle right) : RowsMove now writes left right := by
  induction first generalizing right with
  | nil =>
    cases second
    exact .nil
  | cons head _ ih =>
    cases second with
    | cons head' tail' =>
      exact .cons (head.trans head') (ih tail')

theorem RowsMove.definitions (rows : RowsMove now writes left right) :
    right.map NodeEntry.definition = left.map NodeEntry.definition :=
  forall₂_map_key (fun _ _ row => row.definition) rows

theorem replaceNode_rowsMove (distinct : (nodes.map NodeEntry.nodeId).Nodup)
    (member : node ∈ nodes) (row : RowMoves now writes node value) :
    RowsMove now writes nodes (replaceNode nodes value) := by
  apply forall₂_rewriteAt
  · exact fun current _ _ => .refl current
  · intro current inside same
    have equal : current = node := by
      have sameId : current.nodeId = node.nodeId := by
        rw [same, NodeEntry.nodeId, NodeEntry.nodeId, row.definition]
      exact inj_on_of_nodup_map distinct inside member sameId
    rw [equal]
    exact row

theorem replaceNode_definitions (distinct : (nodes.map NodeEntry.nodeId).Nodup)
    (member : node ∈ nodes) (same : value.definition = node.definition) :
    (replaceNode nodes value).map NodeEntry.definition = nodes.map NodeEntry.definition := by
  simp only [replaceNode, rewriteAt, map_map]
  apply map_congr_left
  intro current inside
  simp only [Function.comp_apply]
  split
  case isTrue here =>
    have sameId : current.nodeId = node.nodeId := by
      rw [here, NodeEntry.nodeId, NodeEntry.nodeId, same]
    rw [same, inj_on_of_nodup_map distinct inside member sameId]
  case isFalse => rfl

theorem Reconciled.rowMoves (reconciled : Reconciled reading statuses node value)
    (current : ∀ given ∈ reading, given = now) : RowMoves now writes node value :=
  ⟨reconciled.definition_eq, reconciled.moves current⟩

theorem reconciledTaskNodes_rowsMove {next : List NodeEntry} (current : ∀ given ∈ reading, given = now)
    (done : reconciledTaskNodes nodes (nodes.map NodeEntry.definition) reading = .ok next) :
    RowsMove now writes nodes next :=
  (reconciledTaskNodes_ok done).2.imp fun _ _ row => row.rowMoves current

theorem requireLiveTaskLease_eq_ok : requireLiveTaskLease state lease now = .ok done ↔
      state.Live now ∧ state.owner = some lease.owner ∧ state.fence = lease.fence := by
  simp only [requireLiveTaskLease, refuse_eq_ok, not_or, not_not, TaskNodeFields.Live]
  constructor
  · rintro ⟨running, owner, fence, present, live⟩
    obtain ⟨expires, given⟩ := Option.ne_none_iff_exists'.mp present
    exact ⟨⟨running, expires, given, lt_of_not_ge fun past =>
      live ⟨expires, given, past⟩⟩, owner, fence⟩
  · rintro ⟨⟨running, expires, given, live⟩, owner, fence⟩
    refine ⟨running, owner, fence, ?_, ?_⟩
    · rw [given]
      simp
    · rintro ⟨found, same, past⟩
      rw [given] at same
      cases same
      exact absurd past (not_le.mpr live)

theorem resolveTaskExecutionId_ok {fields : TaskNodeFields}
    (done : resolveTaskExecutionId fields.executionId supplied = .ok resolved) :
    fields.Resolves resolved := by
  unfold resolveTaskExecutionId at done
  split at done
  case isTrue unbound => exact .inl unbound
  case isFalse =>
    split at done
    · cases done
      exact .inr rfl
    · cases done

theorem entryAt_mem (found : records.entryAt nodeId = some node) :
    node ∈ records.nodes ∧ node.nodeId = nodeId :=
  ⟨rowAt_mem found, rowAt_key found⟩

theorem Commits.entryAt_replaced (committed : Commits clock records change after)
    (distinct : (after.nodes.map NodeEntry.nodeId).Nodup)
    (kept : change.kept = replaceNode records.nodes value) (member : node ∈ records.nodes)
    (definition : value.definition = node.definition) : after.entryAt node.nodeId = some value := by
  have sameNode : value.nodeId = node.nodeId := by
    rw [NodeEntry.nodeId, NodeEntry.nodeId, definition]
  have rewritten := rowAt_rewriteAt_self value sameNode
    (mem_map_of_mem (f := NodeEntry.nodeId) member)
  rw [TaskGraphRecords.entryAt, rowAt_perm distinct committed.nodes,
    GraphChange.nodes, rowAt_append, kept, replaceNode, sameNode, rewritten, Option.some_or]

theorem updateNodeWithEvent_commits (distinct : (records.nodes.map NodeEntry.nodeId).Nodup)
    (member : node ∈ records.nodes) (definition : value.definition = node.definition)
    (done : updateNodeWithEvent clock records node value = .ok after) : Commits clock records
      { kept := replaceNode records.nodes value, status := records.status }
      after := by
  apply Commits.of_append (records.updateNode value)
  case appended =>
    rw [← done, updateNodeWithEvent]
    simp only [GraphChange.drafts, map_nil, expansionDrafts, if_true,
      taskGraphEventDrafts, append_nil]
    rw [nodeTableDrafts_replaceNode distinct member
      (by rw [NodeEntry.nodeId, NodeEntry.nodeId, definition])]
  all_goals simp [TaskGraphRecords.updateNode, GraphChange.nodes, replaceNode]

variable {before : TaskEventState} {status : TaskStatus} {next : List NodeEntry}

theorem applyGraphTransition_nodes
    (done : applyGraphTransition clock records before next status = .ok (view, after)) :
    after.nodes = next := by
  simp only [applyGraphTransition, bind_eq_ok, pair_eq_ok] at done
  obtain ⟨_, _, written, appended, _, rfl⟩ := done
  rw [(appendTaskEvents_eq_ok.mp appended).2]

theorem applyGraphTransition_commits (loaded : records.eventState = .ok before)
    (done : applyGraphTransition clock records before next status = .ok (view, after)) :
    Commits clock records { kept := next, status := status } after := by
  obtain ⟨_, sameStatus, _, sameNodes, _⟩ := records.eventState_ok loaded
  simp only [applyGraphTransition, bind_eq_ok, pair_eq_ok] at done
  obtain ⟨_, _, written, appended, _, rfl⟩ := done
  apply Commits.of_append { records with nodes := next, status := status }
  case appended =>
    rw [← appended, sameStatus, sameNodes]
    simp only [GraphChange.drafts, map_nil, expansionDrafts, if_true, append_nil]
  all_goals simp [GraphChange.nodes]

end Linktools.Persistence
