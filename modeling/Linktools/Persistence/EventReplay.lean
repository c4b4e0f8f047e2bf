import Linktools.Library.Journal
import Linktools.Persistence.GraphInvariants

namespace Linktools.Persistence

open Linktools.Core Library Linktools.Task List

structure Observation where
  status : TaskStatus
  owner : Option String
  fence : Nat
  executionId : Option String
  resultDigest : Option String
  errorCode : Option String
  errorDigest : Option String

def observationOf (fields : TaskNodeFields) : Observation where
  status := fields.status
  owner := fields.owner
  fence := fields.fence
  executionId := fields.executionId
  resultDigest := fields.resultDigest
  errorCode := fields.errorCode
  errorDigest := fields.errorDigest

def observationsOf (rows : List NodeEntry) (nodeId : String) : Option Observation :=
  (rowAt NodeEntry.nodeId rows nodeId).map fun row =>
    observationOf row.state.toTaskNodeFields

def reportedObservation (event : TaskEventDraft) : Observation where
  status := event.status
  owner := event.owner
  fence := event.fence
  executionId := event.executionId
  resultDigest := event.resultDigest
  errorCode := event.errorCode
  errorDigest := event.errorDigest

structure Replayed where
  header : Option TaskStatus := none
  nodes : String → Option Observation := fun _ => none

def Replayed.report (replayed : Replayed) (nodeId : String)
    (observation : Observation) : Replayed :=
  { replayed with
    nodes := Function.update replayed.nodes nodeId (some observation) }

@[simp] theorem Replayed.report_header (replayed : Replayed) (nodeId : String)
    (observation : Observation) :
    (replayed.report nodeId observation).header = replayed.header := rfl

@[simp] theorem Replayed.report_nodes_self (replayed : Replayed) (nodeId : String)
    (observation : Observation) :
    (replayed.report nodeId observation).nodes nodeId = some observation :=
  Function.update_self _ _ _

theorem Replayed.report_nodes_of_ne (replayed : Replayed) (observation : Observation)
    (different : other ≠ nodeId) :
    (replayed.report nodeId observation).nodes other = replayed.nodes other :=
  Function.update_of_ne different _ _

def introduced (definitions : List TaskNode) (nodeId : String) : Option Observation :=
  (rowAt TaskNode.nodeId definitions nodeId).map fun definition =>
    observationOf (initialNodeFields definition fun _ => .pending)

/-- One event.  An admission brings in all the nodes that no expansion adds. -/
def observe (definitions : List TaskNode) (expanded : List String)
    (replayed : Replayed) (event : TaskEventDraft) : Replayed :=
  match event.eventType with
  | .graphAdmitted =>
    { header := some event.status
      nodes := fun nodeId =>
        if nodeId ∈ expanded then none else introduced definitions nodeId }
  | .graphExpanded =>
    { header := some event.status
      nodes := fun nodeId =>
        if nodeId ∈ event.addedNodeIds then introduced definitions nodeId
        else replayed.nodes nodeId }
  | .graphChanged => { replayed with header := some event.status }
  | .nodeChanged =>
    match event.nodeId with
    | none => replayed
    | some nodeId => replayed.report nodeId (reportedObservation event)

def expandedNodeIds (events : List TaskEventDraft) : List String :=
  events.flatMap TaskEventDraft.addedNodeIds

def TaskGraphRecords.drafts (records : TaskGraphRecords) : List TaskEventDraft :=
  records.events.map TaskEvent.toTaskEventDraft

def TaskGraphRecords.replay (records : TaskGraphRecords)
    (events : List TaskEventDraft) : Replayed :=
  events.foldl (observe records.definitions (expandedNodeIds records.drafts)) {}

def StatusKnown (replayed : Replayed) (event : TaskEventDraft) : Prop :=
  event.eventType = .nodeChanged → ∃ nodeId observation, event.nodeId = some nodeId ∧
      replayed.nodes nodeId = some observation ∧ event.previousStatus = some observation.status

structure Journaled (records : TaskGraphRecords) : Prop where
  sequence : records.events.map TaskEvent.eventSeq = range' 1 records.eventSequence
  expanded : ∀ nodeId ∈ expandedNodeIds records.drafts,
    nodeId ∈ records.definitions.map TaskNode.nodeId
  fitting : Fitting
    (observe records.definitions (expandedNodeIds records.drafts)) StatusKnown {}
    records.drafts
  header : (records.replay records.drafts).header = some records.status
  nodes : (records.replay records.drafts).nodes = observationsOf records.nodes

variable {clock : Clock} {scope : Scope} {before after records : TaskGraphRecords}
  {change : GraphChange} {node value entry : NodeEntry} {nodeId : String}
  {definitions : List TaskNode} {expanded : List String} {replayed : Replayed}

theorem observationOf_eq (same : left.SameObserved right) :
    observationOf left = observationOf right := by
  obtain ⟨status, owner, fence, execution, result, code, digest⟩ := same
  simp only [observationOf, status, owner, fence, execution, result, code, digest]

theorem introduced_eq {nodes : List NodeEntry}
    (distinct : (nodes.map NodeEntry.nodeId).Nodup) (member : entry ∈ nodes)
    (fresh : initialNode (fun _ => .pending) entry.definition = .ok entry) :
    introduced (nodes.map NodeEntry.definition) entry.nodeId =
      some (observationOf entry.state.toTaskNodeFields) := by
  have found : rowAt TaskNode.nodeId (nodes.map NodeEntry.definition)
      entry.definition.nodeId = some entry.definition :=
    rowAt_of_mem (by rwa [map_nodeId_definition]) (mem_map_of_mem member)
  simp only [introduced, found, Option.map_some, initialNode_fields fresh]

theorem introduced_of_absent (absent : nodeId ∉ definitions.map TaskNode.nodeId) :
    introduced definitions nodeId = none := by
  rw [introduced, rowAt_eq_none_iff.mpr absent, Option.map_none]

theorem Created.journaled (created : Created clock records) : Journaled records := by
  have drafts : records.drafts = [{ eventType := .graphAdmitted, status := records.status }] := by
    rw [TaskGraphRecords.drafts, created.events, map_draft_stampEvents]
  have distinct := created.wellFormed.distinct
  refine ⟨?_, ?_, ?_, ?_, ?_⟩
  · rw [created.events, map_eventSeq_stampEvents, created.eventSequence]
    rfl
  · simp [drafts, expandedNodeIds]
  · rw [drafts]
    exact ⟨nofun, trivial⟩
  · rw [drafts]
    rfl
  · funext nodeId
    simp only [observationsOf, TaskGraphRecords.replay, drafts, foldl_cons, foldl_nil,
      observe, expandedNodeIds, flatMap_cons, flatMap_nil,
      append_nil, not_mem_nil, if_false]
    cases found : rowAt NodeEntry.nodeId records.nodes nodeId with
    | none =>
      apply introduced_of_absent
      rw [TaskGraphRecords.definitions, map_nodeId_definition]
      exact rowAt_eq_none_iff.mp found
    | some entry =>
      have member := rowAt_mem found
      obtain rfl := rowAt_key found
      exact introduced_eq distinct member (created.fresh entry member)

section Change

variable (definitions expanded)

theorem observe_row (value : NodeEntry) (known : replayed.nodes node.nodeId =
      some (observationOf node.state.toTaskNodeFields)) :
    Fitting (observe definitions expanded) StatusKnown replayed
        (taskNodeEventDrafts node.nodeId node.state value.state) ∧
      (taskNodeEventDrafts node.nodeId node.state value.state).foldl
          (observe definitions expanded) replayed = replayed.report node.nodeId
          (observationOf value.state.toTaskNodeFields) := by
  unfold taskNodeEventDrafts
  split
  case isTrue same =>
    refine ⟨trivial, ?_⟩
    rw [← observationOf_eq same, Replayed.report, ← known, Function.update_eq_self]
    rfl
  case isFalse => exact ⟨⟨fun _ => ⟨_, _, rfl, known, rfl⟩, trivial⟩, rfl⟩

theorem observe_table (replayed : Replayed)
    (rows : List.Forall₂ (fun node value : NodeEntry => value.nodeId = node.nodeId) left right)
    (distinct : (left.map NodeEntry.nodeId).Nodup)
    (known : ∀ node ∈ left, replayed.nodes node.nodeId =
      some (observationOf node.state.toTaskNodeFields)) :
    Fitting (observe definitions expanded) StatusKnown replayed
        (nodeTableDrafts left right) ∧
      (nodeTableDrafts left right).foldl (observe definitions expanded) replayed =
        { replayed with
          nodes := fun nodeId => (observationsOf right nodeId).or (replayed.nodes nodeId) } := by
  induction rows generalizing replayed with
  | nil => exact ⟨trivial, rfl⟩
  | @cons head value left right sameId rest ih =>
    obtain ⟨fresh, distinctTail⟩ := nodup_cons.mp distinct
    obtain ⟨fitsHead, foldHead⟩ := observe_row definitions expanded value
      (known head mem_cons_self)
    have knownTail : ∀ node ∈ left, (replayed.report head.nodeId
        (observationOf value.state.toTaskNodeFields)).nodes node.nodeId =
          some (observationOf node.state.toTaskNodeFields) := by
      intro node member
      have different : node.nodeId ≠ head.nodeId := fun same =>
        fresh (same ▸ mem_map_of_mem member)
      rw [Replayed.report_nodes_of_ne _ _ different]
      exact known node (mem_cons_of_mem _ member)
    obtain ⟨fitsTail, foldTail⟩ := ih _ distinctTail knownTail
    rw [nodeTableDrafts_cons, fitting_append, foldl_append, foldHead]
    refine ⟨⟨fitsHead, fitsTail⟩, ?_⟩
    rw [foldTail, Replayed.report_header]
    congr 1
    funext nodeId
    rw [observationsOf, observationsOf, rowAt_cons, sameId]
    by_cases here : head.nodeId = nodeId
    · subst here
      have absent : rowAt NodeEntry.nodeId right head.nodeId = none := by
        rw [rowAt_eq_none_iff, forall₂_map_key (fun _ _ same => same) rest]
        exact fresh
      rw [if_pos rfl, absent, Replayed.report_nodes_self]
      rfl
    · rw [if_neg here, Replayed.report_nodes_of_ne _ _ (Ne.symm here)]

theorem expandedNodeIds_append (left right : List TaskEventDraft) :
    expandedNodeIds (left ++ right) = expandedNodeIds left ++ expandedNodeIds right :=
  flatMap_append

theorem expandedNodeIds_table (left right : List NodeEntry) :
    expandedNodeIds (nodeTableDrafts left right) = [] := by
  simp only [expandedNodeIds, nodeTableDrafts, flatMap_eq_nil_iff, mem_flatMap]
  rintro draft ⟨pair, _, drafted⟩
  unfold taskNodeEventDrafts at drafted
  split at drafted
  · simp at drafted
  · rw [mem_singleton.mp drafted]
    rfl

theorem expandedNodeIds_graph (left right : TaskStatus) :
    expandedNodeIds (taskGraphEventDrafts left right) = [] := by
  unfold taskGraphEventDrafts
  split <;> rfl

theorem expandedNodeIds_expansion (status : TaskStatus) (sourceNodeId : String)
    (addedNodeIds : List String) :
    expandedNodeIds (expansionDrafts status sourceNodeId addedNodeIds) = addedNodeIds := by
  unfold expansionDrafts
  split
  case isTrue none => rw [none]; rfl
  case isFalse => simp [expandedNodeIds, graphExpandedDraft]

theorem expandedNodeIds_change : expandedNodeIds (change.drafts before) =
      change.added.map NodeEntry.nodeId := by
  simp only [GraphChange.drafts, expandedNodeIds_append, expandedNodeIds_table,
    expandedNodeIds_expansion, expandedNodeIds_graph, nil_append, append_nil]

theorem observe_expansion (replayed : Replayed) (status : TaskStatus) (sourceNodeId : String)
    (addedNodeIds : List String) : Fitting (observe definitions expanded) StatusKnown replayed
        (expansionDrafts status sourceNodeId addedNodeIds) ∧
      (expansionDrafts status sourceNodeId addedNodeIds).foldl
          (observe definitions expanded) replayed =
        { header := if addedNodeIds = [] then replayed.header else some status
          nodes := fun nodeId =>
            if nodeId ∈ addedNodeIds then introduced definitions nodeId
            else replayed.nodes nodeId } := by
  unfold expansionDrafts
  split
  case isTrue none =>
    subst none
    exact ⟨trivial, by simp⟩
  case isFalse => exact ⟨⟨nofun, trivial⟩, rfl⟩

theorem observe_graph (replayed : Replayed) {left right : TaskStatus}
    (known : replayed.header = some left ∨ replayed.header = some right) :
    Fitting (observe definitions expanded) StatusKnown replayed
        (taskGraphEventDrafts left right) ∧
      (taskGraphEventDrafts left right).foldl (observe definitions expanded)
          replayed = { replayed with header := some right } := by
  unfold taskGraphEventDrafts
  split
  case isTrue same =>
    subst same
    refine ⟨trivial, ?_⟩
    rw [← known.elim id id]
    rfl
  case isFalse => exact ⟨⟨nofun, trivial⟩, rfl⟩

theorem observationsOf_or
    (rows : List.Forall₂ (fun node value : NodeEntry => value.nodeId = node.nodeId) left right) :
    (fun nodeId => (observationsOf right nodeId).or (observationsOf left nodeId)) =
      observationsOf right := by
  funext nodeId
  cases found : rowAt NodeEntry.nodeId right nodeId with
  | some row => simp [observationsOf, found]
  | none =>
    have absent : rowAt NodeEntry.nodeId left nodeId = none := by
      rwa [rowAt_eq_none_iff, forall₂_map_key (fun _ _ same => same) rows,
        ← rowAt_eq_none_iff] at found
    simp [observationsOf, found, absent]

theorem observe_change (rows : List.Forall₂ (fun node value : NodeEntry =>
      value.nodeId = node.nodeId) before.nodes change.kept)
    (distinct : (before.nodes.map NodeEntry.nodeId).Nodup) :
    Fitting (observe definitions expanded) StatusKnown
        ⟨some before.status, observationsOf before.nodes⟩
        (change.drafts before) ∧ (change.drafts before).foldl (observe definitions expanded)
          ⟨some before.status, observationsOf before.nodes⟩ =
        { header := some change.status
          nodes := fun nodeId =>
            if nodeId ∈ change.added.map NodeEntry.nodeId then
              introduced definitions nodeId
            else observationsOf change.kept nodeId } := by
  have known : ∀ node ∈ before.nodes, observationsOf before.nodes node.nodeId =
      some (observationOf node.state.toTaskNodeFields) := by
    intro node member
    simp only [observationsOf, rowAt_of_mem distinct member, Option.map_some]
  obtain ⟨fitsTable, foldTable⟩ := observe_table definitions expanded
    ⟨some before.status, observationsOf before.nodes⟩ rows distinct known
  dsimp only at foldTable
  rw [observationsOf_or rows] at foldTable
  obtain ⟨fitsExpansion, foldExpansion⟩ := observe_expansion definitions expanded
    ⟨some before.status, observationsOf change.kept⟩ change.status
    change.sourceNodeId (change.added.map NodeEntry.nodeId)
  have headerKnown : (if change.added.map NodeEntry.nodeId = [] then
      some before.status else some change.status) = some before.status ∨
      (if change.added.map NodeEntry.nodeId = [] then
        some before.status else some change.status) = some change.status := by
    split
    · exact .inl rfl
    · exact .inr rfl
  obtain ⟨fitsGraph, foldGraph⟩ := observe_graph definitions expanded
    ⟨_, fun nodeId =>
      if nodeId ∈ change.added.map NodeEntry.nodeId then
        introduced definitions nodeId
      else observationsOf change.kept nodeId⟩ headerKnown
  simp only [GraphChange.drafts, fitting_append, foldl_append, foldTable, foldExpansion]
  exact ⟨⟨⟨fitsTable, fitsExpansion⟩, fitsGraph⟩, foldGraph⟩

end Change

theorem observe_grown (known : ∀ nodeId ∈ earlier, nodeId ∈ old.map TaskNode.nodeId)
    (agree : ∀ nodeId ∈ old.map TaskNode.nodeId,
      introduced new nodeId = introduced old nodeId ∧ nodeId ∉ later)
    (others : ∀ nodeId, nodeId ∉ old.map TaskNode.nodeId → nodeId ∉ later →
      introduced new nodeId = none) (event : TaskEventDraft)
    (expands : ∀ nodeId ∈ event.addedNodeIds, nodeId ∈ earlier) :
    observe old earlier replayed event = observe new (earlier ++ later) replayed event := by
  unfold observe
  split
  · congr 1
    funext nodeId
    by_cases inside : nodeId ∈ old.map TaskNode.nodeId
    · simp [(agree nodeId inside).1, (agree nodeId inside).2]
    · have outside : nodeId ∉ earlier := fun member => inside (known nodeId member)
      by_cases added : nodeId ∈ later
      · simp [outside, added, introduced_of_absent inside]
      · simp [outside, added, introduced_of_absent inside, others nodeId inside added]
  · congr 1
    funext nodeId
    by_cases member : nodeId ∈ event.addedNodeIds
    · rw [if_pos member, if_pos member, (agree nodeId (known nodeId (expands nodeId member))).1]
    · rw [if_neg member, if_neg member]
  · rfl
  · rfl

theorem Commits.drafts_eq (committed : Commits clock before change after) :
    after.drafts = before.drafts ++ change.drafts before := by
  rw [TaskGraphRecords.drafts, committed.events, map_append, GraphChange.events,
    map_draft_stampEvents]
  rfl

theorem introduced_perm (distinct : (left.map TaskNode.nodeId).Nodup) (same : left.Perm right) :
    introduced left = introduced right := by
  funext nodeId
  rw [introduced, introduced, rowAt_perm distinct same]

theorem introduced_append_left (member : nodeId ∈ left.map TaskNode.nodeId) :
    introduced (left ++ right) nodeId = introduced left nodeId := by
  obtain ⟨definition, found⟩ := rowAt_isSome_iff.mpr member
  rw [introduced, introduced, rowAt_append, found, Option.some_or]

theorem observationsOf_grown {nodes kept added : List NodeEntry} (rows : nodes.Perm (kept ++ added))
    (distinct : (nodes.map NodeEntry.nodeId).Nodup)
    (fresh : ∀ entry ∈ added, initialNode (fun _ => .pending) entry.definition = .ok entry) :
    (fun nodeId => if nodeId ∈ added.map NodeEntry.nodeId then
        introduced (nodes.map NodeEntry.definition) nodeId
      else observationsOf kept nodeId) = observationsOf nodes := by
  funext nodeId
  split
  case isTrue isNew =>
    obtain ⟨entry, member, rfl⟩ := mem_map.mp isNew
    have inside := rows.mem_iff.mpr (mem_append_right kept member)
    rw [introduced_eq distinct inside (fresh entry member)]
    simp only [observationsOf, rowAt_of_mem distinct inside, Option.map_some]
  case isFalse old =>
    simp only [observationsOf, rowAt_perm distinct rows, rowAt_append,
      rowAt_eq_none_iff.mpr old, Option.or_none]

theorem Permitted.fresh (permitted : Permitted clock scope before change) : ∀ entry ∈ change.added,
      initialNode (fun _ => .pending) entry.definition = .ok entry := by
  rcases permitted.added with none | extends'
  · simp [none]
  · exact extends'.fresh

theorem Commits.observe_eq (committed : Commits clock before change after)
    (permitted : Permitted clock scope before change) (formed : WellFormed before)
    (journaled : Journaled before) (replayed : Replayed) : ∀ event ∈ before.drafts,
      observe before.definitions (expandedNodeIds before.drafts) replayed event =
        observe after.definitions (expandedNodeIds after.drafts) replayed event := by
  intro event inside
  have definitions := committed.definitions_perm permitted formed.distinct
  have distinct : (after.definitions.map TaskNode.nodeId).Nodup := by
    rw [TaskGraphRecords.definitions, map_nodeId_definition]
    exact committed.distinct permitted formed.distinct
  have ids := definitions.map TaskNode.nodeId
  rw [map_append, map_nodeId_definition] at ids
  have separate := disjoint_of_nodup_append (ids.nodup_iff.mp distinct)
  rw [committed.drafts_eq, expandedNodeIds_append, expandedNodeIds_change]
  apply observe_grown journaled.expanded
  case agree =>
    intro nodeId old
    rw [introduced_perm distinct definitions, introduced_append_left old]
    exact ⟨rfl, separate old⟩
  case others =>
    intro nodeId outside notAdded
    apply introduced_of_absent
    rw [ids.mem_iff, mem_append, not_or]
    exact ⟨outside, notAdded⟩
  case expands => exact fun nodeId member => mem_flatMap.mpr ⟨event, inside, member⟩

theorem Commits.journaled (committed : Commits clock before change after)
    (permitted : Permitted clock scope before change) (formed : WellFormed before)
    (journaled : Journaled before) : Journaled after := by
  have drafts := committed.drafts_eq
  have same := committed.observe_eq permitted formed journaled
  have earlier : before.drafts.foldl
      (observe after.definitions (expandedNodeIds after.drafts)) {} =
        ⟨some before.status, observationsOf before.nodes⟩ := by
    rw [← journaled.header, ← journaled.nodes]
    exact (foldl_ext _ _ _ same).symm
  obtain ⟨fits, fold⟩ := observe_change after.definitions
    (expandedNodeIds after.drafts)
    ((permitted.rows formed.distinct).imp fun _ _ advance => advance.nodeId_eq)
    formed.distinct
  have whole : after.replay after.drafts = ⟨some change.status, observationsOf after.nodes⟩ := by
    rw [TaskGraphRecords.replay]
    nth_rewrite 2 [drafts]
    rw [foldl_append, earlier, fold]
    congr 1
    exact observationsOf_grown committed.nodes
      (committed.distinct permitted formed.distinct) permitted.fresh
  refine ⟨?_, ?_, ?_, ?_, ?_⟩
  · rw [committed.events, map_append, journaled.sequence, GraphChange.events,
      map_eventSeq_stampEvents, committed.eventSequence, add_comm _ 1, range'_append_1]
  · intro nodeId member
    have ids := (committed.definitions_perm permitted formed.distinct).map TaskNode.nodeId
    rw [ids.mem_iff, map_append, map_nodeId_definition, mem_append]
    rw [drafts, expandedNodeIds_append, expandedNodeIds_change, mem_append] at member
    exact member.imp (journaled.expanded nodeId) id
  · have split : Fitting (observe after.definitions (expandedNodeIds after.drafts))
        StatusKnown {} (before.drafts ++ change.drafts before) := by
      rw [fitting_append, earlier]
      exact ⟨journaled.fitting.congr same, fits⟩
    rwa [← drafts] at split
  · rw [whole, committed.status]
  · rw [whole]

end Linktools.Persistence
