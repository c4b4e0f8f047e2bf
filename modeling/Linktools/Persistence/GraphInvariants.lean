import Linktools.Persistence.TaskSteps

namespace Linktools.Persistence

open Linktools.Core Library Linktools.Task List

variable {now : Time} {clock : Clock} {scope : Scope} {before after : TaskGraphRecords}
  {change : GraphChange} {node middle value : NodeEntry}

theorem NodeEntry.ext_fields (definition : value.definition = node.definition)
    (state : value.state.toTaskNodeFields = node.state.toTaskNodeFields) : value = node := by
  cases value
  cases node
  cases definition
  cases TaskNodeState.ext state
  rfl

inductive RowAdvances (now : Time) (scope : Scope) (node value : NodeEntry) : Prop
  | moved (row : RowMoves now scope.writes node value)
  | claimed (owner : String) (expires : Time) (claims : scope.claims node.nodeId owner)
      (unfinished : ¬node.status.Terminal) (stable : node.status ≠ .recoveryRequired)
      (definition : value.definition = node.definition)
      (state : value.state.toTaskNodeFields = node.state.claimed owner expires)
  | succeeded (resultDigest executionId : String) (unfinished : ¬node.status.Terminal)
      (claimed : 1 ≤ node.state.fence) (resolves : node.state.Resolves (some executionId))
      (definition : value.definition = node.definition)
      (state : value.state.toTaskNodeFields = node.state.succeeded resultDigest (some executionId))
      (written : scope.writes node.nodeId value.state.toTaskNodeFields)

namespace RowAdvances

theorem refl (node : NodeEntry) : RowAdvances now scope node node := .moved (.refl node)

section

variable (advance : RowAdvances now scope node value)
include advance

theorem definition_eq : value.definition = node.definition := by
  cases advance with
  | moved row => exact row.definition
  | claimed _ _ _ _ _ definition | succeeded _ _ _ _ _ definition => exact definition

theorem nodeId_eq : value.nodeId = node.nodeId := by
  rw [NodeEntry.nodeId, NodeEntry.nodeId, advance.definition_eq]

theorem eq_of_terminal (terminal : node.status.Terminal) : value = node := by
  cases advance with
  | moved row => exact NodeEntry.ext_fields row.definition (row.moves.eq_of_terminal terminal)
  | claimed _ _ _ unfinished | succeeded _ _ unfinished => exact absurd terminal unfinished

theorem fence_le : node.state.fence ≤ value.state.fence := by
  cases advance with
  | moved row => exact row.moves.fence_eq.ge
  | claimed _ _ _ _ _ _ state | succeeded _ _ _ _ _ _ state =>
    rw [state]
    simp [TaskNodeFields.claimed, TaskNodeFields.succeeded]

theorem fence_eq (unclaimed : ∀ owner, ¬scope.claims node.nodeId owner) :
    value.state.fence = node.state.fence := by
  cases advance with
  | moved row => exact row.moves.fence_eq
  | claimed owner _ claimed => exact absurd claimed (unclaimed owner)
  | succeeded _ _ _ _ _ _ state => rw [state]; rfl

theorem execution_kept (bound : node.state.executionId = some execution) :
    value.state.executionId = some execution := by
  cases advance with
  | moved row => exact row.moves.execution_kept bound
  | claimed _ _ _ _ _ _ state =>
    rw [state]
    exact bound
  | succeeded _ _ _ _ resolves _ state =>
    rw [state]
    exact resolves.kept bound

theorem claimed_of_bound (claimed : node.state.executionId ≠ none → 1 ≤ node.state.fence)
    (bound : value.state.executionId ≠ none) : 1 ≤ value.state.fence := by
  cases advance with
  | moved row => exact row.moves.claimed_of_bound claimed bound
  | claimed _ _ _ _ _ _ state =>
    rw [state]
    simp [TaskNodeFields.claimed]
  | succeeded _ _ _ positive _ _ state =>
    rw [state]
    exact positive

end

end RowAdvances

theorem replaceNode_rowsAdvance (distinct : (before.nodes.map NodeEntry.nodeId).Nodup)
    (member : node ∈ before.nodes) (row : RowAdvances now scope node value) :
    List.Forall₂ (RowAdvances now scope) before.nodes (replaceNode before.nodes value) := by
  apply forall₂_rewriteAt
  · exact fun current _ _ => .refl current
  · intro current inside same
    have equal : current = node :=
      inj_on_of_nodup_map distinct inside member (same.trans row.nodeId_eq)
    rw [equal]
    exact row

theorem RowsMove.advance (rows : RowsMove now scope.writes left right) :
    List.Forall₂ (RowAdvances now scope) left right :=
  rows.imp fun _ _ row => .moved row

theorem Claimable.advances (claimed : scope.claims node.nodeId owner)
    (claimable : Claimable now before node) (definition : value.definition = node.definition)
    (state : value.state.toTaskNodeFields = node.state.claimed owner expires) :
    RowAdvances now scope node value :=
  .claimed owner expires claimed claimable.unfinished claimable.stable definition state

theorem Completes.advances (completes : Completes before node value result)
    (written : scope.writes node.nodeId value.state.toTaskNodeFields) :
    RowAdvances now scope node value :=
  .succeeded _ _ completes.unfinished completes.claimed completes.resolves
    completes.definition completes.state written

section

variable (permitted : Permitted clock scope before change)
include permitted

theorem Permitted.rows (distinct : (before.nodes.map NodeEntry.nodeId).Nodup) :
    List.Forall₂ (RowAdvances clock.now scope) before.nodes change.kept := by
  cases permitted with
  | claimed node value _ _ claims claimable definition state =>
    exact replaceNode_rowsAdvance distinct claimable.member
      (claimable.advances claims definition state)
  | held node value member _ row => exact replaceNode_rowsAdvance distinct member (.moved row)
  | prepared | repaired => exact forall₂_same.mpr fun node _ => .refl node
  | transition _ rows | scheduled _ _ rows | cancelled _ _ _ rows => exact rows.advance
  | completed node value _ _ completes written =>
    exact replaceNode_rowsAdvance distinct completes.member (completes.advances written)

theorem Permitted.definitions (distinct : (before.nodes.map NodeEntry.nodeId).Nodup) :
    change.kept.map NodeEntry.definition = before.definitions :=
  forall₂_map_key (fun _ _ advance => advance.definition_eq) (permitted.rows distinct)

theorem Permitted.added : change.added = [] ∨ Extends before change.added := by
  cases permitted with
  | completed _ _ _ _ _ _ _ extends' => exact extends'
  | _ => exact .inl rfl

end

section

variable (committed : Commits clock before change after)
  (permitted : Permitted clock scope before change)
  (single : (before.nodes.map NodeEntry.nodeId).Nodup)
include committed permitted single

theorem Commits.definitions_perm : after.definitions.Perm
      (before.definitions ++ change.added.map NodeEntry.definition) := by
  rw [← permitted.definitions single, ← map_append]
  exact committed.nodes.map NodeEntry.definition

theorem Commits.distinct : (after.nodes.map NodeEntry.nodeId).Nodup := by
  have same := (committed.definitions_perm permitted single).map TaskNode.nodeId
  rw [TaskGraphRecords.definitions, map_nodeId_definition] at same
  rw [same.nodup_iff]
  rcases permitted.added with none | ⟨_, graph, nodes, _⟩
  · rw [none, map_nil, append_nil, TaskGraphRecords.definitions, map_nodeId_definition]
    exact single
  · rw [← nodes]
    exact graph.ids_nodup

theorem Commits.entryAt (found : before.entryAt nodeId = some node) :
    ∃ value, after.entryAt nodeId = some value ∧ RowAdvances clock.now scope node value := by
  have kept := rowAt_forall₂ nodeId (fun _ _ advance => advance.nodeId_eq) (permitted.rows single)
  have same : after.entryAt nodeId = rowAt NodeEntry.nodeId change.nodes nodeId :=
    rowAt_perm (committed.distinct permitted single) committed.nodes
  rw [TaskGraphRecords.entryAt] at found
  rw [found] at kept
  cases keptRow : rowAt NodeEntry.nodeId change.kept nodeId with
  | none =>
    rw [keptRow] at kept
    cases kept
  | some value =>
    rw [keptRow] at kept
    cases kept with
    | some advance =>
      refine ⟨value, ?_, advance⟩
      rw [same, GraphChange.nodes, rowAt_append, keptRow, Option.some_or]

theorem Commits.origin (member : value ∈ after.nodes) :
    (∃ node ∈ before.nodes, RowAdvances clock.now scope node value) ∨
      value ∈ change.added := by
  rcases mem_append.mp (committed.nodes.mem_iff.mp member) with kept | added
  · obtain ⟨node, inside, advance⟩ :=
      forall₂_mem_right (permitted.rows single) kept
    exact .inl ⟨node, inside, advance⟩
  · exact .inr added

end

structure Descends (node value : NodeEntry) : Prop where
  definition : value.definition = node.definition
  frozen : node.status.Terminal → value = node
  fence_le : node.state.fence ≤ value.state.fence
  execution_kept : ∀ execution, node.state.executionId = some execution →
    value.state.executionId = some execution

namespace Descends

theorem refl (node : NodeEntry) : Descends node node :=
  ⟨rfl, fun _ => rfl, le_rfl, fun _ bound => bound⟩

theorem trans (first : Descends node middle) (second : Descends middle value) :
    Descends node value where
  definition := second.definition.trans first.definition
  frozen terminal := by
    have same := first.frozen terminal
    subst same
    exact second.frozen terminal
  fence_le := first.fence_le.trans second.fence_le
  execution_kept execution bound :=
    second.execution_kept execution (first.execution_kept execution bound)

end Descends

theorem RowAdvances.descends (advance : RowAdvances now scope node value) :
    Descends node value where
  definition := advance.definition_eq
  frozen := advance.eq_of_terminal
  fence_le := advance.fence_le
  execution_kept _ := advance.execution_kept

variable {records : TaskGraphRecords} {entry : NodeEntry}

theorem initialNode_fields (fresh : initialNode (fun _ => .pending) entry.definition = .ok entry) :
    entry.state.toTaskNodeFields = initialNodeFields entry.definition fun _ => .pending := by
  simp only [initialNode, bind_eq_ok, pure_eq_ok, TaskNodeState.build_eq_ok] at fresh
  obtain ⟨state, fields, same⟩ := fresh
  rw [← fields, ← congrArg NodeEntry.state same]

theorem initialNodeFields_status (definition : TaskNode)
    (statuses : String → TaskStatus) : (initialNodeFields definition statuses).status = .pending ∨
      (initialNodeFields definition statuses).status = .ready ∨
      (initialNodeFields definition statuses).status = .blocked := by
  simp only [initialNodeFields]
  split
  case isTrue => exact .inl rfl
  case isFalse free =>
    rw [ne_eq, not_not] at free
    exact .inr (TaskNode.dependencyStatus_of_terminal (by simp [free]))

theorem initialNodeFields_reportable (definition : TaskNode)
    (statuses : String → TaskStatus) : (initialNodeFields definition statuses).Reportable := by
  have shape := initialNodeFields_status definition statuses
  generalize fields : initialNodeFields definition statuses = initial at shape
  subst fields
  unfold TaskNodeFields.Reportable
  rcases shape with status | status | status <;>
    simp only [status] <;> simp only [initialNodeFields] at status ⊢ <;>
    simp [status]

section

variable (fresh : initialNode (fun _ => .pending) entry.definition = .ok entry)
include fresh

theorem initial_not_active : ¬entry.state.Active now := by
  have status := initialNodeFields_status entry.definition fun _ => .pending
  rw [initialNode_fields fresh]
  rintro (⟨waiting, _⟩ | ⟨running, _⟩)
  · simp [waiting] at status
  · simp [running] at status

theorem initial_not_succeeded : entry.status ≠ .succeeded := by
  have status := initialNodeFields_status entry.definition fun _ => .pending
  rw [NodeEntry.status, initialNode_fields fresh]
  rintro succeeded
  simp [succeeded] at status

theorem initial_unclaimed : entry.state.fence = 0 ∧ entry.state.executionId = none := by
  rw [initialNode_fields fresh]
  exact ⟨rfl, rfl⟩

end

def WellFormed (records : TaskGraphRecords) : Prop :=
  ∃ graph : TaskGraph, graph.nodes.Perm records.definitions ∧
    graph.validateLimits records.admission.limits = .ok ()

theorem WellFormed.distinct (formed : WellFormed records) :
    (records.nodes.map NodeEntry.nodeId).Nodup := by
  obtain ⟨graph, same, _⟩ := formed
  rw [← map_nodeId_definition]
  exact (same.map TaskNode.nodeId).nodup_iff.mp graph.ids_nodup

theorem WellFormed.closed (formed : WellFormed records) (member : node ∈ records.nodes)
    {dependency : String} (depends : dependency ∈ node.definition.dependencies) :
    ∃ found, records.entryAt dependency = some found := by
  obtain ⟨graph, same, _⟩ := formed
  have inside := graph.closed node.definition
    (same.mem_iff.mpr (mem_map_of_mem member)) dependency depends
  have ids := (same.map TaskNode.nodeId).mem_iff.mp inside
  rw [TaskGraphRecords.definitions, map_nodeId_definition] at ids
  exact rowAt_isSome_iff.mpr ids

theorem Created.wellFormed (created : Created clock records) : WellFormed records := by
  obtain ⟨graph, _, same, limits⟩ := created.graph
  exact ⟨graph, same, limits⟩

theorem Commits.wellFormed (committed : Commits clock before change after)
    (permitted : Permitted clock scope before change) (formed : WellFormed before) :
    WellFormed after := by
  have definitions := committed.definitions_perm permitted formed.distinct
  unfold WellFormed
  rw [committed.admission]
  rcases permitted.added with none | ⟨_, extended, nodes, limits⟩
  · obtain ⟨graph, same, limits⟩ := formed
    refine ⟨graph, same.trans ?_, limits⟩
    rw [none, map_nil, append_nil] at definitions
    exact definitions.symm
  · exact ⟨extended, nodes ▸ definitions.symm, limits⟩

structure Reported (fields : TaskNodeFields) : Prop where
  reportable : fields.Reportable
  execution_present : ∀ execution ∈ fields.executionId, blank execution = false

theorem Reported.congr (reported : Reported left) (same : left.SameObserved right) :
    Reported right where
  reportable := reported.reportable.congr same
  execution_present := by
    rw [← same.2.2.2.1]
    exact reported.execution_present

theorem Commits.checked_draft (committed : Commits clock before change after)
    (drafted : draft ∈ change.drafts before) :
    ∃ event : TaskEvent, event.check = .ok () ∧ event.toTaskEventDraft = draft := by
  have stamped : (change.events clock before).map TaskEvent.toTaskEventDraft =
      change.drafts before := map_draft_stampEvents
  rw [← stamped] at drafted
  obtain ⟨event, member, same⟩ := mem_map.mp drafted
  exact ⟨event, committed.checked event member, same⟩

theorem Created.reported (created : Created clock records) :
    ∀ node ∈ records.nodes, Reported node.state.toTaskNodeFields := by
  intro node member
  have fresh := created.fresh node member
  refine ⟨?_, by simp [initial_unclaimed fresh]⟩
  rw [initialNode_fields fresh]
  exact initialNodeFields_reportable _ _

theorem Commits.reported (committed : Commits clock before change after)
    (permitted : Permitted clock scope before change) (formed : WellFormed before)
    (reported : ∀ node ∈ before.nodes, Reported node.state.toTaskNodeFields) :
    ∀ node ∈ after.nodes, Reported node.state.toTaskNodeFields := by
  intro value member
  rcases mem_append.mp (committed.nodes.mem_iff.mp member) with kept | added
  · obtain ⟨node, paired, _⟩ :=
      forall₂_zip_right (permitted.rows formed.distinct) kept
    by_cases same : node.state.SameObserved value.state.toTaskNodeFields
    · exact (reported node (of_mem_zip paired).1).congr same
    · have drafted : nodeChangedDraft node.nodeId node.state value.state ∈
          change.drafts before := by
        simp only [GraphChange.drafts, mem_append]
        refine .inl (.inl (mem_flatMap.mpr ⟨(node, value), paired, ?_⟩))
        simp only [taskNodeEventDrafts, if_neg same, mem_singleton]
      obtain ⟨event, checked, drawn⟩ := committed.checked_draft drafted
      exact ⟨reportable_of_checked checked drawn, executionPresent_of_checked checked drawn⟩
  · rcases permitted.added with none | extends'
    · simp [none] at added
    · have fresh := extends'.fresh value added
      refine ⟨?_, by simp [initial_unclaimed fresh]⟩
      rw [initialNode_fields fresh]
      exact initialNodeFields_reportable _ _

theorem CancelledHeader.agrees
    (cancelled : CancelledHeader nodes) : HeaderAgrees .cancelled nodes where
  terminal_iff := ⟨fun _ => cancelled.1, fun _ => by simp [TaskStatus.Terminal]⟩
  recovery_iff := by
    constructor
    · intro impossible
      cases impossible
    · rintro ⟨node, member, recovering⟩
      exact absurd (cancelled.1 node member) (by simp [recovering, TaskStatus.Terminal])
  otherwise := by simp [TaskStatus.Terminal]

theorem CancelledHeader.perm (same : left.Perm right)
    (cancelled : CancelledHeader left) : CancelledHeader right := by
  simpa only [CancelledHeader, same.mem_iff] using cancelled

theorem HeaderAgrees.perm
    (same : left.Perm right) (agrees : HeaderAgrees status left) : HeaderAgrees status right where
  terminal_iff := by simpa only [same.mem_iff] using agrees.terminal_iff
  recovery_iff := by simpa only [same.mem_iff] using agrees.recovery_iff
  otherwise := agrees.otherwise

def SameStanding (node value : NodeEntry) : Prop :=
  (node.status.Terminal ↔ value.status.Terminal) ∧
    (node.status = .recoveryRequired ↔ value.status = .recoveryRequired)

theorem HeaderAgrees.congr (standing : List.Forall₂ SameStanding left right)
    (agrees : HeaderAgrees status left) : HeaderAgrees status right where
  terminal_iff := by
    rw [agrees.terminal_iff]
    constructor
    · intro all value member
      obtain ⟨node, inside, same⟩ := forall₂_mem_right standing member
      exact same.1.mp (all node inside)
    · intro all node member
      obtain ⟨value, inside, same⟩ := forall₂_mem_left standing member
      exact same.1.mpr (all value inside)
  recovery_iff := by
    rw [agrees.recovery_iff]
    constructor
    · rintro ⟨node, member, recovering⟩
      obtain ⟨value, inside, same⟩ := forall₂_mem_left standing member
      exact ⟨value, inside, same.2.mp recovering⟩
    · rintro ⟨value, member, recovering⟩
      obtain ⟨node, inside, same⟩ := forall₂_mem_right standing member
      exact ⟨node, inside, same.2.mpr recovering⟩
  otherwise := agrees.otherwise

theorem SameStanding.of_open (unfinished : ¬node.status.Terminal)
    (stable : node.status ≠ .recoveryRequired)
    (active : value.status = .running ∨ value.status = .waiting) : SameStanding node value := by
  rcases active with status | status <;>
    exact ⟨iff_of_false unfinished (by simp [status, TaskStatus.Terminal]),
      iff_of_false stable (by simp [status])⟩

theorem replaceNode_standing (distinct : (nodes.map NodeEntry.nodeId).Nodup) (member : node ∈ nodes)
    (same : value.nodeId = node.nodeId) (standing : SameStanding node value) :
    List.Forall₂ SameStanding nodes (replaceNode nodes value) := by
  apply forall₂_rewriteAt
  · exact fun _ _ _ => ⟨Iff.rfl, Iff.rfl⟩
  · intro current inside here
    have equal : current = node := inj_on_of_nodup_map distinct inside member (here.trans same)
    rw [equal]
    exact standing

structure HeaderSound (records : TaskGraphRecords) : Prop where
  agrees : HeaderAgrees records.status records.nodes
  settled : records.status.Terminal → records.status = derivedStatus records.nodes ∨
      records.status = .cancelled ∧ CancelledHeader records.nodes

theorem HeaderSound.of_derived (derived : records.status = derivedStatus records.nodes) :
    HeaderSound records :=
  ⟨derived ▸ derivedStatus_agrees records.nodes, fun _ => .inl derived⟩

theorem HeaderSound.of_cancelled (status : records.status = .cancelled)
    (cancelled : CancelledHeader records.nodes) : HeaderSound records :=
  ⟨status ▸ cancelled.agrees, fun _ => .inr ⟨status, cancelled⟩⟩

theorem HeaderAgrees.open_of_unfinished (agrees : HeaderAgrees status nodes)
    (member : node ∈ nodes) (unfinished : ¬node.status.Terminal) : ¬status.Terminal :=
  fun terminal => unfinished (agrees.terminal_iff.mp terminal node member)

theorem Created.headerSound (created : Created clock records) : HeaderSound records :=
  .of_derived created.status

section

variable (committed : Commits clock before change after)
include committed

theorem Commits.derived_status (permitted : Permitted clock scope before change)
    (formed : WellFormed before) (derived : change.status = derivedStatus change.nodes) :
    after.status = derivedStatus after.nodes := by
  rw [committed.status, derived]
  exact (derivedStatus_perm (committed.distinct permitted formed.distinct) committed.nodes).symm

theorem Commits.headerSound_of_standing (sound : HeaderSound before)
    (plain : change.added = []) (kept : change.status = before.status)
    (standing : List.Forall₂ SameStanding before.nodes change.kept)
    (member : node ∈ before.nodes) (unfinished : ¬node.status.Terminal) : HeaderSound after := by
  have status : after.status = before.status := committed.status.trans kept
  have rows : after.nodes.Perm change.kept := by
    simpa only [GraphChange.nodes, plain, append_nil] using committed.nodes
  refine ⟨?_, ?_⟩
  · rw [status]
    exact (sound.agrees.congr standing).perm rows.symm
  · intro terminal
    rw [status] at terminal
    exact absurd terminal (sound.agrees.open_of_unfinished member unfinished)

theorem Commits.headerSound (permitted : Permitted clock scope before change)
    (formed : WellFormed before) (sound : HeaderSound before) : HeaderSound after := by
  have distinct := formed.distinct
  have derived := committed.derived_status permitted formed
  have rows := committed.nodes
  cases permitted with
  | claimed node value owner expires _ claimable definition state =>
    have running : value.status = .running := by
      rw [NodeEntry.status, state]
      rfl
    exact committed.headerSound_of_standing sound rfl rfl
      (replaceNode_standing distinct claimable.member
        (by rw [NodeEntry.nodeId, definition])
        (.of_open claimable.unfinished claimable.stable (.inl running)))
      claimable.member claimable.unfinished
  | held node value member running row active =>
    have unfinished : ¬node.status.Terminal := by
      simp [running, TaskStatus.Terminal]
    exact committed.headerSound_of_standing sound rfl rfl
      (replaceNode_standing distinct member
        (by rw [NodeEntry.nodeId, row.definition])
        (.of_open unfinished (by simp [running]) active))
      member unfinished
  | prepared record =>
    have same : after.nodes.Perm before.nodes := by
      simpa only [GraphChange.nodes, append_nil] using rows
    have status : after.status = before.status := committed.status
    refine ⟨status ▸ sound.agrees.perm same.symm, ?_⟩
    intro terminal
    rw [status] at terminal ⊢
    rcases sound.settled terminal with settled | ⟨cancelled, header⟩
    · exact .inl (settled.trans (derivedStatus_perm distinct same.symm))
    · exact .inr ⟨cancelled, header.perm same.symm⟩
  | transition kept | scheduled kept => exact .of_derived (derived (by simp [GraphChange.nodes]))
  | completed => exact .of_derived (derived rfl)
  | cancelled kept status _ _ header =>
    rcases header with ⟨isDerived, _⟩ | ⟨cancelled, header⟩
    · exact .of_derived (derived (by simpa [GraphChange.nodes] using isDerived))
    · refine .of_cancelled (committed.status.trans cancelled) (header.perm ?_)
      simpa only [GraphChange.nodes, append_nil] using rows.symm
  | repaired status header =>
    exact .of_derived (derived (by simpa [GraphChange.nodes] using header))

end

end Linktools.Persistence
