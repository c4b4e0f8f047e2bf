import Linktools.Persistence.GraphHeader

namespace Linktools.Persistence

open Linktools.Core Library Linktools.Task List

/-! What a run leaves of a graph: its logs only grow, and a node that was ever claimed rests on
dependencies that have ended. -/

variable {repo : TaskRepository} {first last : System} {calls : List Call}
  {graphId : String} {before after : TaskGraphRecords} {node : NodeEntry}

structure GraphExtends (before after : TaskGraphRecords) : Prop where
  graphId : after.graphId = before.graphId
  admission : after.admission = before.admission
  events : before.events <+: after.events
  results : before.results <+: after.results
  preparedInputs : before.preparedInputs <+: after.preparedInputs
  rows : RowsDescend before after

theorem GraphExtends.trans (left : GraphExtends before middle) (right : GraphExtends middle after) :
    GraphExtends before after where
  graphId := right.graphId.trans left.graphId
  admission := right.admission.trans left.admission
  events := left.events.trans right.events
  results := left.results.trans right.results
  preparedInputs := left.preparedInputs.trans right.preparedInputs
  rows := .trans _ _ _ left.rows right.rows

theorem task_graphs_are_append_only (reachable : (taskSystem repo).Reachable first)
    (run : Machine.Run (taskSystem repo) first calls last)
    (found : first.store.graphs graphId = some before) :
    ∃ after, last.store.graphs graphId = some after ∧ GraphExtends before after := by
  refine run_graphHistory (fun records => ?_) (fun _ _ _ => .trans) ?_ reachable run graphId
    before found
  · exact ⟨rfl, rfl, prefix_rfl, prefix_rfl, prefix_rfl, .refl records⟩
  · intro _ _ _ _ change _ sound permitted committed
    exact {
      graphId := committed.graphId
      admission := committed.admission
      events := committed.events ▸ prefix_append _ _
      results := committed.results ▸ prefix_append _ _
      preparedInputs := committed.preparedInputs ▸ prefix_append _ _
      rows := committed.rowsDescend permitted sound }

/-- The node carries a trace of a claim. -/
def Worked (node : NodeEntry) : Prop :=
  1 ≤ node.state.fence ∨ node.state.executionId ≠ none ∨
    node.status ∈ [.running, .waiting, .recoveryRequired, .succeeded, .failed]

theorem SoundGraph.claimed {time : Time} (sound : SoundGraph time before)
    (member : node ∈ before.nodes) (worked : Worked node) : 1 ≤ node.state.fence := by
  rcases worked with fence | bound | status
  · exact fence
  · exact sound.readiness.claimed_of_bound node member bound
  · have reportable := (sound.reported node member).reportable
    rw [TaskNodeFields.Reportable] at reportable
    simp only [mem_cons, not_mem_nil, or_false] at status
    rcases status with status | status | status | status | status <;>
      simp only [NodeEntry.status] at status <;> rw [status] at reportable <;>
      exact reportable.2.1

theorem worked_nodes_rest_on_ended_dependencies
    (reachable : (taskSystem repo).Reachable first)
    (run : Machine.Run (taskSystem repo) first calls last)
    (found : first.store.graphs graphId = some before) (member : node ∈ before.nodes)
    (worked : Worked node) :
    node.definition.dependencyStatus (statusIn before.entryAt) = .ready ∧
      ∀ dependency ∈ node.definition.dependencies, ∃ row, before.entryAt dependency = some row ∧
        row.status.Terminal ∧ last.store.nodeAt graphId dependency = some row := by
  have sound := soundGraph_of_reachable reachable found
  have ready := sound.readiness.ready_of_claimed node member (sound.claimed member worked)
  refine ⟨ready, fun dependency needed => ?_⟩
  have ended := TaskNode.terminal_of_dependencyStatus_ready ready dependency needed
  cases stored : before.entryAt dependency with
  | none =>
    rw [statusIn, stored] at ended
    simp [TaskStatus.Terminal] at ended
  | some row =>
    rw [statusIn, stored] at ended
    obtain ⟨value, kept, descends⟩ :=
      run_nodeAt reachable run (Store.nodeAt_eq_some.mpr ⟨before, found, stored⟩)
    exact ⟨row, rfl, ended, descends.frozen ended ▸ kept⟩

theorem sample_failed_graph_extends : ∃ after, sampleOverridden.store.graphs "graph" = some after ∧
    ∃ before, sampleFailed.store.graphs "graph" = some before ∧ GraphExtends before after := by
  obtain ⟨before, found, _⟩ := Option.map_eq_some_iff.mp sampleFailed_status
  obtain ⟨after, kept, extends'⟩ :=
    task_graphs_are_append_only sampleFailed_reachable sampleOverride_run.of_restrict found
  exact ⟨after, kept, before, found, extends'⟩

/-- The second node of the chain is claimed once the first one has succeeded. -/
def chainWorked : System :=
  sampleSystem (chainStart ++ [(tick 4, sampleCompletion),
    (tick 5, .schedulerState "graph" "tenant"),
    (tick 6, .claim "graph" "b" "tenant" "worker-2" 60)])

theorem sample_worked_nodes_rest : ∃ before node row,
    chainWorked.store.graphs "graph" = some before ∧ node ∈ before.nodes ∧ Worked node ∧
      "a" ∈ node.definition.dependencies ∧ row.status.Terminal ∧
      before.entryAt "a" = some row ∧ (sampleRepository.next chainWorked (tick 7)
        (.cancelGraph "graph" "tenant")).store.nodeAt "graph" "a" = some row := by
  have claimed : (chainWorked.store.nodeAt "graph" "b").map (fun node =>
      (node.definition.dependencies, node.status)) = some (["a"], .running) := by decide +kernel
  obtain ⟨node, stored, same⟩ := Option.map_eq_some_iff.mp claimed
  obtain ⟨before, found, present⟩ := Store.nodeAt_eq_some.mp stored
  obtain ⟨needs, running⟩ := Prod.mk.inj same
  have needed : "a" ∈ node.definition.dependencies := needs ▸ mem_singleton_self "a"
  have worked : Worked node := .inr (.inr (by simp [running]))
  have member := (entryAt_mem present).1
  have step : (taskSystem sampleRepository).step chainWorked _ (sampleRepository.next chainWorked
      (tick 7) (.cancelGraph "graph" "tenant")) := TaskRepository.step_next (by decide +kernel)
  obtain ⟨row, kept, ended, later⟩ := (worked_nodes_rest_on_ended_dependencies
    (play_reachable (by decide +kernel)) (.single step) found member worked).2 "a" needed
  exact ⟨before, node, row, found, member, worked, needed, ended, kept, later⟩

end Linktools.Persistence
