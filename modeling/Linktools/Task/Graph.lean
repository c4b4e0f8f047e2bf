import Linktools.Core.Value
import Linktools.Library.Checked
import Linktools.Library.Keyed
import Linktools.Library.TopologicalOrder
import Mathlib.Data.List.MinMax
import Mathlib.Data.String.Basic

namespace Linktools.Task

open Linktools.Core Library List

inductive DependencyPolicy
  | allSucceeded
  | allTerminal
  | anySucceeded

inductive FailurePolicy
  | propagate
  | isolate
deriving DecidableEq

structure TaskRef where
  id : String
  revision : Nat
deriving DecidableEq

structure TaskExpanderRef where
  id : String
  revision : Nat

/-- One invocation with its scheduling dependencies.  `invocation` holds the
other entries of the node's mapping, which scheduling never reads. -/
structure TaskNode where
  nodeId : String
  dependencies : List String := []
  task : Option TaskRef := none
  budgetCost : Nat := 1
  expander : Option TaskExpanderRef := none
  dependencyPolicy : DependencyPolicy := .allSucceeded
  failurePolicy : FailurePolicy := .propagate
  invocation : JsonMapping := []
  nodeId_present : blank nodeId = false := by decide
  dependencies_present : ∀ dependency ∈ dependencies, blank dependency = false := by decide
  dependencies_nodup : dependencies.Nodup := by decide
  budget_positive : 1 ≤ budgetCost := by decide

def decideStatus (policy : DependencyPolicy) (statuses : List TaskStatus) : TaskStatus :=
  match policy with
  | .allSucceeded =>
    if ∃ status ∈ statuses, status.Terminal ∧ status ≠ .succeeded then .blocked
    else if ∀ status ∈ statuses, status = .succeeded then .ready
    else .pending
  | .allTerminal =>
    if ∀ status ∈ statuses, status.Terminal then .ready else .pending
  | .anySucceeded =>
    if ¬∀ status ∈ statuses, status.Terminal then .pending
    else if ∃ status ∈ statuses, status = .succeeded then .ready
    else .blocked

namespace TaskNode

def dependencyStatus (node : TaskNode) (dependencyStates : String → TaskStatus) : TaskStatus :=
  decideStatus node.dependencyPolicy (node.dependencies.map dependencyStates)

variable {node : TaskNode}

theorem dependencyStatus_congr
    (agree : ∀ dependency ∈ node.dependencies, left dependency = right dependency) :
    node.dependencyStatus left = node.dependencyStatus right := by
  have same : node.dependencies.map left = node.dependencies.map right := map_congr_left agree
  simp only [dependencyStatus, same]

theorem terminal_of_dependencyStatus_ready (ready : node.dependencyStatus states = .ready) :
    ∀ dependency ∈ node.dependencies, (states dependency).Terminal := by
  intro dependency member
  have inside : states dependency ∈ node.dependencies.map states := mem_map_of_mem member
  unfold dependencyStatus decideStatus at ready
  split at ready
  · split at ready
    · cases ready
    · split at ready
      case isTrue all => exact .inl (all _ inside)
      case isFalse => cases ready
  · split at ready
    case isTrue all => exact all _ inside
    case isFalse => cases ready
  · split at ready
    case isTrue => cases ready
    case isFalse all => exact Classical.not_not.mp all _ inside

theorem dependencyStatus_ready_stable (ready : node.dependencyStatus left = .ready)
    (frozen : ∀ dependency ∈ node.dependencies,
      (left dependency).Terminal → right dependency = left dependency) :
    node.dependencyStatus right = .ready := by
  rw [← ready]
  apply dependencyStatus_congr
  intro dependency member
  exact frozen dependency member (terminal_of_dependencyStatus_ready ready dependency member)

theorem dependencyStatus_of_terminal
    (terminal : ∀ dependency ∈ node.dependencies, (states dependency).Terminal) :
    node.dependencyStatus states = .ready ∨ node.dependencyStatus states = .blocked := by
  have all : ∀ status ∈ node.dependencies.map states, status.Terminal := by
    intro status inside
    obtain ⟨dependency, member, rfl⟩ := mem_map.mp inside
    exact terminal dependency member
  unfold dependencyStatus decideStatus
  split
  · split
    case isTrue => exact .inr rfl
    case isFalse none =>
      rw [if_pos]
      · exact .inl rfl
      · intro status inside
        by_contra different
        exact none ⟨status, inside, all status inside, different⟩
  · rw [if_pos all]
    exact .inl rfl
  · rw [if_neg (not_not_intro all)]
    split
    · exact .inl rfl
    · exact .inr rfl

end TaskNode

def dependenciesOf (nodes : List TaskNode) (nodeId : String) : List String :=
  match rowAt TaskNode.nodeId nodes nodeId with
  | some node => node.dependencies
  | none => []

theorem dependenciesOf_nodup (nodes : List TaskNode) (nodeId : String) :
    (dependenciesOf nodes nodeId).Nodup := by
  unfold dependenciesOf
  split
  · exact TaskNode.dependencies_nodup _
  · exact nodup_nil

variable {nodes : List TaskNode}

theorem dependenciesOf_mem (distinct : (nodes.map TaskNode.nodeId).Nodup) (member : node ∈ nodes) :
    dependenciesOf nodes node.nodeId = node.dependencies := by
  simp only [dependenciesOf, rowAt_of_mem distinct member]

theorem dependenciesOf_known (distinct : (nodes.map TaskNode.nodeId).Nodup)
    (closed : ∀ node ∈ nodes, ∀ dependency ∈ node.dependencies,
      dependency ∈ nodes.map TaskNode.nodeId) :
    ∀ nodeId ∈ nodes.map TaskNode.nodeId, ∀ dependency ∈ dependenciesOf nodes nodeId,
      dependency ∈ nodes.map TaskNode.nodeId := by
  intro nodeId member dependency depends
  obtain ⟨node, inside, rfl⟩ := mem_map.mp member
  rw [dependenciesOf_mem distinct inside] at depends
  exact closed node inside dependency depends

theorem dependenciesOf_perm (distinct : (left.map TaskNode.nodeId).Nodup) (same : left.Perm right) :
    dependenciesOf left = dependenciesOf right := by
  funext nodeId
  simp only [dependenciesOf, rowAt_perm distinct same]

structure TaskGraphLimits where
  maxConcurrency : Nat := 8
  maxDepth : Nat := 8
  maxNodes : Nat := 128
  maxBudget : Nat := 1000
  maxConcurrency_positive : 1 ≤ maxConcurrency := by decide
  maxDepth_positive : 1 ≤ maxDepth := by decide
  maxNodes_positive : 1 ≤ maxNodes := by decide
  maxBudget_positive : 1 ≤ maxBudget := by decide

def nodeOrder (nodes : List TaskNode) : List String :=
  topologicalOrder (nodes.map TaskNode.nodeId) (dependenciesOf nodes)

/-- An immutable DAG of task invocations, validated when constructed. -/
structure TaskGraph where
  graphId : String
  nodes : List TaskNode
  graphId_present : blank graphId = false
  ids_nodup : (nodes.map TaskNode.nodeId).Nodup
  closed : ∀ node ∈ nodes, ∀ dependency ∈ node.dependencies, dependency ∈ nodes.map TaskNode.nodeId
  complete : (nodeOrder nodes).length = nodes.length

def graphValidationError (reason : String) : Raised :=
  .ai .taskDagInvalid [("reason", .str reason)]

namespace TaskGraph

def build (graphId : String) (nodes : List TaskNode) : Except Raised TaskGraph :=
  if present : blank graphId = false then
    if distinct : (nodes.map TaskNode.nodeId).Nodup then
      if closed : ∀ node ∈ nodes, ∀ dependency ∈ node.dependencies,
          dependency ∈ nodes.map TaskNode.nodeId then
        if complete : (nodeOrder nodes).length = nodes.length then
          .ok ⟨graphId, nodes, present, distinct, closed, complete⟩
        else .error (graphValidationError "cycle")
      else .error (graphValidationError "dependency_unknown")
    else .error (graphValidationError "duplicate_node_id")
  else .error (.valueError "task graph id is required")

theorem build_ok {graphId : String} (built : build graphId nodes = .ok graph) :
    graph.graphId = graphId ∧ graph.nodes = nodes := by
  unfold build at built
  split at built
  · split at built
    · split at built
      · split at built
        · cases built
          exact ⟨rfl, rfl⟩
        · cases built
      · cases built
    · cases built
  · cases built

def topologicalOrder (graph : TaskGraph) : List String := nodeOrder graph.nodes

/-- The length of the longest dependency chain that ends at each node. -/
def depths (graph : TaskGraph) : String → Nat :=
  graph.topologicalOrder.foldl
    (fun depths nodeId => Function.update depths nodeId
      (1 + ((dependenciesOf graph.nodes nodeId).map depths).foldr max 0))
    (fun _ => 0)

def validateLimits (graph : TaskGraph) (limits : TaskGraphLimits) : Except Raised Unit := do
  refuse (limits.maxNodes < graph.nodes.length) (.ai .taskDagInvalid)
  refuse (limits.maxDepth < (graph.topologicalOrder.map graph.depths).foldr max 0)
    (.ai .taskDagInvalid)
  refuse (limits.maxBudget < (graph.nodes.map TaskNode.budgetCost).sum) (.ai .taskDagInvalid)

theorem order_invariant (graph : TaskGraph) : graph.topologicalOrder.Nodup ∧
    (∀ nodeId, nodeId ∈ graph.topologicalOrder ↔ nodeId ∈ graph.nodes.map TaskNode.nodeId) ∧
    DependenciesFirst (dependenciesOf graph.nodes) graph.topologicalOrder := by
  have each : ∀ nodeId ∈ graph.nodes.map TaskNode.nodeId,
      (dependenciesOf graph.nodes nodeId).Nodup :=
    fun nodeId _ => dependenciesOf_nodup graph.nodes nodeId
  obtain ⟨distinct, _, first⟩ := topologicalOrder_invariant graph.ids_nodup each
  have same := topologicalOrder_perm graph.ids_nodup each
    (by simpa [nodeOrder] using graph.complete)
  exact ⟨distinct, fun nodeId => same.mem_iff, first⟩

variable {nodeId : String}

theorem acyclic (graph : TaskGraph) (member : nodeId ∈ graph.nodes.map TaskNode.nodeId) :
    ¬Relation.TransGen
      (fun earlier later => earlier ∈ dependenciesOf graph.nodes later) nodeId nodeId := by
  obtain ⟨distinct, members, first⟩ := graph.order_invariant
  exact first.acyclic distinct ((members nodeId).mpr member)

theorem depths_eq (graph : TaskGraph) (member : nodeId ∈ graph.topologicalOrder) :
    graph.depths nodeId =
      1 + ((dependenciesOf graph.nodes nodeId).map graph.depths).foldr max 0 := by
  obtain ⟨distinct, _, first⟩ := graph.order_invariant
  have isLocal : LocalRule (ε := Unit) (dependenciesOf graph.nodes)
      (fun nodeId depths =>
        .ok (1 + ((dependenciesOf graph.nodes nodeId).map depths).foldr max 0)) := by
    intro key left right _ agree
    have same : (dependenciesOf graph.nodes key).map left =
        (dependenciesOf graph.nodes key).map right := map_congr_left agree
    simp only [same]
  have decided := settle_rule isLocal distinct (first.not_later distinct)
    (settle_ok _ graph.topologicalOrder fun _ => 0) nodeId member
  rw [Except.ok.injEq] at decided
  refine decided.symm.trans ?_
  have outside : nodeId ∉ dependenciesOf graph.nodes nodeId := by
    intro inside
    obtain ⟨before, after, split⟩ := append_of_mem member
    exact first.not_later distinct before nodeId after split nodeId inside (by simp)
  have same : (dependenciesOf graph.nodes nodeId).map
      (Function.update graph.depths nodeId 0) =
        (dependenciesOf graph.nodes nodeId).map graph.depths :=
    map_congr_left fun dependency inside =>
      Function.update_of_ne (fun equality => outside (by rwa [equality] at inside)) _ _
  exact congrArg (fun values => 1 + foldr max 0 values) same

end TaskGraph

theorem foldr_max_mem (values : List Nat) :
    values.foldr max 0 = 0 ∨ values.foldr max 0 ∈ values := by
  induction values with
  | nil => exact .inl rfl
  | cons head tail ih =>
    rw [foldr_cons]
    rcases max_choice head (tail.foldr max 0) with same | same <;> rw [same]
    · exact .inr mem_cons_self
    · exact ih.imp_right (mem_cons_of_mem head)

def DependencyChain (nodes : List TaskNode) (chain : List String) : Prop :=
  chain.IsChain (fun earlier later => earlier ∈ dependenciesOf nodes later) ∧
    ∀ nodeId ∈ chain, nodeId ∈ nodes.map TaskNode.nodeId

namespace TaskGraph

theorem length_le_depths (graph : TaskGraph) (chain : List String) (last : String)
    (linked : DependencyChain graph.nodes (chain ++ [last])) :
    chain.length + 1 ≤ graph.depths last := by
  obtain ⟨_, members, _⟩ := graph.order_invariant
  induction chain using reverseRecOn generalizing last with
  | nil =>
    rw [graph.depths_eq ((members last).mpr (linked.2 last (by simp)))]
    simp
  | append_singleton chain previous ih =>
    have edge : previous ∈ dependenciesOf graph.nodes last := by
      have links := linked.1
      rw [append_assoc, isChain_append] at links
      simpa using links.2.1
    have shorter : DependencyChain graph.nodes (chain ++ [previous]) :=
      ⟨linked.1.left_of_append, fun nodeId inside =>
        linked.2 nodeId (mem_append_left _ inside)⟩
    have previousDepth := ih previous shorter
    have bound : graph.depths previous ≤
        ((dependenciesOf graph.nodes last).map graph.depths).foldr max 0 :=
      le_max_of_le' 0 (mem_map_of_mem edge) le_rfl
    rw [graph.depths_eq ((members last).mpr (linked.2 last (by simp))),
      length_append, length_singleton]
    omega

/-- The chain that a node's depth counts: each step takes a deepest dependency. -/
theorem exists_chain (graph : TaskGraph) (member : nodeId ∈ graph.topologicalOrder) :
    ∃ chain, DependencyChain graph.nodes (chain ++ [nodeId]) ∧
      (chain ++ [nodeId]).length = graph.depths nodeId := by
  obtain ⟨_, members, first⟩ := graph.order_invariant
  induction height : graph.depths nodeId using Nat.strongRecOn generalizing nodeId with
  | _ height ih =>
    have depth := graph.depths_eq member
    have inside := (members nodeId).mp member
    rcases foldr_max_mem ((dependenciesOf graph.nodes nodeId).map graph.depths) with zero | deepest
    · exact ⟨[], ⟨.singleton nodeId, by simpa using inside⟩, by simp; omega⟩
    · obtain ⟨dependency, depends, highest⟩ := mem_map.mp deepest
      obtain ⟨before, after, split⟩ := append_of_mem member
      have earlier := first before nodeId after split dependency depends
      obtain ⟨chain, linked, length⟩ := ih (graph.depths dependency) (by omega)
        (split ▸ mem_append_left _ earlier) rfl
      refine ⟨chain ++ [dependency], ⟨?_, ?_⟩, ?_⟩
      · refine isChain_append.mpr ⟨linked.1, .singleton nodeId, ?_⟩
        simpa using depends
      · intro found among
        rcases mem_append.mp among with among | last
        · exact linked.2 found among
        · exact mem_singleton.mp last ▸ inside
      · rw [length_append, length, length_singleton]
        omega

/-- The depth that is compared with the limits. -/
theorem isGreatest_depth (graph : TaskGraph) :
    IsGreatest {length | ∃ chain, DependencyChain graph.nodes chain ∧ chain.length = length}
      ((graph.topologicalOrder.map graph.depths).foldr max 0) := by
  constructor
  · rcases foldr_max_mem (graph.topologicalOrder.map graph.depths) with zero | deepest
    · exact ⟨[], ⟨.nil, by simp⟩, zero.symm⟩
    · obtain ⟨nodeId, member, highest⟩ := mem_map.mp deepest
      obtain ⟨chain, linked, length⟩ := graph.exists_chain member
      exact ⟨chain ++ [nodeId], linked, length.trans highest⟩
  · rintro _ ⟨chain, linked, rfl⟩
    rcases eq_nil_or_concat chain with rfl | ⟨front, last, rfl⟩
    · exact Nat.zero_le _
    · rw [concat_eq_append] at linked ⊢
      obtain ⟨_, members, _⟩ := graph.order_invariant
      have inOrder := (members last).mpr (linked.2 last (by simp))
      have bound :=
        le_max_of_le' 0 (mem_map_of_mem (f := graph.depths) inOrder) le_rfl
      have short := graph.length_le_depths front last linked
      rw [length_append, length_singleton]
      omega

variable {graph : TaskGraph} {limits : TaskGraphLimits}

theorem validateLimits_eq_ok :
    graph.validateLimits limits = .ok () ↔ graph.nodes.length ≤ limits.maxNodes ∧
      (graph.topologicalOrder.map graph.depths).foldr max 0 ≤ limits.maxDepth ∧
      (graph.nodes.map TaskNode.budgetCost).sum ≤ limits.maxBudget := by
  simp only [validateLimits, bind_eq_ok, refuse_eq_ok, not_lt, exists_const]

/-- A graph within its limits has at most `maxNodes` nodes and `maxBudget` of
budget, and no dependency chain longer than `maxDepth`. -/
theorem validateLimits_ok (valid : graph.validateLimits limits = .ok ()) :
    graph.nodes.length ≤ limits.maxNodes ∧
    (graph.nodes.map TaskNode.budgetCost).sum ≤ limits.maxBudget ∧
    ∀ chain, DependencyChain graph.nodes chain → chain.length ≤ limits.maxDepth := by
  obtain ⟨nodes, depth, budget⟩ := validateLimits_eq_ok.mp valid
  exact ⟨nodes, budget, fun chain linked =>
    (graph.isGreatest_depth.2 ⟨chain, linked, rfl⟩).trans depth⟩

variable {graphId : String}

theorem build_isOk_iff :
    (∃ graph, build graphId nodes = .ok graph) ↔
      blank graphId = false ∧ (nodes.map TaskNode.nodeId).Nodup ∧
      (∀ node ∈ nodes, ∀ dependency ∈ node.dependencies, dependency ∈ nodes.map TaskNode.nodeId) ∧
      ∀ nodeId ∈ nodes.map TaskNode.nodeId, ¬Relation.TransGen
        (fun earlier later => earlier ∈ dependenciesOf nodes later) nodeId nodeId := by
  constructor
  · rintro ⟨graph, built⟩
    obtain ⟨rfl, rfl⟩ := build_ok built
    exact ⟨graph.graphId_present, graph.ids_nodup, graph.closed, fun _ => graph.acyclic⟩
  · rintro ⟨present, distinct, closed, acyclic⟩
    have complete : (nodeOrder nodes).length = nodes.length := by
      rw [← length_map (f := TaskNode.nodeId)]
      exact topologicalOrder_complete_of_acyclic distinct
        (fun nodeId _ => dependenciesOf_nodup nodes nodeId) (dependenciesOf_known distinct closed)
        acyclic
    exact ⟨⟨graphId, nodes, present, distinct, closed, complete⟩,
      by rw [build, dif_pos present, dif_pos distinct, dif_pos closed, dif_pos complete]⟩

theorem exists_build_of_perm (graph : TaskGraph) (present : blank graphId = false)
    (same : nodes.Perm graph.nodes) : ∃ other, build graphId nodes = .ok other := by
  have names := same.map TaskNode.nodeId
  refine build_isOk_iff.mpr ⟨present, names.nodup_iff.mpr graph.ids_nodup, ?_, ?_⟩
  · intro node member dependency depends
    rw [names.mem_iff]
    exact graph.closed node (same.mem_iff.mp member) dependency depends
  · intro nodeId member
    rw [← dependenciesOf_perm graph.ids_nodup same.symm]
    exact graph.acyclic (names.mem_iff.mp member)

theorem topologicalOrder_perm (graph : TaskGraph) :
    graph.topologicalOrder.Perm (graph.nodes.map TaskNode.nodeId) :=
  Library.topologicalOrder_perm graph.ids_nodup
    (fun nodeId _ => dependenciesOf_nodup graph.nodes nodeId)
    (by simpa [nodeOrder] using graph.complete)

theorem topologicalOrder_least (graph : TaskGraph)
    (visits : others.Perm (graph.nodes.map TaskNode.nodeId))
    (first : DependenciesFirst (dependenciesOf graph.nodes) others) :
    graph.topologicalOrder ≤ others :=
  Library.topologicalOrder_least graph.ids_nodup
    (fun nodeId _ => dependenciesOf_nodup graph.nodes nodeId) visits first

theorem topologicalOrder_eq_of_perm {left right : TaskGraph} (same : left.nodes.Perm right.nodes) :
    left.topologicalOrder = right.topologicalOrder := by
  have names := same.map TaskNode.nodeId
  have dependencies := dependenciesOf_perm left.ids_nodup same
  obtain ⟨_, _, leftFirst⟩ := left.order_invariant
  obtain ⟨_, _, rightFirst⟩ := right.order_invariant
  apply le_antisymm
  · exact left.topologicalOrder_least (right.topologicalOrder_perm.trans names.symm)
      (dependencies ▸ rightFirst)
  · exact right.topologicalOrder_least (left.topologicalOrder_perm.trans names)
      (dependencies ▸ leftFirst)

/-- Construction succeeds exactly on the acyclic graphs, and their order is canonical. -/
theorem construction_and_canonical_order (graphId : String) (nodes : List TaskNode) :
    ((∃ graph, build graphId nodes = .ok graph) ↔
      blank graphId = false ∧ (nodes.map TaskNode.nodeId).Nodup ∧
      (∀ node ∈ nodes, ∀ dependency ∈ node.dependencies, dependency ∈ nodes.map TaskNode.nodeId) ∧
      ∀ nodeId ∈ nodes.map TaskNode.nodeId, ¬Relation.TransGen
        (fun earlier later => earlier ∈ dependenciesOf nodes later) nodeId nodeId) ∧
    ∀ graph, build graphId nodes = .ok graph →
      graph.topologicalOrder.Perm (nodes.map TaskNode.nodeId) ∧
      DependenciesFirst (dependenciesOf nodes) graph.topologicalOrder ∧
      (∀ others, others.Perm (nodes.map TaskNode.nodeId) →
        DependenciesFirst (dependenciesOf nodes) others → graph.topologicalOrder ≤ others) ∧
      (∀ reordered, reordered.Perm nodes → ∃ other, build graphId reordered = .ok other ∧
        other.topologicalOrder = graph.topologicalOrder) ∧ ∃ depth, IsGreatest
          {length | ∃ chain, DependencyChain nodes chain ∧ chain.length = length} depth ∧
        ∀ limits, graph.validateLimits limits = .ok () ↔
          nodes.length ≤ limits.maxNodes ∧ depth ≤ limits.maxDepth ∧
          (nodes.map TaskNode.budgetCost).sum ≤ limits.maxBudget := by
  refine ⟨build_isOk_iff, ?_⟩
  intro graph built
  obtain ⟨rfl, rfl⟩ := build_ok built
  refine ⟨graph.topologicalOrder_perm, graph.order_invariant.2.2,
    fun _ => graph.topologicalOrder_least, ?_,
    _, graph.isGreatest_depth, fun _ => validateLimits_eq_ok⟩
  intro reordered same
  obtain ⟨other, rebuilt⟩ := graph.exists_build_of_perm graph.graphId_present same
  refine ⟨other, rebuilt, topologicalOrder_eq_of_perm ?_⟩
  rwa [(build_ok rebuilt).2]

end TaskGraph

end Linktools.Task
