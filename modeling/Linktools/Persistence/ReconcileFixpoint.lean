import Linktools.Persistence.TaskReconcile

namespace Linktools.Persistence

open Linktools.Core Library Linktools.Task List

/-! A second pass of the reconciliation at the same time changes nothing, and any order of the
nodes that puts dependencies first gives the same rows. -/

/-- The loop of `_reconciled_task_nodes` along a given order. -/
def reconciledAlong (order : List String) (now : Option Time) (nodes : List NodeEntry) :
    Except Raised (List NodeEntry) := do
  let values ← settle (reconcileNode (nodes.map NodeEntry.definition) now) order
    (rowAt NodeEntry.nodeId nodes)
  return nodes.map fun node => (values node.nodeId).getD node

structure VisitingOrder (nodes : List NodeEntry) (order : List String) : Prop where
  distinct : order.Nodup
  visits : order.Perm (nodes.map NodeEntry.nodeId)
  first : DependenciesFirst (dependenciesOf (nodes.map NodeEntry.definition)) order

def LeaseHolds (now : Option Time) (node : NodeEntry) : Prop :=
  ∀ reading ∈ now, ∀ expires ∈ node.state.leaseExpiresAt, reading < expires

variable {now : Option Time} {nodes next : List NodeEntry} {order : List String}
  {entry node value : NodeEntry}

theorem expireLease_again (expired : expireLease now entry = .ok value) :
    expireLease now value = .ok value := by
  unfold expireLease at expired
  split at expired
  case isTrue lapsed =>
    have ready : value.status = .ready :=
      congrArg TaskNodeFields.status (NodeEntry.replace_eq_ok.mp expired).2
    exact if_neg fun again => absurd (ready.symm.trans again.1) (by decide)
  case isFalse holds =>
    cases expired
    exact if_neg holds

theorem followDependencies_settled
    (unblocked : value.definition.dependencyStatus statuses ≠ .blocked)
    (ready : value.definition.dependencyStatus statuses = .ready → value.status ≠ .pending)
    (pending : value.definition.dependencyStatus statuses = .pending → value.status ≠ .ready) :
    followDependencies (some value.definition) statuses value = .ok value := by
  unfold followDependencies
  split
  case isTrue => rfl
  case isFalse =>
    rw [orRaise, ok_bind, refuse_of_not (not_not.mpr rfl), ok_bind]
    dsimp only
    rw [if_neg unblocked, if_neg (not_and.mpr ready), if_neg (not_and.mpr pending)]
    rfl

theorem followDependencies_again
    (followed : followDependencies (some entry.definition) statuses entry = .ok value) :
    followDependencies (some value.definition) statuses value = .ok value := by
  rcases followDependencies_cases followed with rfl |
    ⟨_, _, _, same, found, ⟨⟩, ⟨decided, fields⟩ | ⟨decided, _, fields⟩ | ⟨decided, _, fields⟩⟩
  · exact followed
  all_goals rw [← same] at decided
  · have blocked : value.status = .blocked := congrArg TaskNodeFields.status fields
    exact if_pos (.inl (by rw [blocked]; decide))
  · have ready : value.status = .ready := congrArg TaskNodeFields.status fields
    exact followDependencies_settled (by simp [decided]) (by simp [ready]) (by simp [decided])
  · have pending : value.status = .pending := congrArg TaskNodeFields.status fields
    exact followDependencies_settled (by simp [decided]) (by simp [decided]) (by simp [pending])

theorem Reconciled.again (reconciled : Reconciled now statuses node value) :
    Reconciled now statuses value value := by
  obtain ⟨shape, expired, expiredOk, followed⟩ := reconciled
  have settled : expireLease now value = .ok value ∧ ¬(value.status = .running ∧
      (value.state.owner = none ∨ value.state.fence < 1 ∨ value.state.leaseExpiresAt = none)) := by
    rcases followDependencies_cases followed with rfl |
      ⟨_, _, _, _, _, _, ⟨_, fields⟩ | ⟨_, _, fields⟩ | ⟨_, _, fields⟩⟩
    · refine ⟨expireLease_again expiredOk, ?_⟩
      rcases expireLease_cases expiredOk with rfl | ⟨_, _, fields, _⟩
      · exact shape
      · intro running
        cases (congrArg TaskNodeFields.status fields).symm.trans running.1
    all_goals
      have stopped : value.status ≠ .running := fun running => by
        cases (congrArg TaskNodeFields.status fields).symm.trans running
      exact ⟨if_neg fun running => stopped running.1, fun running => stopped running.1⟩
  have own : expired.definition = node.definition := by
    rcases expireLease_cases expiredOk with rfl | ⟨_, same, _⟩
    · rfl
    · exact same
  rw [← own] at followed
  exact ⟨settled.2, value, settled.1, followDependencies_again followed⟩

theorem expireLease_held (expired : expireLease now node = .ok value)
    (held : node.status = .running → LeaseHolds now node) : value = node := by
  rcases expireLease_cases expired with same | ⟨running, _, _, reading, given, expires, lease, past⟩
  · exact same
  · exact absurd (held running reading given expires lease) (not_lt.mpr past)

/-- A row that is neither changed by its lease nor by what it depends on. -/
theorem Reconciled.eq_of_held (reconciled : Reconciled now statuses node value)
    (held : node.status.Terminal ∨ node.status = .recoveryRequired ∨
      node.status = .running ∧ LeaseHolds now node ∧ (node.state.executionId ≠ none ∨
        node.definition.dependencyStatus statuses ≠ .blocked)) : value = node := by
  obtain ⟨_, expired, expiredOk, followed⟩ := reconciled
  have kept : expired = node := expireLease_held expiredOk fun running => by
    rcases held with terminal | recovering | ⟨_, holds, _⟩
    · rw [running] at terminal
      exact absurd terminal (by decide)
    · cases running.symm.trans recovering
    · exact holds
  subst kept
  rcases followDependencies_cases followed with same |
    ⟨unfinished, stable, unbound, _, _, ⟨⟩, decided⟩
  · exact same
  · rcases held with terminal | recovering | ⟨running, _, bound | unblocked⟩
    · exact absurd terminal unfinished
    · exact absurd recovering stable
    · exact absurd unbound bound
    · rcases decided with ⟨blocked, _⟩ | ⟨_, pending, _⟩ | ⟨_, ready, _⟩
      · exact absurd blocked unblocked
      · cases running.symm.trans pending
      · cases running.symm.trans ready

theorem Reconciled.dependencyBlocked (reconciled : Reconciled now statuses node value)
    (running : node.status = .running) (holds : LeaseHolds now node)
    (unbound : node.state.executionId = none)
    (blocked : node.definition.dependencyStatus statuses = .blocked) :
    value.state.toTaskNodeFields = node.state.dependencyBlocked := by
  obtain ⟨_, expired, expiredOk, followed⟩ := reconciled
  cases expireLease_held expiredOk fun _ => holds
  rw [followDependencies, if_neg (by simp [running, unbound, TaskStatus.Terminal])] at followed
  simp only [orRaise, ok_bind, bind_eq_ok, if_pos blocked, NodeEntry.replace_eq_ok] at followed
  obtain ⟨_, _, _, fields⟩ := followed
  exact fields

theorem VisitingOrder.not_later (visiting : VisitingOrder nodes order) :
    ∀ before key after, order = before ++ key :: after →
      ∀ dependency ∈ dependenciesOf (nodes.map NodeEntry.definition) key,
        dependency ∉ key :: after :=
  visiting.first.not_later visiting.distinct

/-- The pass itself goes along one visiting order, when there is any. -/
theorem reconciledTaskNodes_eq_along (now : Option Time)
    (visiting : VisitingOrder nodes order) : ∃ own, VisitingOrder nodes own ∧
      reconciledTaskNodes nodes (nodes.map NodeEntry.definition) now =
        reconciledAlong own now nodes := by
  have distinct := visiting.visits.nodup_iff.mp visiting.distinct
  have each : ∀ nodeId ∈ nodes.map NodeEntry.nodeId,
      (dependenciesOf (nodes.map NodeEntry.definition) nodeId).Nodup :=
    fun nodeId _ => dependenciesOf_nodup _ nodeId
  have complete := topologicalOrder_complete distinct each visiting.visits visiting.first
  obtain ⟨ownDistinct, _, first⟩ := topologicalOrder_invariant distinct each
  refine ⟨_, ⟨ownDistinct, topologicalOrder_perm distinct each complete, first⟩, ?_⟩
  have ids := map_nodeId_definition nodes
  unfold reconciledTaskNodes
  dsimp only
  rw [refuse_of_not, ok_bind, refuse_of_not, ok_bind, refuse_of_not, ok_bind]
  · rfl
  · rw [complete, length_map]
    exact not_not.mpr rfl
  · rintro ⟨node, member, dependency, depends, outside⟩
    have inOrder := visiting.visits.mem_iff.mpr (mem_map_of_mem member)
    obtain ⟨before, after, split⟩ := append_of_mem inOrder
    have earlier := visiting.first before _ after split dependency (by
      rwa [dependenciesOf_mem (ids ▸ distinct) (mem_map_of_mem member)])
    refine outside (visiting.visits.mem_iff.mp ?_)
    rw [split]
    exact mem_append_left _ earlier
  · rw [not_or, not_not, not_not, ids]
    exact ⟨distinct, fun _ member => member, fun definition member =>
      ids ▸ mem_map_of_mem member⟩

theorem reconciledAlong_perm (visiting : VisitingOrder nodes order)
    (otherwise : VisitingOrder nodes other) (done : reconciledAlong order now nodes = .ok next) :
    reconciledAlong other now nodes = .ok next := by
  rw [reconciledAlong, bind_eq_ok] at done ⊢
  obtain ⟨values, settled, rest⟩ := done
  exact ⟨values, settle_perm (reconcileNode_local _) (visiting.visits.trans otherwise.visits.symm)
    visiting.distinct visiting.not_later otherwise.not_later settled, rest⟩

theorem reconcileNode_of_reconciled (present : values node.nodeId = some node)
    (defined : rowAt TaskNode.nodeId definitions node.nodeId = some node.definition)
    (reconciled : Reconciled now (statusIn values) node value) :
    reconcileNode definitions now node.nodeId values = .ok (some value) := by
  obtain ⟨shape, expired, expiredOk, followed⟩ := reconciled
  rw [reconcileNode, present, orRaise, ok_bind, refuse_of_not shape, ok_bind, expiredOk, ok_bind,
    defined, followed]
  rfl

theorem reconciledTaskNodes_again
    (done : reconciledTaskNodes nodes (nodes.map NodeEntry.definition) now = .ok next) :
    reconciledTaskNodes next (next.map NodeEntry.definition) now = .ok next := by
  obtain ⟨distinct, rows⟩ := reconciledTaskNodes_ok done
  have definitions : next.map NodeEntry.definition = nodes.map NodeEntry.definition :=
    forall₂_map_key (fun _ _ row => row.definition_eq) rows
  have ids : next.map NodeEntry.nodeId = nodes.map NodeEntry.nodeId := by
    rw [← map_nodeId_definition, ← map_nodeId_definition, definitions]
  simp only [reconciledTaskNodes, bind_eq_ok, refuse_eq_ok, pure_eq_ok] at done ⊢
  obtain ⟨_, shape, _, closed, _, complete, _⟩ := done
  rw [← ids] at distinct
  refine ⟨(), ?_, (), ?_, (), ?_, _, settle_fixed fun nodeId member => ?_, ?_⟩
  · rwa [ids, definitions]
  · rintro ⟨node, member, outside⟩
    obtain ⟨origin, inside, same⟩ := mem_map.mp
      (definitions ▸ mem_map_of_mem (f := NodeEntry.definition) member)
    exact closed ⟨origin, inside, by rwa [same, ← ids]⟩
  · rwa [ids, definitions, rows.length_eq.symm]
  · have each : ∀ nodeId ∈ next.map NodeEntry.nodeId,
        (dependenciesOf (next.map NodeEntry.definition) nodeId).Nodup :=
      fun nodeId _ => dependenciesOf_nodup _ nodeId
    obtain ⟨value, inside, rfl⟩ := mem_map.mp
      ((topologicalOrder_invariant distinct each).2.1 nodeId member)
    obtain ⟨node, _, reconciled⟩ := forall₂_mem_right rows inside
    have stored := rowAt_of_mem distinct inside
    rw [stored]
    exact reconcileNode_of_reconciled stored (rowAt_of_mem (by rwa [map_nodeId_definition])
      (mem_map_of_mem inside)) reconciled.again
  · refine (map_congr_left fun node member => ?_).trans (map_id next)
    rw [rowAt_of_mem distinct member]
    rfl

/-- A second pass at the same time gives the same rows as the first one, and so does any order of
the nodes.  Finished rows and those that need recovery stay as they are, and so does a claimed
row under its lease; but without an execution it is blocked when its dependencies fail it. -/
theorem reconciliation_settles_in_one_pass (now : Option Time) (nodes : List NodeEntry) :
    (reconciledTaskNodes nodes (nodes.map NodeEntry.definition) now >>= fun next =>
        reconciledTaskNodes next (next.map NodeEntry.definition) now) =
      reconciledTaskNodes nodes (nodes.map NodeEntry.definition) now ∧
    (∀ order, VisitingOrder nodes order → ∀ next, reconciledAlong order now nodes = .ok next ↔
      reconciledTaskNodes nodes (nodes.map NodeEntry.definition) now = .ok next) ∧
    ∀ next, reconciledTaskNodes nodes (nodes.map NodeEntry.definition) now = .ok next →
      List.Forall₂ (fun node value => value.nodeId = node.nodeId ∧
        (node.status.Terminal ∨ node.status = .recoveryRequired ∨
          node.status = .running ∧ LeaseHolds now node ∧ (node.state.executionId ≠ none ∨
            node.definition.dependencyStatus
              (statusIn (rowAt NodeEntry.nodeId next)) ≠ .blocked) → value = node) ∧
        (node.status = .running → LeaseHolds now node → node.state.executionId = none →
          node.definition.dependencyStatus (statusIn (rowAt NodeEntry.nodeId next)) = .blocked →
          value.state.toTaskNodeFields = node.state.dependencyBlocked)) nodes next := by
  refine ⟨?_, fun order visiting next => ?_, fun next done => ?_⟩
  · cases done : reconciledTaskNodes nodes (nodes.map NodeEntry.definition) now with
    | error error => rfl
    | ok next => exact reconciledTaskNodes_again done
  · obtain ⟨own, along, same⟩ := reconciledTaskNodes_eq_along now visiting
    rw [same]
    exact ⟨reconciledAlong_perm visiting along, reconciledAlong_perm along visiting⟩
  · exact (reconciledTaskNodes_ok done).2.imp fun node value reconciled =>
      ⟨reconciled.nodeId_eq, reconciled.eq_of_held, reconciled.dependencyBlocked⟩

def sampleRow (nodeId : String) (dependencies : List String) (state : TaskNodeFields)
    (valid : state.Valid) (present : blank nodeId = false := by decide)
    (named : ∀ dependency ∈ dependencies, blank dependency = false := by decide)
    (distinct : dependencies.Nodup := by decide) : NodeEntry where
  definition :=
    { nodeId, dependencies, nodeId_present := present, dependencies_present := named
      dependencies_nodup := distinct, budget_positive := Nat.zero_lt_one }
  state := ⟨state, valid⟩

def claimedFields : TaskNodeFields :=
  { status := .running, owner := some "worker", fence := 1, leaseExpiresAt := some 9 }

theorem no_dependency_blank : ∀ dependency ∈ [], blank dependency = false := by
  decide

def claimedAfterFailure : List NodeEntry :=
  [sampleRow "first" [] { status := .failed } (TaskNodeFields.check_eq_ok.mp rfl) (by decide)
      no_dependency_blank nodup_nil,
    sampleRow "second" ["first"] claimedFields (TaskNodeFields.check_eq_ok.mp rfl)]

theorem a_claimed_row_is_blocked_under_its_lease :
    ¬∀ (now : Option Time) (nodes next : List NodeEntry),
      reconciledTaskNodes nodes (nodes.map NodeEntry.definition) now = .ok next →
      List.Forall₂ (fun node value => node.status = .running → LeaseHolds now node →
        value = node) nodes next := by
  intro untouched
  have done : (reconciledTaskNodes claimedAfterFailure (claimedAfterFailure.map
      NodeEntry.definition) (some 5)).toOption.map (map NodeEntry.status) =
        some [.failed, .blocked] := by
    decide +kernel
  cases pass : reconciledTaskNodes claimedAfterFailure
      (claimedAfterFailure.map NodeEntry.definition) (some 5) with
  | error error =>
    rw [pass] at done
    cases done
  | ok next =>
    rw [pass] at done
    rcases untouched _ _ _ pass with _ | ⟨_, _ | ⟨kept, _ | _⟩⟩
    have same := kept rfl (by
      rintro _ ⟨⟩ _ ⟨⟩
      decide)
    subst same
    cases (List.cons.inj (List.cons.inj (Option.some.inj done)).2).1

end Linktools.Persistence
