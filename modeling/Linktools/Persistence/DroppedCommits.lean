import Linktools.Persistence.ReadbackAnswers

namespace Linktools.Persistence

open Linktools.Core Library Linktools.Task

/-! What a dropped call reads back later: a row that it takes for its own was stored before
the call, or was written since by an operation that leaves a node as the call does. -/

variable {repo : TaskRepository} {now : Time} {clock : Clock} {scope : Scope}
  {store after : Store} {first last : System} {calls : List Call} {node value : NodeEntry}
  {before left : TaskNodeFields} {expected : Option Nat} {call : NodeOperation}
  {operation : Operation}

namespace NodeOperation

def target : NodeOperation → Except Raised TaskRepository.TargetNode
  | .handoffExecution lease _ _ _ => .ok ⟨lease.graphId, lease.nodeId⟩
  | .requeueWaitingRetry graphId nodeId _ _ _ _ | .requeueRecovery graphId nodeId _ _ _ _
  | .claim graphId nodeId _ _ _ => .ok ⟨graphId, nodeId⟩
  | .markRecoveryRequired request => request.target
  | .complete request => TaskRepository.terminalTarget request.lease request.tenantId
      request.graphId request.nodeId
  | .fail request => TaskRepository.terminalTarget request.lease request.tenantId
      request.graphId request.nodeId

/-- The fence that a claim means to write. -/
def writtenFence (store : Store) : NodeOperation → Option Nat
  | .claim graphId nodeId _ _ _ =>
    (store.nodeAt graphId nodeId).map fun node => node.state.fence + 1
  | _ => none

/-- The rows that a read-back takes for the call's own. A node that runs under the fence of
a requeue counts too, for its lease may expire into such a row. -/
def Reads (expected : Option Nat) (fields : TaskNodeFields) : NodeOperation → Prop
  | .handoffExecution lease _ executionId occupies =>
    fields.status = .waiting ∧ fields.fence = lease.fence ∧
      fields.executionId = some executionId ∧ fields.occupiesConcurrency = occupies
  | .requeueWaitingRetry _ _ _ fence executionId nextAttemptAt =>
    fields.fence = fence ∧ (fields.status = .running ∨ fields.status = .ready ∧
      fields.executionId = some executionId ∧ fields.nextAttemptAt = some nextAttemptAt)
  | .requeueRecovery _ _ _ fence executionId nextAttemptAt =>
    fields.fence = fence ∧ (fields.status = .running ∨ fields.status = .ready ∧
      fields.executionId ≠ none ∧ (executionId = none ∨ fields.executionId = executionId) ∧
      fields.nextAttemptAt = nextAttemptAt)
  | .claim _ _ _ owner _ =>
    fields.status = .running ∧ fields.owner = some owner ∧ expected = some fields.fence
  | .markRecoveryRequired request =>
    fields.status = .recoveryRequired ∧ (∀ lease ∈ request.lease, fields.fence = lease.fence) ∧
      ¬TaskRepository.fenceUnexpected request.expectedFence fields.fence ∧
      fields.errorCode = some request.errorCode ∧ fields.errorDigest = some request.errorDigest
  | .complete request =>
    fields.status = .succeeded ∧ (∀ lease ∈ request.lease, fields.fence = lease.fence) ∧
      fields.resultDigest = some request.resultDigest
  | .fail request =>
    fields.status = .failed ∧ (∀ lease ∈ request.lease, fields.fence = lease.fence) ∧
      fields.errorCode = some request.errorCode ∧ fields.errorDigest = some request.errorDigest

def ReadsAt (expected : Option Nat) (store : Store) (call : NodeOperation) : Prop :=
  ∃ place node, call.target = .ok place ∧
    store.nodeAt place.graphId place.nodeId = some node ∧
      call.Reads expected node.state.toTaskNodeFields

end NodeOperation

/-- What an operation may make of a row: what it writes under the row's fence, or the row
as an owner claims it. -/
def Scope.Leaves (scope : Scope) (node : NodeEntry) (fields : TaskNodeFields) : Prop :=
  scope.writes node.nodeId fields ∧ fields.fence = node.state.fence ∨
    ∃ owner, scope.claims node.nodeId owner ∧ fields.status = .running ∧
      fields.owner = some owner ∧ fields.fence = node.state.fence + 1

/-- The operation may leave the call's node as the call means to. -/
def NodeOperation.RepeatedBy (expected : Option Nat) (store : Store) (operation : Operation)
    (call : NodeOperation) : Prop :=
  ∃ place node fields, call.target = .ok place ∧
    store.nodeAt place.graphId place.nodeId = some node ∧
    (operation.scope place.graphId).Leaves node fields ∧ call.Reads expected fields

theorem reads_of_move (move : TaskNodeFields.Move now writes before left)
    (reads : call.Reads expected left) : call.Reads expected before ∨ writes left := by
  cases move with
  | handOff _ _ _ _ _ written | waitingRetry _ _ written | markRecovery _ _ _ _ _ _ _ _ written
  | recover _ written | requeueRecovery _ _ _ written | fail _ _ _ _ _ _ _ _ written =>
    exact .inr written
  | renew _ live | bind _ live | retry _ live =>
    refine .inl ?_
    have running := live.1
    cases call <;> simp_all [NodeOperation.Reads, TaskNodeFields.renewed, TaskNodeFields.bound,
      TaskNodeFields.retried]
  | expire _ running =>
    refine .inl ?_
    cases call <;> simp_all [NodeOperation.Reads, TaskNodeFields.expired]
  | block | ready _ unbound | unready _ unbound =>
    cases call <;> simp_all [NodeOperation.Reads, TaskNodeFields.dependencyBlocked,
      TaskNodeFields.withStatus]
  | cancel | cancelUnclaimed | cancelProjection =>
    cases call <;> simp_all [NodeOperation.Reads, TaskNodeFields.cancelled,
      TaskNodeFields.unclaimedCancelled, TaskNodeFields.projectionCancelled]

theorem reads_of_moves (moves : TaskNodeFields.Moves now writes before left)
    (reads : call.Reads expected left) : call.Reads expected before ∨
      ∃ fields, writes fields ∧ fields.fence = before.fence ∧ call.Reads expected fields := by
  induction moves with
  | refl => exact .inl reads
  | tail moves move ih =>
    rcases reads_of_move move reads with earlier | written
    · exact ih earlier
    · exact .inr ⟨_, written, TaskNodeFields.Moves.fence_eq (moves.tail move), reads⟩

theorem RowAdvances.reads (advance : RowAdvances now scope node value)
    (reads : call.Reads expected value.state.toTaskNodeFields) :
    call.Reads expected node.state.toTaskNodeFields ∨
      ∃ fields, scope.Leaves node fields ∧ call.Reads expected fields := by
  cases advance with
  | moved row =>
    rcases reads_of_moves row.moves reads with earlier | ⟨fields, written, fence, reads⟩
    · exact .inl earlier
    · exact .inr ⟨fields, .inl ⟨written, fence⟩, reads⟩
  | claimed owner _ claims _ _ _ state =>
    exact .inr ⟨_, .inr ⟨owner, claims, by rw [state]; exact ⟨rfl, rfl, rfl⟩⟩, reads⟩
  | succeeded _ _ _ _ _ _ state written =>
    exact .inr ⟨_, .inl ⟨written, by rw [state]; rfl⟩, reads⟩

theorem fresh_not_read (fresh : initialNode (fun _ => .pending) node.definition = .ok node) :
    ¬call.Reads expected node.state.toTaskNodeFields := by
  have unbound := (initial_unclaimed fresh).2
  have status := initialNodeFields_status node.definition fun _ => .pending
  rw [← initialNode_fields fresh] at status
  intro reads
  cases call <;> rcases status with status | status | status <;>
    simp [NodeOperation.Reads, status, unbound] at reads

/-- A step that leaves the call's node as the call does repeats the call. -/
theorem NodeOperation.ReadsAt.step (keyed : WellKeyed store)
    (step : StoreStep clock operation.scope store after)
    (unrepeated : ¬call.RepeatedBy expected store operation)
    (reads : call.ReadsAt expected after) : call.ReadsAt expected store := by
  obtain ⟨place, value, targeted, stored, reads⟩ := reads
  obtain ⟨records, found, stored⟩ := Store.nodeAt_eq_some.mp stored
  obtain ⟨member, sameNode⟩ := entryAt_mem stored
  have fate := step place.graphId
  rw [found] at fate
  generalize earlier : store.graphs place.graphId = graph at fate
  cases fate with
  | created _ created => exact absurd reads (fresh_not_read (created.fresh value member))
  | stepped before _ step =>
    have distinct := (keyed _ _ earlier).2
    rcases step with rfl | ⟨change, permitted, committed⟩
    · exact ⟨place, value, targeted, Store.nodeAt_eq_some.mpr ⟨records, earlier, stored⟩, reads⟩
    rcases committed.origin permitted distinct member with ⟨node, inside, advance⟩ | added
    · have present : store.nodeAt place.graphId place.nodeId = some node :=
        Store.nodeAt_eq_some.mpr ⟨before, earlier, by
          rw [← sameNode, advance.nodeId_eq]
          exact rowAt_of_mem distinct inside⟩
      rcases advance.reads reads with earlier | ⟨fields, leaves, reads⟩
      · exact ⟨place, node, targeted, present, earlier⟩
      · exact absurd ⟨place, node, fields, targeted, present, leaves, reads⟩ unrepeated
    · rcases permitted.added with none | extends'
      · simp [none] at added
      · exact absurd reads (fresh_not_read (extends'.fresh value added))

/-- The other call raises, or does not repeat this one. -/
def NodeOperation.Unrepeated (call : NodeOperation) (expected : Option Nat) (system : System)
    (other : Call) : Prop :=
  ∀ outcome, other.answer = .ok outcome → ¬call.RepeatedBy expected system.store other.operation

theorem NodeOperation.ReadsAt.run (reachable : (taskSystem repo).Reachable first)
    (run : Machine.Run ((taskSystem repo).restrict (call.Unrepeated expected)) first calls
      last) (reads : call.ReadsAt expected last.store) : call.ReadsAt expected first.store := by
  induction run with
  | nil => exact reads
  | cons step _ ih =>
    obtain ⟨step, unrepeated⟩ := step
    have later := ih (reachable.step step) reads
    rcases TaskRepository.respond_cases step.2.2 with ⟨outcome, answered, done⟩ | ⟨_, _, same⟩
    · have sound := soundSystem_of_reachable reachable
      exact later.step sound.wellKeyed (TaskRepository.perform_storeStep sound.wellKeyed done)
        (unrepeated outcome answered)
    · exact same ▸ later

end Linktools.Persistence
