import Linktools.Persistence.TaskRecords

namespace Linktools.Task.TaskNodeFields

open Linktools.Core

/-! The field replacements that the repository makes to a node row. -/

def expired (fields : TaskNodeFields) : TaskNodeFields :=
  { fields with
    status := .ready, owner := none, leaseExpiresAt := none
    nextAttemptAt := none, occupiesConcurrency := false }

def dependencyBlocked (fields : TaskNodeFields) : TaskNodeFields :=
  { fields with
    status := .blocked
    errorCode := some ErrorCode.taskDependencyFailed.value, errorDigest := none }

def withStatus (fields : TaskNodeFields) (status : TaskStatus) : TaskNodeFields :=
  { fields with status := status }

def claimed (fields : TaskNodeFields) (owner : String) (expires : Time) : TaskNodeFields :=
  { fields with
    status := .running, owner := some owner, fence := fields.fence + 1
    leaseExpiresAt := some expires, nextAttemptAt := none
    occupiesConcurrency := false }

def renewed (fields : TaskNodeFields) (expires : Time) : TaskNodeFields :=
  { fields with leaseExpiresAt := some expires }

def bound (fields : TaskNodeFields) (executionId : String) : TaskNodeFields :=
  { fields with executionId := some executionId }

def handedOff (fields : TaskNodeFields) (executionId : String)
    (occupiesConcurrency : Bool) : TaskNodeFields :=
  { fields with
    status := .waiting, owner := none, leaseExpiresAt := none
    executionId := some executionId, resultDigest := none, errorCode := none
    errorDigest := none, nextAttemptAt := none
    occupiesConcurrency := occupiesConcurrency }

def retried (fields : TaskNodeFields) (nextAttemptAt : Time) : TaskNodeFields :=
  { fields with
    status := .ready, owner := none, leaseExpiresAt := none
    nextAttemptAt := some nextAttemptAt, occupiesConcurrency := false
    resultDigest := none, errorCode := none, errorDigest := none }

def waitingRetried (fields : TaskNodeFields) (nextAttemptAt : Time) : TaskNodeFields :=
  { fields.retried nextAttemptAt with
    errorOrigin := none, safeErrorDetails := [] }

def recoveryMarked (fields : TaskNodeFields) (code digest : String)
    (executionId : Option String) (origin : ErrorOrigin) (details : JsonMapping) : TaskNodeFields :=
  { fields with
    status := .recoveryRequired, owner := none, leaseExpiresAt := none
    nextAttemptAt := none, occupiesConcurrency := false, resultDigest := none
    errorCode := some code, errorDigest := some digest
    executionId := executionId, errorOrigin := some origin
    safeErrorDetails := details }

/-- A recovered node starts again, from its execution when it has one. -/
def recovered (fields : TaskNodeFields) : TaskNodeFields :=
  { fields with
    status := if fields.executionId ≠ none then .ready else .pending
    owner := none, leaseExpiresAt := none
    nextAttemptAt :=
      if fields.executionId ≠ none then fields.nextAttemptAt else none
    occupiesConcurrency := false, resultDigest := none, errorCode := none
    errorDigest := none, errorOrigin := none, safeErrorDetails := [] }

def recoveryRequeued (fields : TaskNodeFields) (executionId : Option String)
    (nextAttemptAt : Option Time) : TaskNodeFields :=
  { fields with
    status := .ready, owner := none, leaseExpiresAt := none
    executionId := executionId, resultDigest := none, errorCode := none
    errorDigest := none, nextAttemptAt := nextAttemptAt
    occupiesConcurrency := false }

def cancelled (fields : TaskNodeFields) : TaskNodeFields :=
  { fields with
    status := .cancelled, owner := none, leaseExpiresAt := none
    nextAttemptAt := none, occupiesConcurrency := false, resultDigest := none
    errorCode := none, errorDigest := none }

def unclaimedCancelled (fields : TaskNodeFields) : TaskNodeFields :=
  { fields with
    status := .cancelled, owner := none, leaseExpiresAt := none
    nextAttemptAt := none, occupiesConcurrency := false }

def projectionCancelled (fields : TaskNodeFields) : TaskNodeFields :=
  { fields with
    status := .cancelled, errorCode := none, errorDigest := none
    errorOrigin := none, safeErrorDetails := [] }

def succeeded (fields : TaskNodeFields) (resultDigest : String)
    (executionId : Option String) : TaskNodeFields :=
  { fields with
    status := .succeeded, owner := none, leaseExpiresAt := none
    resultDigest := some resultDigest, errorCode := none, errorDigest := none
    executionId := executionId, nextAttemptAt := none
    occupiesConcurrency := false }

def failed (fields : TaskNodeFields) (code digest : String)
    (executionId : Option String) (origin : ErrorOrigin) (details : JsonMapping) : TaskNodeFields :=
  { fields with
    status := .failed, owner := none, leaseExpiresAt := none
    resultDigest := none, errorCode := some code, errorDigest := some digest
    executionId := executionId, errorOrigin := some origin
    safeErrorDetails := details, nextAttemptAt := none
    occupiesConcurrency := false }

def Live (now : Time) (fields : TaskNodeFields) : Prop :=
  fields.status = .running ∧ ∃ expires ∈ fields.leaseExpiresAt, now < expires

def Active (now : Time) (fields : TaskNodeFields) : Prop :=
  fields.status = .waiting ∧ fields.occupiesConcurrency = true ∨ fields.Live now

instance (now : Time) : DecidablePred (Active now) := fun fields => by
  unfold Active Live
  infer_instance

def Resolves (fields : TaskNodeFields) (executionId : Option String) : Prop :=
  fields.executionId = none ∨ executionId = fields.executionId

section

variable (now : Time) (writes : TaskNodeFields → Prop)

/-- `writes` tells which rows an operation may leave that hands off, requeues, marks or
fails a node. -/
inductive Move : TaskNodeFields → TaskNodeFields → Prop
  | renew {fields} (expires : Time) (live : fields.Live now) : Move fields (fields.renewed expires)
  | bind (executionId : String) (live : fields.Live now)
      (claimed : 1 ≤ fields.fence) (unbound : fields.executionId = none) :
      Move fields (fields.bound executionId)
  | handOff (executionId : String) (occupies : Bool) (live : fields.Live now)
      (claimed : 1 ≤ fields.fence) (resolves : fields.Resolves (some executionId))
      (written : writes (fields.handedOff executionId occupies)) :
      Move fields (fields.handedOff executionId occupies)
  | retry (nextAttemptAt : Time) (live : fields.Live now)
      (bound : fields.executionId ≠ none) : Move fields (fields.retried nextAttemptAt)
  | waitingRetry (nextAttemptAt : Time) (waiting : fields.status = .waiting)
      (written : writes (fields.waitingRetried nextAttemptAt)) :
      Move fields (fields.waitingRetried nextAttemptAt)
  | markRecovery (code digest : String) (executionId : Option String) (origin : ErrorOrigin)
      (details : JsonMapping) (unfinished : ¬fields.status.Terminal) (claimed : 1 ≤ fields.fence)
      (resolves : fields.Resolves executionId)
      (written : writes (fields.recoveryMarked code digest executionId origin details)) :
      Move fields (fields.recoveryMarked code digest executionId origin details)
  | recover (recovering : fields.status = .recoveryRequired) (written : writes fields.recovered) :
      Move fields fields.recovered
  | requeueRecovery (nextAttemptAt : Option Time) (recovering : fields.status = .recoveryRequired)
      (bound : fields.executionId ≠ none)
      (written : writes (fields.recoveryRequeued fields.executionId nextAttemptAt)) :
      Move fields (fields.recoveryRequeued fields.executionId nextAttemptAt)
  | expire (expires : Time) (running : fields.status = .running)
      (lease : fields.leaseExpiresAt = some expires) (past : expires ≤ now) :
      Move fields fields.expired
  | block (unfinished : ¬fields.status.Terminal)
      (unbound : fields.executionId = none) : Move fields fields.dependencyBlocked
  | ready (pending : fields.status = .pending)
      (unbound : fields.executionId = none) : Move fields (fields.withStatus .ready)
  | unready (ready : fields.status = .ready)
      (unbound : fields.executionId = none) : Move fields (fields.withStatus .pending)
  | cancel {fields} (unfinished : ¬fields.status.Terminal) : Move fields fields.cancelled
  | cancelUnclaimed (unfinished : ¬fields.status.Terminal) : Move fields fields.unclaimedCancelled
  | cancelProjection (recovering : fields.status = .recoveryRequired) :
      Move fields fields.projectionCancelled
  | fail (code digest : String) (executionId : Option String) (origin : ErrorOrigin)
      (details : JsonMapping) (unfinished : ¬fields.status.Terminal) (claimed : 1 ≤ fields.fence)
      (resolves : fields.Resolves executionId)
      (written : writes (fields.failed code digest executionId origin details)) :
      Move fields (fields.failed code digest executionId origin details)

abbrev Moves : TaskNodeFields → TaskNodeFields → Prop := Relation.ReflTransGen (Move now writes)

end

variable {now time : Time} {before after : TaskNodeFields}

theorem Move.unfinished (move : Move now writes before after) : ¬before.status.Terminal := by
  cases move with
  | renew _ live | bind _ live | handOff _ _ live | retry _ live =>
    simp [live.1, TaskStatus.Terminal]
  | waitingRetry _ status | recover status | requeueRecovery _ status
  | ready status | unready status | cancelProjection status => simp [status, TaskStatus.Terminal]
  | expire _ running => simp [running, TaskStatus.Terminal]
  | markRecovery _ _ _ _ _ unfinished | block unfinished | cancel unfinished
  | cancelUnclaimed unfinished | fail _ _ _ _ _ unfinished => exact unfinished

theorem Move.fence_eq (move : Move now writes before after) : after.fence = before.fence := by
  cases move <;> rfl

theorem Resolves.kept {executionId : Option String} (resolves : before.Resolves executionId)
    (bound : before.executionId = some execution) : executionId = some execution := by
  rcases resolves with unbound | same
  · rw [bound] at unbound
    cases unbound
  · rw [same, bound]

section

variable (move : Move now writes before after)
include move

theorem Move.execution_kept
    (bound : before.executionId = some execution) : after.executionId = some execution := by
  cases move with
  | bind _ _ _ unbound =>
    rw [bound] at unbound
    cases unbound
  | handOff _ _ _ _ resolves | markRecovery _ _ _ _ _ _ _ resolves
  | fail _ _ _ _ _ _ _ resolves => exact resolves.kept bound
  | _ => exact bound

theorem Move.claimed_of_bound (claimed : before.executionId ≠ none → 1 ≤ before.fence)
    (bound : after.executionId ≠ none) : 1 ≤ after.fence := by
  rw [move.fence_eq]
  cases move with
  | bind _ _ positive | handOff _ _ _ positive | markRecovery _ _ _ _ _ _ positive
  | fail _ _ _ _ _ _ positive => exact positive
  | _ => exact claimed bound

theorem Move.active (active : after.Active time) : before.Active now := by
  cases move with
  | renew _ live | bind _ live | handOff _ _ live | retry _ live => exact .inr live
  | recover | requeueRecovery | cancelProjection | ready | unready | expire
  | waitingRetry | markRecovery | block | cancel | cancelUnclaimed | fail =>
    exfalso
    simp only [Active, Live, recovered, recoveryRequeued, projectionCancelled,
      withStatus, expired, waitingRetried, retried, recoveryMarked,
      dependencyBlocked, cancelled, unclaimedCancelled, failed] at active
    grind

theorem Move.not_succeeded : after.status ≠ .succeeded := by
  intro status
  cases move with
  | renew _ live | bind _ live =>
    have running : before.status = .running := live.1
    rw [show before.status = .succeeded from status] at running
    cases running
  | recover =>
    simp only [recovered] at status
    split at status <;> cases status
  | _ => cases status

end

section

variable (moves : Moves now writes before after)
include moves

theorem Moves.eq_of_terminal (terminal : before.status.Terminal) : after = before := by
  rcases Relation.ReflTransGen.cases_head moves with same | ⟨_, move, _⟩
  · exact same.symm
  · exact absurd terminal move.unfinished

theorem Moves.fence_eq : after.fence = before.fence := by
  induction moves with
  | refl => rfl
  | tail _ move ih => rw [move.fence_eq, ih]

theorem Moves.execution_kept
    (bound : before.executionId = some execution) : after.executionId = some execution := by
  induction moves with
  | refl => exact bound
  | tail _ move ih => exact move.execution_kept ih

theorem Moves.claimed_of_bound (claimed : before.executionId ≠ none → 1 ≤ before.fence)
    (bound : after.executionId ≠ none) : 1 ≤ after.fence := by
  induction moves with
  | refl => exact claimed bound
  | tail _ move ih => exact move.claimed_of_bound ih bound

theorem Moves.eq_of_succeeded (succeeded : after.status = .succeeded) : after = before := by
  rcases Relation.ReflTransGen.cases_tail moves with same | ⟨_, _, move⟩
  · exact same
  · exact absurd succeeded move.not_succeeded

end

theorem Active.mono (active : before.Active time) (earlier : now ≤ time) : before.Active now := by
  rcases active with waiting | ⟨running, expires, lease, live⟩
  · exact .inl waiting
  · exact .inr ⟨running, expires, lease, lt_of_le_of_lt earlier live⟩

theorem Moves.active (moves : Moves now writes before after) (later : now ≤ time)
    (active : after.Active time) : before.Active now := by
  induction moves using Relation.ReflTransGen.head_induction_on with
  | refl => exact active.mono later
  | head move _ ih => exact move.active ih

end Linktools.Task.TaskNodeFields

namespace Linktools.Persistence

open Linktools.Core Library Linktools.Task List

def NodeEntry.replace (entry : NodeEntry) (fields : TaskNodeFields) : Except Raised NodeEntry := do
  let state ← TaskNodeState.build fields
  return { entry with state := state }

theorem NodeEntry.replace_eq_ok : NodeEntry.replace entry fields = .ok value ↔
      value.definition = entry.definition ∧ value.state.toTaskNodeFields = fields := by
  simp only [NodeEntry.replace, bind_eq_ok, pure_eq_ok, TaskNodeState.build_eq_ok]
  constructor
  · rintro ⟨state, built, rfl⟩
    exact ⟨rfl, built⟩
  · rintro ⟨definition, built⟩
    refine ⟨value.state, built, ?_⟩
    cases value
    cases definition
    rfl

def expireLease (now : Option Time) (entry : NodeEntry) : Except Raised NodeEntry :=
  if entry.status = .running ∧ ∃ reading ∈ now, ∃ expires ∈ entry.state.leaseExpiresAt,
        expires ≤ reading then
    NodeEntry.replace entry entry.state.expired
  else .ok entry

def followDependencies (definition : Option TaskNode)
    (statuses : String → TaskStatus) (entry : NodeEntry) : Except Raised NodeEntry :=
  if entry.status.Terminal ∨ entry.status = .recoveryRequired ∨ entry.state.executionId ≠ none then
    .ok entry
  else do
    let definition ← orRaise definition .integrity
    refuse (definition.dependencies ≠ entry.definition.dependencies) .integrity
    let dependencyStatus := definition.dependencyStatus statuses
    if dependencyStatus = .blocked then
      NodeEntry.replace entry entry.state.dependencyBlocked
    else if dependencyStatus = .ready ∧ entry.status = .pending then
      NodeEntry.replace entry (entry.state.withStatus .ready)
    else if dependencyStatus = .pending ∧ entry.status = .ready then
      NodeEntry.replace entry (entry.state.withStatus .pending)
    else return entry

def statusIn (values : String → Option NodeEntry) (nodeId : String) : TaskStatus :=
  match values nodeId with
  | some entry => entry.status
  | none => .pending

def reconcileNode (definitions : List TaskNode) (now : Option Time)
    (nodeId : String) (values : String → Option NodeEntry) : Except Raised (Option NodeEntry) := do
  let entry ← orRaise (values nodeId) .integrity
  refuse (entry.status = .running ∧ (entry.state.owner = none ∨
    entry.state.fence < 1 ∨ entry.state.leaseExpiresAt = none)) .integrity
  let entry ← expireLease now entry
  let entry ← followDependencies (rowAt TaskNode.nodeId definitions nodeId) (statusIn values) entry
  return some entry

def reconciledTaskNodes (nodes : List NodeEntry) (definitions : List TaskNode)
    (now : Option Time := none) : Except Raised (List NodeEntry) := do
  let ids := nodes.map NodeEntry.nodeId
  refuse (¬ids.Nodup ∨ ¬((∀ nodeId ∈ ids, nodeId ∈ definitions.map TaskNode.nodeId) ∧
      ∀ definition ∈ definitions, definition.nodeId ∈ ids)) .integrity
  refuse (∃ node ∈ nodes, ∃ dependency ∈ node.definition.dependencies,
    dependency ∉ ids) .integrity
  let order := topologicalOrder ids (dependenciesOf (nodes.map NodeEntry.definition))
  refuse (order.length ≠ nodes.length) .integrity
  let values ← settle (reconcileNode definitions now) order (rowAt NodeEntry.nodeId nodes)
  return nodes.map fun node => (values node.nodeId).getD node

variable {now : Option Time} {nodes next : List NodeEntry} {definition : Option TaskNode}
  {statuses : String → TaskStatus} {entry node value : NodeEntry}

structure Reconciled (now : Option Time) (statuses : String → TaskStatus)
    (node value : NodeEntry) : Prop where
  running_shape : ¬(node.status = .running ∧ (node.state.owner = none ∨
    node.state.fence < 1 ∨ node.state.leaseExpiresAt = none))
  steps : ∃ expired, expireLease now node = .ok expired ∧
    followDependencies (some node.definition) statuses expired = .ok value

theorem followDependencies_congr (agree : ∀ found, definition = some found →
      ∀ dependency ∈ found.dependencies, left dependency = right dependency) :
    followDependencies definition left entry = followDependencies definition right entry := by
  cases definition with
  | none => rfl
  | some found =>
    have same := TaskNode.dependencyStatus_congr (agree found rfl)
    simp only [followDependencies, orRaise, ok_bind, same]

theorem followDependencies_cases
    (followed : followDependencies definition statuses entry = .ok value) : value = entry ∨
    (¬entry.status.Terminal ∧ entry.status ≠ .recoveryRequired ∧
      entry.state.executionId = none ∧ value.definition = entry.definition ∧
      ∃ found, definition = some found ∧ (found.dependencyStatus statuses = .blocked ∧
            value.state.toTaskNodeFields = entry.state.dependencyBlocked ∨
          found.dependencyStatus statuses = .ready ∧ entry.status = .pending ∧
            value.state.toTaskNodeFields = entry.state.withStatus .ready ∨
          found.dependencyStatus statuses = .pending ∧ entry.status = .ready ∧
            value.state.toTaskNodeFields = entry.state.withStatus .pending)) := by
  unfold followDependencies at followed
  split at followed
  case isTrue =>
    cases followed
    exact .inl rfl
  case isFalse unsettled =>
    simp only [not_or, not_not] at unsettled
    obtain ⟨unfinished, stable, unbound⟩ := unsettled
    simp only [bind_eq_ok, orRaise_eq_ok, refuse_eq_ok] at followed
    obtain ⟨found, given, _, _, followed⟩ := followed
    split at followed
    case isTrue blocked =>
      obtain ⟨same, fields⟩ := NodeEntry.replace_eq_ok.mp followed
      exact .inr ⟨unfinished, stable, unbound, same, found, given, .inl ⟨blocked, fields⟩⟩
    case isFalse =>
      split at followed
      case isTrue ready =>
        obtain ⟨same, fields⟩ := NodeEntry.replace_eq_ok.mp followed
        exact .inr ⟨unfinished, stable, unbound, same, found, given,
          .inr (.inl ⟨ready.1, ready.2, fields⟩)⟩
      case isFalse =>
        split at followed
        case isTrue unready =>
          obtain ⟨same, fields⟩ := NodeEntry.replace_eq_ok.mp followed
          exact .inr ⟨unfinished, stable, unbound, same, found, given,
            .inr (.inr ⟨unready.1, unready.2, fields⟩)⟩
        case isFalse =>
          cases followed
          exact .inl rfl

theorem expireLease_cases (expired : expireLease now entry = .ok value) : value = entry ∨
    (entry.status = .running ∧ value.definition = entry.definition ∧
      value.state.toTaskNodeFields = entry.state.expired ∧
      ∃ reading ∈ now, ∃ expires ∈ entry.state.leaseExpiresAt, expires ≤ reading) := by
  unfold expireLease at expired
  split at expired
  case isTrue lapsed =>
    obtain ⟨same, fields⟩ := NodeEntry.replace_eq_ok.mp expired
    exact .inr ⟨lapsed.1, same, fields, lapsed.2⟩
  case isFalse =>
    cases expired
    exact .inl rfl

theorem expireLease_moves (current : ∀ reading ∈ now, reading = time)
    (expired : expireLease now entry = .ok value) :
    TaskNodeFields.Moves time writes entry.state.toTaskNodeFields value.state.toTaskNodeFields := by
  rcases expireLease_cases expired with
    rfl | ⟨running, _, fields, reading, given, expires, lease, past⟩
  · exact .refl
  · rw [current reading given] at past
    rw [fields]
    exact .single (.expire expires running lease past)

theorem followDependencies_moves
    (followed : followDependencies definition statuses entry = .ok value) :
    TaskNodeFields.Moves time writes entry.state.toTaskNodeFields value.state.toTaskNodeFields := by
  rcases followDependencies_cases followed with
    rfl | ⟨unfinished, _, unbound, _, _, _, ⟨_, fields⟩ | ⟨_, pending, fields⟩ | ⟨_, ready, fields⟩⟩
  · exact .refl
  · rw [fields]
    exact .single (.block unfinished unbound)
  · rw [fields]
    exact .single (.ready pending unbound)
  · rw [fields]
    exact .single (.unready ready unbound)

theorem Reconciled.definition_eq (reconciled : Reconciled now statuses node value) :
    value.definition = node.definition := by
  obtain ⟨_, expired, expiredOk, followed⟩ := reconciled
  have first : expired.definition = node.definition := by
    rcases expireLease_cases expiredOk with rfl | ⟨_, same, _⟩
    · rfl
    · exact same
  rcases followDependencies_cases followed with rfl | ⟨_, _, _, same, _⟩
  · exact first
  · rw [same, first]

theorem Reconciled.nodeId_eq (reconciled : Reconciled now statuses node value) :
    value.nodeId = node.nodeId := by
  rw [NodeEntry.nodeId, NodeEntry.nodeId, reconciled.definition_eq]

theorem Reconciled.moves (current : ∀ reading ∈ now, reading = time)
    (reconciled : Reconciled now statuses node value) :
    TaskNodeFields.Moves time writes node.state.toTaskNodeFields value.state.toTaskNodeFields := by
  obtain ⟨_, expired, expiredOk, followed⟩ := reconciled
  exact (expireLease_moves current expiredOk).trans (followDependencies_moves followed)

theorem Reconciled.eq_of_bound (reconciled : Reconciled none statuses node value)
    (bound : node.state.executionId ≠ none) : value = node := by
  obtain ⟨_, expired, expiredOk, followed⟩ := reconciled
  rcases expireLease_cases expiredOk with rfl | ⟨_, _, _, _, given, _⟩
  · rcases followDependencies_cases followed with same | ⟨_, _, unbound, _⟩
    · exact same
    · exact absurd unbound bound
  · cases given

theorem reconcileNode_local (definitions : List TaskNode) :
    LocalRule (dependenciesOf definitions) (reconcileNode definitions now) := by
  intro nodeId left right own agree
  unfold reconcileNode
  rw [own]
  have same : ∀ entry : NodeEntry,
      followDependencies (rowAt TaskNode.nodeId definitions nodeId) (statusIn left) entry =
      followDependencies (rowAt TaskNode.nodeId definitions nodeId) (statusIn right) entry := by
    intro entry
    apply followDependencies_congr
    intro found given dependency inside
    have depends : dependency ∈ dependenciesOf definitions nodeId := by
      simpa only [dependenciesOf, given] using inside
    simp only [statusIn, agree dependency depends]
  simp only [same]

theorem Reconciled.congr
    (agree : ∀ dependency ∈ node.definition.dependencies, left dependency = right dependency)
    (reconciled : Reconciled now left node value) : Reconciled now right node value := by
  obtain ⟨shape, expired, expiredOk, followed⟩ := reconciled
  refine ⟨shape, expired, expiredOk, ?_⟩
  rw [← followed]
  apply followDependencies_congr
  rintro found ⟨⟩ dependency inside
  exact (agree dependency inside).symm

theorem reconcileNode_ok (present : values node.nodeId = some node)
    (defined : rowAt TaskNode.nodeId definitions node.nodeId = some node.definition)
    (done : reconcileNode definitions now node.nodeId values = .ok result) :
    ∃ value, result = some value ∧ Reconciled now (statusIn values) node value := by
  simp only [reconcileNode, bind_eq_ok, orRaise_eq_ok, refuse_eq_ok, pure_eq_ok,
    present, defined, Option.some.injEq] at done
  obtain ⟨_, rfl, _, shape, expired, expiredOk, value, followed, rfl⟩ := done
  exact ⟨value, rfl, shape, expired, expiredOk, followed⟩

/-- Every row is decided from its own start and the final statuses. -/
theorem reconciledTaskNodes_ok
    (done : reconciledTaskNodes nodes (nodes.map NodeEntry.definition) now = .ok next) :
    (nodes.map NodeEntry.nodeId).Nodup ∧ List.Forall₂
      (Reconciled now (statusIn (rowAt NodeEntry.nodeId next))) nodes next := by
  simp only [reconciledTaskNodes, bind_eq_ok, refuse_eq_ok, pure_eq_ok, not_or,
    not_not, not_exists, not_and] at done
  obtain ⟨_, ⟨distinct, _⟩, _, closed, _, complete, values, settled, rfl⟩ := done
  have definitionIds := map_nodeId_definition nodes
  have distinctDefinitions : ((nodes.map NodeEntry.definition).map TaskNode.nodeId).Nodup := by
    rwa [definitionIds]
  have each : ∀ nodeId ∈ nodes.map NodeEntry.nodeId,
      (dependenciesOf (nodes.map NodeEntry.definition) nodeId).Nodup :=
    fun nodeId _ => dependenciesOf_nodup _ nodeId
  obtain ⟨orderDistinct, _, first⟩ := topologicalOrder_invariant distinct each
  have members := topologicalOrder_perm distinct each (by simpa using complete)
  have ordered := first.not_later orderDistinct
  have ownDependencies : ∀ node ∈ nodes,
      dependenciesOf (nodes.map NodeEntry.definition) node.nodeId =
        node.definition.dependencies := fun node member =>
    dependenciesOf_mem distinctDefinitions (mem_map_of_mem member)
  have decided : ∀ node ∈ nodes, ∃ value, values node.nodeId = some value ∧
      Reconciled now (statusIn values) node value := by
    intro node member
    have inOrder := members.mem_iff.mpr (mem_map_of_mem member)
    have rule := settle_rule (reconcileNode_local _) orderDistinct ordered settled
      node.nodeId inOrder
    rw [rowAt_of_mem distinct member] at rule
    obtain ⟨value, same, reconciled⟩ := reconcileNode_ok
      (Function.update_self _ _ _)
      (rowAt_of_mem distinctDefinitions (mem_map_of_mem member)) rule
    refine ⟨value, same, reconciled.congr ?_⟩
    intro dependency inside
    obtain ⟨before, after, split⟩ := append_of_mem inOrder
    have later := ordered before node.nodeId after split dependency
      (by rwa [ownDependencies node member])
    have different : dependency ≠ node.nodeId := by
      rintro rfl
      exact later (by simp)
    simp only [statusIn, Function.update_of_ne different]
  have final : ∀ node ∈ nodes, rowAt NodeEntry.nodeId (nodes.map fun node =>
        (values node.nodeId).getD node) node.nodeId = values node.nodeId := by
    intro node member
    obtain ⟨value, same, reconciled⟩ := decided node member
    have sameIds : (nodes.map fun node =>
        (values node.nodeId).getD node).map NodeEntry.nodeId = nodes.map NodeEntry.nodeId := by
      rw [map_map]
      apply map_congr_left
      intro found inside
      obtain ⟨_, foundValue, foundReconciled⟩ := decided found inside
      simp only [Function.comp_apply, foundValue, Option.getD_some,
        NodeEntry.nodeId, foundReconciled.definition_eq]
    have inside : value ∈ nodes.map fun node =>
        (values node.nodeId).getD node :=
      mem_map.mpr ⟨node, member, by rw [same, Option.getD_some]⟩
    have found := rowAt_of_mem (sameIds ▸ distinct) inside
    rw [same, ← found, NodeEntry.nodeId, NodeEntry.nodeId, reconciled.definition_eq]
  refine ⟨distinct, forall₂_map_right ?_⟩
  intro node member
  obtain ⟨value, same, reconciled⟩ := decided node member
  rw [same, Option.getD_some]
  apply reconciled.congr
  intro dependency inside
  obtain ⟨found, foundMember, rfl⟩ := mem_map.mp (closed node member dependency inside)
  simp only [statusIn, final found foundMember]

end Linktools.Persistence
