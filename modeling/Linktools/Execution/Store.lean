import Linktools.Library.Versions
import Linktools.Persistence.TaskRecords

namespace Linktools.Execution

open Linktools.Core Library Persistence Function List

/-! The durable records of executions, of their starts and of their events. -/

inductive IdempotencyStatus
  | reserved
  | started
  | startUnknown
  | completed
  | failed
  | cancelled
deriving DecidableEq

inductive ExecutionEventType
  | executionStarted
  | executionStartUnknown
  | executionRecoveryRequired
  | executionResumed
  | executionSucceeded
  | executionFailed
  | executionCancelled
  | cancelRequested
  | approvalRequested
  | externalRequested
  | modelRequestStarted
  | modelRequestFinished
  | assistantPartCompleted
  | toolCallStarted
  | toolCallFinished
deriving DecidableEq

def ExecutionEventType.value : ExecutionEventType → String
  | .executionStarted => "EXECUTION_STARTED"
  | .executionStartUnknown => "EXECUTION_START_UNKNOWN"
  | .executionRecoveryRequired => "EXECUTION_RECOVERY_REQUIRED"
  | .executionResumed => "EXECUTION_RESUMED"
  | .executionSucceeded => "EXECUTION_SUCCEEDED"
  | .executionFailed => "EXECUTION_FAILED"
  | .executionCancelled => "EXECUTION_CANCELLED"
  | .cancelRequested => "CANCEL_REQUESTED"
  | .approvalRequested => "APPROVAL_REQUESTED"
  | .externalRequested => "EXTERNAL_REQUESTED"
  | .modelRequestStarted => "MODEL_REQUEST_STARTED"
  | .modelRequestFinished => "MODEL_REQUEST_FINISHED"
  | .assistantPartCompleted => "ASSISTANT_PART_COMPLETED"
  | .toolCallStarted => "TOOL_CALL_STARTED"
  | .toolCallFinished => "TOOL_CALL_FINISHED"

/-- A mapping from field names to the serialized values, in the order of the names. -/
abbrev Payload := List (String × String)

structure ExecutionEventAppend where
  eventType : String
  payload : Payload

structure ExecutionEventRecord where
  eventSeq : Nat
  eventType : String
  payload : Payload
deriving DecidableEq

inductive RecoveryHandoffPhase
  | none
  | prepared
  | completed
deriving DecidableEq

inductive ExecutionRecoveryState
  | admitted
  | active
  | waiting
  | handoff
  | completed
deriving DecidableEq

/-- The pending tools and the terminal hand-off in their canonical serialization. -/
structure ExecutionRecoveryDetail where
  agentRunId : Option String := none
  sourceAgentRunId : Option String := none
  pendingTools : Option String := none
  handoffPhase : RecoveryHandoffPhase := .none
  terminalHandoff : Option String := none
  unprepared : handoffPhase = .none → terminalHandoff = none := by decide
  prepared : handoffPhase = .prepared → terminalHandoff.isSome := by decide
  settled : handoffPhase ≠ .none → pendingTools = none := by decide
deriving DecidableEq

structure StoredOutput where
  digest : String
  content : String
deriving DecidableEq

/-- `envelope` holds the stop reason, the usage and the creation time. -/
structure ResultRecord where
  output : Option StoredOutput
  envelope : String
deriving DecidableEq

inductive ExecutionBinding
  | agent (bindingDigest : String)
  | task (bindingDigest : String) (maxAttempts : Nat)
deriving DecidableEq

def ExecutionBinding.isAgent : ExecutionBinding → Bool
  | .agent _ => true
  | .task _ _ => false

structure TaskAttempt where
  attempt : Nat := 0
  deadlineAt : Option Time := none
  nextAttemptAt : Option Time := none
deriving DecidableEq

/-- The fields of an execution record.  `profile` is the canonical serialization of the
fields that are fixed at admission and read by no operation. -/
@[ext]
structure ExecutionFields where
  executionId : String
  sessionId : Option String
  parentExecutionId : Option String
  rootExecutionId : String
  binding : ExecutionBinding
  budgetScopeId : Option String
  restartCheckpoints : Bool
  durableTrace : Bool
  conversation : Bool
  profile : String
  status : ExecutionStatus
  revision : Nat
  eventSeq : Nat
  agentRunSeq : Nat
  errorCode : Option String
  safeErrorDetails : Payload
  errorDiagnostics : Option String
  updatedAt : Time
  startedAt : Option Time
  producerGeneration : Nat
  producerClaimId : Option String
  result : Option ResultRecord
  inputContext : Option String
  task : TaskAttempt
  dependencyHoldIds : List String
  retentionClosed : Bool
  recovery : Option ExecutionRecoveryDetail
  historySealDigest : Option String
deriving DecidableEq

def TerminalStatus (status : ExecutionStatus) : Prop :=
  status = .succeeded ∨ status = .failed ∨ status = .cancelled

instance : DecidablePred TerminalStatus := fun status => by
  unfold TerminalStatus
  infer_instance

namespace ExecutionFields

variable (fields : ExecutionFields)

/-- The checks of `__post_init__` that read more than the admission profile. -/
def check : Except Raised Unit := do
  refuse (fields.producerClaimId.any fun claim =>
    claim = "" ∨ fields.producerGeneration < 1) (.valueError "execution producer claim is invalid")
  refuse (fields.historySealDigest.any fun digest =>
    fields.durableTrace = false ∨ digest.length ≠ 64)
    (.valueError "execution history seal reference is invalid")
  match fields.binding with
  | .agent _ => do
    refuse (fields.status = .waitingDeferred ∧
      fields.recovery.bind ExecutionRecoveryDetail.pendingTools = none)
      (.valueError "waiting agent execution requires deferred continuation")
    refuse (fields.task ≠ {}) (.valueError "agent execution cannot carry task attempt state")
  | .task _ maxAttempts => do
    refuse (fields.sessionId ≠ none ∨ fields.inputContext ≠ none ∨
      fields.parentExecutionId ≠ none ∨ fields.agentRunSeq ≠ 0)
      (.valueError "task execution carries agent-only state")
    refuse (maxAttempts < fields.task.attempt) (.valueError "task execution attempt is invalid")
  refuse (fields.dependencyHoldIds.any blank ∨ ¬fields.dependencyHoldIds.Pairwise (· < ·))
    (.valueError "execution dependency holds must be sorted and unique")
  refuse (fields.status ≠ .failed ∧ fields.errorDiagnostics ≠ none)
    (.valueError "only failed execution can carry error diagnostics")

def recoveryState : Option ExecutionRecoveryState :=
  fields.recovery.map fun detail =>
    if detail.handoffPhase = .prepared then .handoff
    else if detail.handoffPhase = .completed ∨ TerminalStatus fields.status then .completed
    else if fields.status = .waitingDeferred then .waiting
    else if detail.agentRunId = none then .admitted
    else .active

end ExecutionFields

structure ExecutionRecord extends ExecutionFields where
  checked : toExecutionFields.check = .ok ()

namespace ExecutionRecord

theorem ext {left right : ExecutionRecord}
    (same : left.toExecutionFields = right.toExecutionFields) : left = right := by
  cases left
  cases right
  cases same
  rfl

instance : DecidableEq ExecutionRecord := fun left right =>
  decidable_of_iff (left.toExecutionFields = right.toExecutionFields)
    ⟨ext, fun same => congrArg toExecutionFields same⟩

def build (fields : ExecutionFields) : Except Raised ExecutionRecord :=
  match checked : fields.check with
  | .ok () => .ok ⟨fields, checked⟩
  | .error raised => .error raised

theorem build_eq_ok : build fields = .ok record ↔ record.toExecutionFields = fields := by
  unfold build
  split
  case h_1 checked =>
    constructor
    · intro built
      cases built
      rfl
    · intro same
      subst same
      rfl
  case h_2 raised failed =>
    constructor
    · intro built
      cases built
    · intro same
      subst same
      cases record.checked.symm.trans failed

end ExecutionRecord

structure IdempotencyRecord where
  scope : String
  idempotencyKeyDigest : String
  requestDigest : String
  resourceKind : ResourceKind
  resourceId : String
  status : IdempotencyStatus
  resultDigest : Option String
  errorCode : Option String
  createdAt : Time
  updatedAt : Time
deriving DecidableEq

def executionKind : ResourceKind := .other "EXECUTION"

namespace IdempotencyRecord

def identityKey (record : IdempotencyRecord) : String × String :=
  (record.scope, record.idempotencyKeyDigest)

def SameIdentity (left right : IdempotencyRecord) : Prop :=
  left.scope = right.scope ∧ left.idempotencyKeyDigest = right.idempotencyKeyDigest ∧
    left.requestDigest = right.requestDigest ∧ left.resourceKind = right.resourceKind

instance (left right : IdempotencyRecord) : Decidable (SameIdentity left right) := by
  unfold SameIdentity
  infer_instance

end IdempotencyRecord

structure ExecutionHistorySealRecord where
  executionId : String
  sealDigest : String
deriving DecidableEq

structure RunBudget where
  limits : String
deriving DecidableEq

structure ExecutionStore where
  executions : String → Option (Observed ExecutionRecord) := fun _ => none
  events : String → List ExecutionEventRecord := fun _ => []
  idempotency : List (Observed IdempotencyRecord) := []
  seals : String → Option ExecutionHistorySealRecord := fun _ => none
  budgets : String → Option RunBudget := fun _ => none
  operations : String → Option OperationLedgerRecord := fun _ => none

def idempotencyKey (row : Observed IdempotencyRecord) : String × String :=
  row.value.identityKey

namespace ExecutionStore

variable (store : ExecutionStore)

def loadExecution (executionId : String) (missing : Raised) :
    Except Raised (Observed ExecutionRecord) := do
  let row ← orRaise (store.executions executionId) missing
  refuse (row.value.executionId ≠ executionId) .integrity
  return row

def putExecution (row : Observed ExecutionRecord) : ExecutionStore :=
  { store with executions := update store.executions row.value.executionId (some row) }

def insertExecution (record : ExecutionRecord) : Except Raised ExecutionStore := do
  refuse ((store.executions record.executionId).isSome) .conflict
  return store.putExecution ⟨record, 0⟩

/-- `_replace_checked` with the candidate's next storage revision. -/
def replaceChecked (candidate : ExecutionRecord) (expectedStorageRevision : Nat) :
    Except Raised ExecutionStore := do
  let current ← orRaise (store.executions candidate.executionId) .conflict
  refuse (current.storageRevision ≠ expectedStorageRevision) .conflict
  refuse (candidate.sessionId ≠ current.value.sessionId ∨
    candidate.parentExecutionId ≠ current.value.parentExecutionId)
    (.valueError "record physical identity cannot change")
  return store.putExecution ⟨candidate, expectedStorageRevision + 1⟩

/-- The storage revision of a record that is guarded without a change. -/
def guardRecordRevision (executionId : String) (expectedStorageRevision : Nat) :
    Option (Nat × ExecutionStore) :=
  match store.executions executionId with
  | none => none
  | some current =>
    if current.storageRevision ≠ expectedStorageRevision then none
    else
      let revision := expectedStorageRevision + 1
      some (revision, { store with
        executions := update store.executions executionId
          (some ⟨current.value, revision⟩) })

def guardRecord (executionId : String) (expectedStorageRevision : Nat) :
    Option (Observed ExecutionRecord × ExecutionStore) :=
  (store.guardRecordRevision executionId expectedStorageRevision).bind fun (_, guarded) =>
    (guarded.executions executionId).map fun row => (row, guarded)

def insertFact (executionId : String) (fact : ExecutionEventRecord) :
    Except Raised ExecutionStore := do
  refuse ((store.events executionId).any fun stored => stored.eventSeq = fact.eventSeq) .conflict
  return { store with
    events := update store.events executionId (store.events executionId ++ [fact]) }

def insertFacts (executionId : String) (facts : List ExecutionEventRecord) :
    Except Raised ExecutionStore :=
  facts.foldlM (fun store fact => store.insertFact executionId fact) store

def idempotencyAt (identity : String × String) : Option (Observed IdempotencyRecord) :=
  rowAt idempotencyKey store.idempotency identity

def insertIdempotency (record : IdempotencyRecord) : Except Raised ExecutionStore := do
  refuse ((store.idempotencyAt record.identityKey).isSome) .conflict
  return { store with idempotency := store.idempotency ++ [⟨record, 0⟩] }

def replaceIdempotency (candidate : IdempotencyRecord) (expectedStorageRevision : Nat) :
    Except Raised ExecutionStore := do
  let current ← orRaise (store.idempotencyAt candidate.identityKey) .conflict
  refuse (current.storageRevision ≠ expectedStorageRevision) .conflict
  return { store with
    idempotency := rewriteAt idempotencyKey store.idempotency candidate.identityKey
      ⟨candidate, expectedStorageRevision + 1⟩ }

def idempotencyByResource (resourceId : String) : List IdempotencyRecord :=
  (store.idempotency.map Observed.value).filter fun record =>
    record.resourceKind = executionKind ∧ record.resourceId = resourceId

end ExecutionStore

def eventFacts (firstSequence : Nat) (events : List ExecutionEventAppend) :
    List ExecutionEventRecord :=
  (events.zipIdx firstSequence).map fun (event, sequence) =>
    ⟨sequence, event.eventType, event.payload⟩

variable {store after : ExecutionStore} {executionId : String} {record : ExecutionRecord}
  {row : Observed ExecutionRecord}

theorem eventFacts_append (left right : List ExecutionEventAppend) :
    eventFacts first (left ++ right) =
      eventFacts first left ++ eventFacts (first + left.length) right := by
  rw [eventFacts, zipIdx_append, map_append]
  rfl

theorem eventFacts_concat (events : List ExecutionEventAppend) (event : ExecutionEventAppend) :
    eventFacts (last + 1) (events ++ [event]) =
      eventFacts (last + 1) events ++
        [⟨last + (events.length + 1), event.eventType, event.payload⟩] := by
  rw [eventFacts_append, add_right_comm, add_assoc]
  rfl

theorem map_eventSeq_eventFacts :
    (eventFacts first events).map ExecutionEventRecord.eventSeq =
      range' first events.length := by
  induction events generalizing first with
  | nil => rfl
  | cons event rest ih =>
    rw [eventFacts, zipIdx_cons, map_cons, map_cons, ← eventFacts, ih,
      length_cons, range'_succ]

namespace ExecutionStore

theorem loadExecution_eq_ok : store.loadExecution executionId missing = .ok row ↔
      store.executions executionId = some row ∧ row.value.executionId = executionId := by
  simp only [loadExecution, bind_eq_ok, orRaise_eq_ok, refuse_eq_ok, pure_eq_ok, not_not]
  constructor
  · rintro ⟨found, stored, _, named, rfl⟩
    exact ⟨stored, named⟩
  · rintro ⟨stored, named⟩
    exact ⟨row, stored, (), named, rfl⟩

theorem insertExecution_ok (done : store.insertExecution record = .ok after) :
    store.executions record.executionId = none ∧ after = store.putExecution ⟨record, 0⟩ := by
  simp only [insertExecution, bind_eq_ok, refuse_eq_ok, pure_eq_ok, Bool.not_eq_true,
    Option.isSome_eq_false_iff, Option.isNone_iff_eq_none] at done
  obtain ⟨_, absent, rfl⟩ := done
  exact ⟨absent, rfl⟩

theorem replaceChecked_ok (done : store.replaceChecked record expected = .ok after) :
    ∃ current, store.executions record.executionId = some current ∧
      current.storageRevision = expected ∧ record.sessionId = current.value.sessionId ∧
      record.parentExecutionId = current.value.parentExecutionId ∧
      after = store.putExecution ⟨record, expected + 1⟩ := by
  simp only [replaceChecked, bind_eq_ok, orRaise_eq_ok, refuse_eq_ok, pure_eq_ok, not_not,
    not_or] at done
  obtain ⟨current, stored, _, same, _, ⟨session, parent⟩, rfl⟩ := done
  exact ⟨current, stored, same, session, parent, rfl⟩

theorem guardRecordRevision_ok
    (done : store.guardRecordRevision executionId expected = some (revision, after)) :
    ∃ current, store.executions executionId = some current ∧
      current.storageRevision = expected ∧ revision = expected + 1 ∧
      after = { store with
        executions := update store.executions executionId
          (some ⟨current.value, expected + 1⟩) } := by
  unfold guardRecordRevision at done
  split at done
  case h_1 => cases done
  case h_2 current stored =>
    split at done
    case isTrue => cases done
    case isFalse same =>
      cases done
      exact ⟨current, stored, not_not.mp same, rfl, rfl⟩

theorem guardRecord_ok (done : store.guardRecord executionId expected = some (row, after)) :
    ∃ current, store.executions executionId = some current ∧
      current.storageRevision = expected ∧ row = ⟨current.value, expected + 1⟩ ∧
      after = { store with
        executions := update store.executions executionId (some row) } := by
  simp only [guardRecord, Option.bind_eq_some_iff, Option.map_eq_some_iff, Prod.mk.injEq] at done
  obtain ⟨⟨revision, guarded⟩, guards, found, stored, rfl, rfl⟩ := done
  obtain ⟨current, present, same, _, rfl⟩ := guardRecordRevision_ok guards
  simp only [update_self, Option.some.injEq] at stored
  subst stored
  exact ⟨current, present, same, rfl, rfl⟩

theorem insertFacts_ok (done : store.insertFacts executionId facts = .ok after) :
    after = { store with
      events := update store.events executionId (store.events executionId ++ facts) } := by
  induction facts generalizing store with
  | nil =>
    cases done
    rw [append_nil, update_eq_self]
  | cons fact rest ih =>
    simp only [insertFacts, foldlM_cons, bind_eq_ok] at done
    obtain ⟨middle, inserted, later⟩ := done
    have continued := ih later
    simp only [insertFact, bind_eq_ok, refuse_eq_ok, pure_eq_ok] at inserted
    obtain ⟨_, _, rfl⟩ := inserted
    simp only [continued, update_self, update_idem, append_assoc,
      singleton_append]

variable {identity : IdempotencyRecord}

theorem insertIdempotency_ok (done : store.insertIdempotency identity = .ok after) :
    store.idempotencyAt identity.identityKey = none ∧
      after = { store with idempotency := store.idempotency ++ [⟨identity, 0⟩] } := by
  simp only [insertIdempotency, bind_eq_ok, refuse_eq_ok, pure_eq_ok, Bool.not_eq_true,
    Option.isSome_eq_false_iff, Option.isNone_iff_eq_none] at done
  obtain ⟨_, absent, rfl⟩ := done
  exact ⟨absent, rfl⟩

theorem replaceIdempotency_ok (done : store.replaceIdempotency identity expected = .ok after) :
    ∃ current, store.idempotencyAt identity.identityKey = some current ∧
      current.storageRevision = expected ∧
      after = { store with
        idempotency := rewriteAt idempotencyKey store.idempotency identity.identityKey
          ⟨identity, expected + 1⟩ } := by
  simp only [replaceIdempotency, bind_eq_ok, orRaise_eq_ok, refuse_eq_ok, pure_eq_ok,
    not_not] at done
  obtain ⟨current, stored, _, same, rfl⟩ := done
  exact ⟨current, stored, same, rfl⟩

end ExecutionStore

end Linktools.Execution
