import Linktools.Core.Json

namespace Linktools.Core

abbrev Time := Int

def Time.plusSeconds (now : Time) (seconds : Int) : Time :=
  now + seconds * 1000000

inductive TaskStatus
  | pending
  | ready
  | running
  | waiting
  | recoveryRequired
  | succeeded
  | failed
  | cancelled
  | blocked
deriving DecidableEq

namespace TaskStatus

def value : TaskStatus → String
  | .pending => "PENDING"
  | .ready => "READY"
  | .running => "RUNNING"
  | .waiting => "WAITING"
  | .recoveryRequired => "RECOVERY_REQUIRED"
  | .succeeded => "SUCCEEDED"
  | .failed => "FAILED"
  | .cancelled => "CANCELLED"
  | .blocked => "BLOCKED"

/-- Membership in `_TERMINAL_TASK_STATUSES`. -/
def Terminal (status : TaskStatus) : Prop :=
  status = .succeeded ∨ status = .failed ∨ status = .blocked ∨ status = .cancelled

instance : DecidablePred Terminal := fun status => by
  unfold Terminal
  infer_instance

end TaskStatus

inductive ExecutionStatus
  | pendingStart
  | started
  | finalizing
  | startUnknown
  | recoveryRequired
  | waitingDeferred
  | waitingRetry
  | cancelling
  | succeeded
  | failed
  | cancelled
deriving DecidableEq

inductive SessionStatus
  | «open»
  | closing
  | closed
  | cleanupRequired
deriving DecidableEq

inductive OperationStatus
  | pending
  | running
  | succeeded
  | failed
  | cancelled
  | effectUnknown
  | compacted
deriving DecidableEq

inductive ResourceKind
  | taskGraph
  | other (value : String)
deriving DecidableEq

inductive OperationKind
  | taskNode
  | taskCancel
  | taskRecover
  | executionRecover
  | other (value : String)
deriving DecidableEq

structure Principal where
  principalId : String
  tenantId : String
  kind : String
deriving DecidableEq

inductive ErrorCode
  | requestFieldInvalid
  | idempotencyConflict
  | storageOwnerMismatch
  | storageNotFound
  | storageConflict
  | storageIntegrityError
  | storageCommitUnknown
  | storageRecoveryRequired
  | storageVersionUnsupported
  | storageDependencyNotReady
  | tooManyPendingOperations
  | taskDagInvalid
  | taskFenceStale
  | taskOwnerConflict
  | taskResultConflict
  | taskTerminalConflict
  | taskNotReady
  | taskDependencyFailed
  | taskInputProjectionFailed
  | taskEffectUnknown
  | toolEffectUnknown
  | toolOperationConflict
  | toolResultConflict
  | toolRetryRequired
  | toolExecutionFailed
  | executionStartUnknown
  | authorizationDenied
  | agentIdInvalid
  | sessionBindingMismatch
  | sessionBusy
  | sessionConflict
  | sessionHistoryUnavailable
  | sessionRevisionConflict
  | sessionActiveExecutions
  | executionResultConflict
  | executionCancelled
  | executionUsageLimitExceeded
  | storageReadOnly
  | storageClosed
  | runtimeDependencyNotReady
  | internalError
  | cursorInvalid
  | pageLimitInvalid
  | idempotencyKeyInvalid
  | storageBatchDuplicateKey
  | storageUnavailable
  | storageCacheCorrupt
  | storageRevisionNotifyFailed
  | storageBatchPartialFailure
  | storageAtomicBatchUnsupported
  | evaluationEvidenceUnavailable
deriving DecidableEq

def ErrorCode.value : ErrorCode → String
  | .requestFieldInvalid => "REQUEST_FIELD_INVALID"
  | .idempotencyConflict => "IDEMPOTENCY_CONFLICT"
  | .storageOwnerMismatch => "STORAGE_OWNER_MISMATCH"
  | .storageNotFound => "STORAGE_NOT_FOUND"
  | .storageConflict => "STORAGE_CONFLICT"
  | .storageIntegrityError => "STORAGE_INTEGRITY_ERROR"
  | .storageCommitUnknown => "STORAGE_COMMIT_UNKNOWN"
  | .storageRecoveryRequired => "STORAGE_RECOVERY_REQUIRED"
  | .storageVersionUnsupported => "STORAGE_VERSION_UNSUPPORTED"
  | .storageDependencyNotReady => "STORAGE_DEPENDENCY_NOT_READY"
  | .tooManyPendingOperations => "TOO_MANY_PENDING_OPERATIONS"
  | .taskDagInvalid => "TASK_DAG_INVALID"
  | .taskFenceStale => "TASK_FENCE_STALE"
  | .taskOwnerConflict => "TASK_OWNER_CONFLICT"
  | .taskResultConflict => "TASK_RESULT_CONFLICT"
  | .taskTerminalConflict => "TASK_TERMINAL_CONFLICT"
  | .taskNotReady => "TASK_NOT_READY"
  | .taskDependencyFailed => "TASK_DEPENDENCY_FAILED"
  | .taskInputProjectionFailed => "TASK_INPUT_PROJECTION_FAILED"
  | .taskEffectUnknown => "TASK_EFFECT_UNKNOWN"
  | .toolEffectUnknown => "TOOL_EFFECT_UNKNOWN"
  | .toolOperationConflict => "TOOL_OPERATION_CONFLICT"
  | .toolResultConflict => "TOOL_RESULT_CONFLICT"
  | .toolRetryRequired => "TOOL_RETRY_REQUIRED"
  | .toolExecutionFailed => "TOOL_EXECUTION_FAILED"
  | .executionStartUnknown => "EXECUTION_START_UNKNOWN"
  | .authorizationDenied => "AUTHORIZATION_DENIED"
  | .agentIdInvalid => "AGENT_ID_INVALID"
  | .sessionBindingMismatch => "SESSION_BINDING_MISMATCH"
  | .sessionBusy => "SESSION_BUSY"
  | .sessionConflict => "SESSION_CONFLICT"
  | .sessionHistoryUnavailable => "SESSION_HISTORY_UNAVAILABLE"
  | .sessionRevisionConflict => "SESSION_REVISION_CONFLICT"
  | .sessionActiveExecutions => "SESSION_ACTIVE_EXECUTIONS"
  | .executionResultConflict => "EXECUTION_RESULT_CONFLICT"
  | .executionCancelled => "EXECUTION_CANCELLED"
  | .executionUsageLimitExceeded => "EXECUTION_USAGE_LIMIT_EXCEEDED"
  | .storageReadOnly => "STORAGE_READ_ONLY"
  | .storageClosed => "STORAGE_CLOSED"
  | .runtimeDependencyNotReady => "RUNTIME_DEPENDENCY_NOT_READY"
  | .internalError => "INTERNAL_ERROR"
  | .cursorInvalid => "CURSOR_INVALID"
  | .pageLimitInvalid => "PAGE_LIMIT_INVALID"
  | .idempotencyKeyInvalid => "IDEMPOTENCY_KEY_INVALID"
  | .storageBatchDuplicateKey => "STORAGE_BATCH_DUPLICATE_KEY"
  | .storageUnavailable => "STORAGE_UNAVAILABLE"
  | .storageCacheCorrupt => "STORAGE_CACHE_CORRUPT"
  | .storageRevisionNotifyFailed => "STORAGE_REVISION_NOTIFY_FAILED"
  | .storageBatchPartialFailure => "STORAGE_BATCH_PARTIAL_FAILURE"
  | .storageAtomicBatchUnsupported => "STORAGE_ATOMIC_BATCH_UNSUPPORTED"
  | .evaluationEvidenceUnavailable => "EVALUATION_EVIDENCE_UNAVAILABLE"

/-- What a call raises: an `AIError` with its code and safe details, the
`ValueError` of a value object that refuses to be built, or the `RecursionError` of a
recursion that goes too deep. -/
inductive Raised
  | ai (code : ErrorCode) (safeDetails : JsonMapping := [])
  | valueError (message : String)
  | recursionError

namespace Raised

def code? : Raised → Option ErrorCode
  | .ai code _ => some code
  | .valueError _ => none
  | .recursionError => none

def integrity : Raised := .ai .storageIntegrityError

def conflict : Raised := .ai .storageConflict

end Raised

/-- The characters that `str.strip` removes. -/
def isWhitespace (character : Char) : Bool :=
  let code := character.toNat
  (0x09 ≤ code && code ≤ 0x0d) || (0x1c ≤ code && code ≤ 0x20) ||
    code == 0x85 || code == 0xa0 || code == 0x1680 ||
    (0x2000 ≤ code && code ≤ 0x200a) || code == 0x2028 || code == 0x2029 ||
    code == 0x202f || code == 0x205f || code == 0x3000

/-- The characters of Unicode category `Cc`. -/
def isControl (character : Char) : Bool :=
  let code := character.toNat
  code ≤ 0x1f || (0x7f ≤ code && code ≤ 0x9f)

/-- The test `not value.strip()`. -/
def blank (value : String) : Bool :=
  value.toList.all isWhitespace

/-- The checks of `_text`: non-empty, stripped, without control characters and
at most `maximum` bytes of UTF-8. -/
def validText (maximum : Nat) (value : String) : Bool :=
  match value.toList with
  | [] => false
  | first :: rest =>
    !isWhitespace first && !isWhitespace ((first :: rest).getLast (by simp)) &&
      !(first :: rest).any isControl && decide (value.utf8ByteSize ≤ maximum)

/-- The test that no part of a path between slashes is empty, `.` or `..`. -/
def plainParts (path : List Char) : Bool :=
  (path.splitOn '/').all fun part => !(([[], ['.'], ['.', '.']] : List (List Char)).contains part)

/-- The checks of `validate_logical_id`. -/
def validLogicalId (value : String) : Bool :=
  match value.toList with
  | [] => false
  | first :: rest =>
    decide ((first :: rest).length ≤ 64) && !isWhitespace first &&
      !isWhitespace ((first :: rest).getLast (by simp)) &&
      !(first :: rest).any (fun character =>
        isControl character || character == '\\' || character == '*') &&
      plainParts (first :: rest)

def validLeaseOwner (value : String) : Bool := validText 256 value

def validTenantId (value : String) : Bool := validText 128 value

def validResourceId (value : String) : Bool := validText 128 value

def validLeaseSeconds (value : Int) : Bool :=
  decide (1 ≤ value ∧ value ≤ 3600)

def isSha256 (value : String) : Bool :=
  value.length == 64 &&
    value.toList.all fun character => "0123456789abcdef".toList.contains character

theorem isSha256_ofList (valid : (characters.length == 64 && characters.all fun character =>
      ['0', '1', '2', '3', '4', '5', '6', '7', '8', '9', 'a', 'b', 'c', 'd', 'e', 'f'].contains
        character) = true) : isSha256 (String.ofList characters) = true := by
  rw [isSha256, String.length_ofList, String.toList_ofList]
  exact valid

end Linktools.Core
