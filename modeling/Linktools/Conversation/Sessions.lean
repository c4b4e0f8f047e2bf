import Linktools.Conversation.Histories

namespace Linktools.Conversation

open Linktools.Core Library Persistence Transcript

namespace ConversationStore

variable (store : ConversationStore)

def getSession (sessionId : String) : Except Raised SessionRecord := do
  let record ← orRaise (store.sessions sessionId) (.ai .storageNotFound)
  refuse (record.sessionId ≠ sessionId) .integrity
  return record

def putSession (record : SessionRecord) : ConversationStore :=
  { store with sessions := Function.update store.sessions record.sessionId (some record) }

def appendOperation (operation : OperationLedgerInput) :
    Except Raised (Bool × ConversationStore) := do
  let (replayed, ledger) ← store.ledger.append operation
  return (replayed, { store with ledger := ledger })

def sameSessionIdentity (current candidate : SessionRecord) : Prop :=
  candidate.sessionId = current.sessionId ∧ candidate.ownerPrincipalId = current.ownerPrincipalId ∧
    candidate.agentId = current.agentId ∧ candidate.historyId = current.historyId ∧
    candidate.createdAt = current.createdAt

instance (current candidate : SessionRecord) : Decidable (sameSessionIdentity current
    candidate) := by
  unfold sameSessionIdentity
  infer_instance

/-- `_replace_checked` of the projected record. -/
def replaceSession (current candidate : SessionRecord) : Except Raised ConversationStore := do
  refuse (¬sameSessionIdentity current candidate) .integrity
  return store.putSession candidate

/-- The insertion of a session with its branch descriptor and transcript head. -/
def insertSession (session : SessionRecord) (history : ConversationHistoryRecord) :
    Except Raised ConversationStore := do
  refuse (store.sessions session.sessionId ≠ none ∨ store.histories history.historyId ≠ none ∨
    store.transcriptHead history.historyId ≠ none) .conflict
  return (store.insertHistory history).putSession session

def turnRef (sessionId : String) (turnSeq : Int) (executionId : String) :
    Except Raised SessionTurnRef :=
  if valid : sessionId ≠ "" ∧ executionId ≠ "" ∧ 1 ≤ turnSeq then
    .ok ⟨sessionId, turnSeq, executionId, valid⟩
  else .error (.valueError "session turn reference is invalid")

def executionTurns (sessionId executionId : String) : List (StoredFact String) :=
  (store.turns sessionId).filter fun fact => fact.data = executionId

def insertTurn (sessionId executionId : String) : Nat × ConversationStore :=
  let sequence := store.turnSequences sessionId + 1
  (sequence,
    { store with
      turns := Function.update store.turns sessionId
        (store.turns sessionId ++ [⟨sequence, executionId⟩])
      turnSequences := Function.update store.turnSequences sessionId sequence })

def onlyTurn (sessionId executionId : String) (allowUnadmitted : Bool) :
    Except Raised (Option SessionTurnRef) :=
  match store.executionTurns sessionId executionId with
  | [] => if allowUnadmitted then .ok none else .error .integrity
  | [fact] => some <$> turnRef sessionId fact.sequence fact.data
  | _ :: _ :: _ => .error .integrity

def decodeTimelineCommit (sessionId : String) (turnSeq : Int) (value : SessionTurnCommit) :
    Except Raised SessionTurnCommit := do
  refuse (value.sessionId ≠ sessionId ∨ value.turnSeq ≠ turnSeq) .integrity
  return value

def insertTurnCommit (commit : SessionTurnCommit) : Except Raised ConversationStore := do
  let key := (commit.sessionId, commit.turnSeq)
  refuse ((store.turnCommits key).isSome = true) .conflict
  return { store with turnCommits := Function.update store.turnCommits key (some commit) }

end ConversationStore

structure TurnOutcome where
  startMessageIndex : Int
  endMessageIndex : Int
  storedUserInput : String
  output : Option String
  status : ExecutionStatus
  createdAt : Time
  updatedAt : Time
  errorCode : Option String
  safeErrorDetails : JsonMapping

def TurnOutcome.commit (outcome : TurnOutcome) (sessionId : String) (turnSeq : Int)
    (executionId : String) : SessionTurnCommit where
  sessionId := sessionId
  turnSeq := turnSeq
  executionId := executionId
  startMessageIndex := outcome.startMessageIndex
  endMessageIndex := outcome.endMessageIndex
  storedUserInput := outcome.storedUserInput
  output := outcome.output
  status := outcome.status
  createdAt := outcome.createdAt
  updatedAt := outcome.updatedAt
  errorCode := outcome.errorCode
  safeErrorDetails := outcome.safeErrorDetails

def TurnOutcome.recorded (outcome : TurnOutcome) (commit : SessionTurnCommit) : Prop :=
  commit.endMessageIndex = outcome.endMessageIndex ∧
    commit.startMessageIndex = outcome.startMessageIndex ∧
    commit.storedUserInput = outcome.storedUserInput ∧ commit.output = outcome.output ∧
    commit.status = outcome.status ∧ commit.createdAt = outcome.createdAt ∧
    commit.updatedAt = outcome.updatedAt ∧ commit.errorCode = outcome.errorCode ∧
    commit.safeErrorDetails.same outcome.safeErrorDetails = true

instance (outcome : TurnOutcome) (commit : SessionTurnCommit) :
    Decidable (outcome.recorded commit) := by
  unfold TurnOutcome.recorded
  infer_instance

def ensureSessionHistory (repo : ConversationRepository) (value : SessionRecord) :
    SessionRecord :=
  { value with historyId := some (value.historyId.getD (repo.sessionHistoryId
  value.sessionId)) }

def newSessionHistory (value : SessionRecord) : Except Raised ConversationHistoryRecord := do
  let historyId ← orRaise value.historyId .integrity
  historyRecord historyId value.sessionId none none 0

def requireExplicitSessionAgentId (value : SessionRecord) : Except Raised Unit :=
  refuse (validLogicalId value.agentId = false) (.ai .agentIdInvalid)

namespace ConversationRepository

variable (repo : ConversationRepository) (store : ConversationStore)

def requireRepositoryTenant (tenantId : String) : Except Raised Unit :=
  refuse (tenantId ≠ repo.tenantId) (.ai .storageOwnerMismatch)

def createSession (value : SessionRecord) : Except Raised (SessionRecord × ConversationStore) := do
  requireExplicitSessionAgentId value
  let value := ensureSessionHistory repo value
  let history ← newSessionHistory value
  let after ← store.insertSession value history
  return (value, after)

def createSessionWithOperation (record : SessionRecord) (operation : OperationLedgerInput) :
    Except Raised ((SessionRecord × Bool) × ConversationStore) := do
  repo.requireRepositoryTenant operation.tenantId
  requireExplicitSessionAgentId record
  let record := ensureSessionHistory repo record
  let (replayed, noted) ← store.appendOperation operation
  if replayed then do
    let current ← orRaise (noted.sessions record.sessionId) .integrity
    refuse (current.sessionId ≠ record.sessionId) .integrity
    return ((current, true), noted)
  else do
    let history ← newSessionHistory record
    let after ← noted.insertSession record history
    return ((record, false), after)

def committedTotal (source : SessionRecord) (physicalTotal : Nat) : Int :=
  match source.continuation with
  | none => 0
  | some cursor => cursor.messageCount.getD physicalTotal

def replayFork (sourceSessionId : String) (target : SessionRecord) :
    Except Raised SessionRecord := do
  let targetHistoryId ← orRaise target.historyId .integrity
  let source ← orRaise (store.sessions sourceSessionId) .integrity
  let existingTarget ← orRaise (store.sessions target.sessionId) .integrity
  let child ← orRaise (store.histories targetHistoryId) .integrity
  let head ← orRaise (store.transcriptHead targetHistoryId) .integrity
  refuse (source.sessionId ≠ sourceSessionId ∨ source.historyId = none ∨
    existingTarget.sessionId ≠ target.sessionId ∨ existingTarget.historyId ≠ some targetHistoryId ∨
    existingTarget.ownerPrincipalId ≠ target.ownerPrincipalId ∨
    existingTarget.agentId ≠ target.agentId ∨ child.sessionId ≠ target.sessionId ∨
    child.parentHistoryId ≠ source.historyId) .integrity
  refuse (head.ownerId ≠ targetHistoryId) .integrity
  return existingTarget

/-- The ancestor of a fork's timeline: the turns before the active one, or the source's
own ancestor when there are none. -/
def timelineAncestor (source : SessionRecord) : Except Raised (Option String × Int) := do
  let turnHead := store.turnSequences source.sessionId
  refuse (source.activeExecutionId ≠ none ∧ turnHead < 1) .integrity
  let cutoff := if source.activeExecutionId = none then turnHead else turnHead - 1
  if 0 < cutoff then return (some source.sessionId, (cutoff : Int))
  else return (source.timelineParentSessionId, source.timelineParentTurnSeq)

def forkTarget (target : SessionRecord) (childHistoryId : String)
    (ancestor : Option String × Int) : SessionRecord :=
  { target with
    historyId := some childHistoryId
    historyQuality := .complete
    timelineParentSessionId := ancestor.1
    timelineParentTurnSeq := ancestor.2
    continuation := target.continuation.map fun cursor =>
      { cursor with historyId := some childHistoryId } }

def forkSession (sourceSessionId : String) (target : SessionRecord) (childHistoryId : String)
    (expectedSourceRevision : Int) (nodeId : String) :
    Except Raised (SessionRecord × ConversationStore) := do
  let source ← store.getSession sourceSessionId
  refuse (source.ownerPrincipalId ≠ target.ownerPrincipalId) (.ai .authorizationDenied)
  refuse (source.revision ≠ expectedSourceRevision) .conflict
  refuse (source.historyQuality = .unavailable) (.ai .sessionHistoryUnavailable)
  let sourceHistoryId ← orRaise source.historyId (.ai .sessionHistoryUnavailable)
  let sourceHistory ← orRaise (store.histories sourceHistoryId) (.ai .sessionHistoryUnavailable)
  refuse (sourceHistory.sessionId ≠ source.sessionId) .integrity
  let sourceHead ← orRaise (store.transcriptHead sourceHistoryId) .integrity
  let physicalTotal := sourceHistory.inheritedMessageCount + sourceHead.messageCount
  let committed := committedTotal source physicalTotal
  refuse (committed < sourceHistory.inheritedMessageCount ∨ physicalTotal < committed) .integrity
  let localMessages := committed.toNat - sourceHistory.inheritedMessageCount
  let (prefixHead, indexed) ← store.extendIndex nodeId sourceHistory.prefixIndexHeadId
    sourceHistoryId localMessages
  let ancestor ← timelineAncestor store source
  let child ← historyRecord childHistoryId target.sessionId (some sourceHistoryId) prefixHead
    committed.toNat
  let expectedTarget ← (forkTarget target childHistoryId ancestor).validated
  let inserted ← indexed.insertSession expectedTarget child
  match store.projections sourceHistoryId with
  | none => return (expectedTarget, inserted)
  | some projection => do
    refuse (inserted.projections childHistoryId ≠ none) .conflict
    return (expectedTarget, { inserted with
      projections := Function.update inserted.projections childHistoryId (some projection) })

def createForkWithOperation (sourceSessionId : String) (target : SessionRecord)
    (expectedSourceRevision : Int) (operation : OperationLedgerInput) (nodeId : String) :
    Except Raised ((SessionRecord × Bool) × ConversationStore) := do
  repo.requireRepositoryTenant operation.tenantId
  requireExplicitSessionAgentId target
  refuse (operation.resourceKind ≠ .other "SESSION" ∨ operation.resourceId ≠ target.sessionId ∨
    operation.operationKind ≠ .other "SESSION_FORK") .conflict
  refuse (expectedSourceRevision < 0) .conflict
  let childHistoryId := repo.sessionHistoryId target.sessionId
  let target := { target with historyId := some childHistoryId }
  let (replayed, noted) ← store.appendOperation operation
  if replayed then do
    let existing ← replayFork noted sourceSessionId target
    return ((existing, true), noted)
  else do
    let (created, after) ←
      forkSession noted sourceSessionId target childHistoryId expectedSourceRevision nodeId
    return ((created, false), after)

/-- The root branch of a session whose messages are promoted, created where it is
missing. -/
def promoteHistory (session : SessionRecord) (ownerId : String) :
    Except Raised (ConversationHistoryRecord × ConversationStore) :=
  let historyId := session.historyId.getD ownerId
  match store.histories historyId with
  | some history => .ok (history, store)
  | none => do
    let history ← historyRecord historyId session.sessionId none none 0
    store.createHistory history

def keepActive (current next : SessionRecord) : Except Raised SessionRecord :=
  if current.activeExecutionId ≠ none ∧ next.activeExecutionId ≠ current.activeExecutionId then
    { next with activeExecutionId := current.activeExecutionId }.validated
  else .ok next

def compareAndSwap (tenantId sessionId : String) (expectedRevision : Int)
    (nextRecord : SessionRecord) : Except Raised (SessionRecord × ConversationStore) := do
  repo.requireRepositoryTenant tenantId
  let current ← store.getSession sessionId
  refuse (current.revision ≠ expectedRevision) (.ai .sessionRevisionConflict)
  let proposed ← keepActive current nextRecord
  let after ← store.replaceSession current proposed
  return (proposed, after)

def compareAndSwapWithOperation (tenantId sessionId : String) (expectedRevision : Int)
    (nextRecord : SessionRecord) (operation : OperationLedgerInput) :
    Except Raised ((SessionRecord × Bool) × ConversationStore) := do
  repo.requireRepositoryTenant tenantId
  repo.requireRepositoryTenant operation.tenantId
  let value ← store.getSession sessionId
  refuse (value.ownerPrincipalId ≠ nextRecord.ownerPrincipalId) (.ai .authorizationDenied)
  refuse (value.revision ≠ expectedRevision) (.ai .sessionRevisionConflict)
  let proposed ← keepActive value nextRecord
  let (replayed, noted) ← store.appendOperation operation
  if replayed then return ((value, true), noted)
  else do
    let after ← noted.replaceSession value proposed
    return ((proposed, false), after)

def transitionStatus (tenantId sessionId : String) (expected : List SessionStatus)
    (nextStatus : SessionStatus) (closedAt : Option Time) (requireNoActive : Bool)
    (expectedOwnerPrincipalId : Option String) (now : Time) :
    Except Raised (SessionRecord × ConversationStore) := do
  repo.requireRepositoryTenant tenantId
  let current ← store.getSession sessionId
  refuse (∃ owner ∈ expectedOwnerPrincipalId, current.ownerPrincipalId ≠ owner)
    (.ai .authorizationDenied)
  refuse (current.status ∉ expected) (.ai .sessionConflict)
  refuse (requireNoActive = true ∧ current.activeExecutionId ≠ none) (.ai .sessionActiveExecutions)
  let next ← SessionRecord.validated
    { current with
      status := nextStatus
      closedAt := closedAt
      revision := current.revision + 1
      updatedAt := now }
  let after ← store.replaceSession current next
  return (next, after)

def rememberRepositoryInstructionScopes (tenantId sessionId executionId : String)
    (scopes : List String) (now : Time) : Except Raised (SessionRecord × ConversationStore) := do
  repo.requireRepositoryTenant tenantId
  let current ← store.getSession sessionId
  refuse (current.activeExecutionId ≠ some executionId) (.ai .sessionBusy)
  let merged := (current.repositoryInstructionScopes ++ scopes).dedup.mergeSort (· ≤ ·)
  if merged = current.repositoryInstructionScopes then return (current, store)
  else do
    let updated ← SessionRecord.validated
      { current with
        repositoryInstructionScopes := merged
        revision := current.revision + 1
        updatedAt := now }
    let after ← store.replaceSession current updated
    return (updated, after)

def pendingTurnCommit (sessionId executionId : String) (allowUnadmitted : Bool) :
    Except Raised (Option SessionTurnCommit) := do
  match ← store.onlyTurn sessionId executionId allowUnadmitted with
  | none => return none
  | some turn => do
    refuse (turn.executionId ≠ executionId) .integrity
    let value ← orRaise (store.turnCommits (sessionId, turn.turnSeq))
      (.ai .storageRecoveryRequired)
    let committed ← ConversationStore.decodeTimelineCommit sessionId turn.turnSeq value
    refuse (committed.executionId ≠ executionId) .integrity
    return some committed

/-- What an admission checks against the session that its caller has seen. -/
def requireExpectedSession (value : SessionRecord) : Option SessionRecord → Except Raised Unit
  | none => .ok ()
  | some expected => do
    refuse (value.sessionId ≠ expected.sessionId) .integrity
    refuse (value.ownerPrincipalId ≠ expected.ownerPrincipalId) (.ai .authorizationDenied)
    refuse (value.agentId ≠ expected.agentId) (.ai .sessionBindingMismatch)
    refuse (value.cwd ≠ expected.cwd) (.ai .sessionConflict)

def handedTurn (sessionId : String) (sequence : Nat) (executionId : String) (handsTurn : Bool) :
    Except Raised (Option SessionTurnRef) :=
  if handsTurn then some <$> ConversationStore.turnRef sessionId sequence executionId
  else .ok none

/-- An admission takes the slot and writes the turn, unless it is a replay.  The turn is
handed back where one is written and the caller asks for it. -/
def admitExecution (tenantId sessionId executionId : String) (expected : Option ConversationCursor)
    (expectedSession : Option SessionRecord) (handsTurn : Bool) :
    Except Raised ((SessionRecord × Option SessionTurnRef) × ConversationStore) := do
  repo.requireRepositoryTenant tenantId
  let value ← store.getSession sessionId
  requireExpectedSession value expectedSession
  refuse (value.historyQuality = .unavailable) (.ai .sessionHistoryUnavailable)
  if value.activeExecutionId = some executionId ∧ value.continuation = expected then
    return ((value, none), store)
  else do
    refuse (value.status ≠ .open) (.ai .sessionConflict)
    refuse (value.activeExecutionId ≠ none ∨ value.continuation ≠ expected) (.ai .sessionBusy)
    let next ← { value with activeExecutionId := some executionId }.validated
    let taken ← store.replaceSession value next
    let (sequence, after) := taken.insertTurn sessionId executionId
    let turn ← handedTurn sessionId sequence executionId handsTurn
    return ((next, turn), after)

/-- A release may ask for the turn of the execution to be committed. -/
def requirePendingTurn (sessionId executionId : String) (required : Bool) : Except Raised Unit :=
  if required then do
    let _ ← pendingTurnCommit store sessionId executionId true
    return ()
  else .ok ()

def releaseExecution (tenantId sessionId executionId : String) (historyUnavailable : Bool)
    (requireTurnCommit : Bool) (now : Time) :
    Except Raised (SessionRecord × ConversationStore) := do
  repo.requireRepositoryTenant tenantId
  let value ← store.getSession sessionId
  requirePendingTurn store sessionId executionId requireTurnCommit
  if value.activeExecutionId ≠ some executionId then return (value, store)
  else do
    let worsens := historyUnavailable = true ∧ value.historyQuality ≠ .unavailable
    let next ← SessionRecord.validated
      { value with
        activeExecutionId := none
        historyQuality := if historyUnavailable then .unavailable else value.historyQuality
        revision := if worsens then value.revision + 1 else value.revision
        updatedAt := if worsens then now else value.updatedAt }
    let after ← store.replaceSession value next
    return (next, after)

/-- `advance_continuation_in_transaction`; with `release` it is the completion of the
execution. -/
def advanceContinuation (release : Bool) (tenantId sessionId executionId : String)
    (expected : Option ConversationCursor) (nextCursor : ConversationCursor)
    (historyQuality : Option SessionHistoryQuality) (now : Time) :
    Except Raised (SessionRecord × ConversationStore) := do
  repo.requireRepositoryTenant tenantId
  let current ← store.getSession sessionId
  if current.continuation = some nextCursor then return (current, store)
  else do
    refuse (current.activeExecutionId ≠ some executionId ∨ current.continuation ≠ expected ∨
      current.status = .closed) (.ai .sessionBusy)
    let next ← SessionRecord.validated
      { current with
        continuation := some nextCursor
        historyQuality := historyQuality.getD current.historyQuality
        activeExecutionId := if release then none else current.activeExecutionId
        revision := current.revision + 1
        updatedAt := now }
    let after ← store.replaceSession current next
    return (next, after)

def completeExecution (tenantId sessionId executionId : String)
    (expected : Option ConversationCursor) (nextCursor : ConversationCursor)
    (historyQuality : Option SessionHistoryQuality) (now : Time) :
    Except Raised (SessionRecord × ConversationStore) :=
  repo.advanceContinuation store true tenantId sessionId executionId expected nextCursor
    historyQuality now

/-- The turn that a commit is about: the one its admission handed out, or the only one of
the execution. -/
def committedTurn (sessionId executionId : String) (allowUnadmitted : Bool)
    (admittedTurn : Option SessionTurnRef) : Except Raised (Option SessionTurnRef) :=
  match admittedTurn with
  | none => store.onlyTurn sessionId executionId allowUnadmitted
  | some turn => do
    refuse (turn.sessionId ≠ sessionId) .integrity
    return some turn

def commitTimelineTurn (tenantId sessionId executionId : String) (outcome : TurnOutcome)
    (allowUnadmitted : Bool) (admittedTurn : Option SessionTurnRef) :
    Except Raised (Option SessionTurnCommit × ConversationStore) := do
  repo.requireRepositoryTenant tenantId
  match ← committedTurn store sessionId executionId allowUnadmitted admittedTurn with
  | none => return (none, store)
  | some turn => do
    refuse (turn.executionId ≠ executionId) .integrity
    match store.turnCommits (sessionId, turn.turnSeq) with
    | some existing => do
      let committed ← ConversationStore.decodeTimelineCommit sessionId turn.turnSeq existing
      refuse (committed.executionId ≠ executionId) .integrity
      refuse (¬outcome.recorded committed) .integrity
      return (some committed, store)
    | none => do
      refuse (outcome.startMessageIndex < 0 ∨
        outcome.endMessageIndex < outcome.startMessageIndex) .integrity
      let committed ← (outcome.commit sessionId turn.turnSeq executionId).validated
      let after ← store.insertTurnCommit committed
      return (some committed, after)

/-- A turn of an execution that was never admitted, written together with its commit. -/
def commitPendingTurn (expected : SessionRecord) (executionId : String)
    (nextCursor : Option ConversationCursor) (outcome : TurnOutcome) (now : Time) :
    Except Raised (SessionRecord × ConversationStore) := do
  let current ← store.getSession expected.sessionId
  refuse (current.same expected = false ∨ current.status ≠ .open ∨
    current.activeExecutionId ≠ none) (.ai .sessionBusy)
  refuse ((outcome.status ≠ .succeeded ∧ outcome.status ≠ .failed ∧ outcome.status ≠ .cancelled) ∨
    ¬(outcome.status = .succeeded ↔ nextCursor ≠ none) ∨
    ¬(outcome.output ≠ none ↔ outcome.status = .succeeded) ∨ (outcome.status ≠ .succeeded ∧
      (outcome.startMessageIndex ≠ 0 ∨ outcome.endMessageIndex ≠ 0))) .integrity
  let final ← SessionRecord.validated
    { current with
      continuation := if outcome.status = .succeeded then nextCursor else current.continuation
      historyQuality := if outcome.status = .succeeded then .complete else current.historyQuality
      revision := current.revision + 1
      updatedAt := now }
  let rewritten ← store.replaceSession current final
  let (sequence, turned) := rewritten.insertTurn current.sessionId executionId
  let commit ← (outcome.commit current.sessionId sequence executionId).validated
  let after ← turned.insertTurnCommit commit
  return (final, after)

end ConversationRepository

inductive ConversationCall
  | createSession (value : SessionRecord)
  | createSessionWithOperation (record : SessionRecord) (operation : OperationLedgerInput)
  | createForkWithOperation (sourceSessionId : String) (target : SessionRecord)
      (expectedSourceRevision : Int) (operation : OperationLedgerInput) (nodeId : String)
  | promoteHistory (session : SessionRecord) (ownerId : String)
  | fork (tenantId sourceHistoryId childHistoryId sessionId nodeId : String)
  | appendChunks (historyId : String) (chunks : List TranscriptChunk)
      (quality : Option HistoryQuality) (projection : Option String)
  | compareAndSwap (tenantId sessionId : String) (expectedRevision : Int)
      (nextRecord : SessionRecord)
  | compareAndSwapWithOperation (tenantId sessionId : String) (expectedRevision : Int)
      (nextRecord : SessionRecord) (operation : OperationLedgerInput)
  | transitionStatus (tenantId sessionId : String) (expected : List SessionStatus)
      (nextStatus : SessionStatus) (closedAt : Option Time) (requireNoActive : Bool)
      (expectedOwnerPrincipalId : Option String) (now : Time)
  | rememberRepositoryInstructionScopes (tenantId sessionId executionId : String)
      (scopes : List String) (now : Time)
  | admitExecution (tenantId sessionId executionId : String) (expected : Option ConversationCursor)
      (expectedSession : Option SessionRecord) (handsTurn : Bool)
  | releaseExecution (tenantId sessionId executionId : String) (historyUnavailable : Bool)
      (requireTurnCommit : Bool) (now : Time)
  | advanceContinuation (tenantId sessionId executionId : String)
      (expected : Option ConversationCursor) (nextCursor : ConversationCursor)
      (historyQuality : Option SessionHistoryQuality) (now : Time)
  | completeExecution (tenantId sessionId executionId : String)
      (expected : Option ConversationCursor) (nextCursor : ConversationCursor)
      (historyQuality : Option SessionHistoryQuality) (now : Time)
  | commitTimelineTurn (tenantId sessionId executionId : String) (outcome : TurnOutcome)
      (allowUnadmitted : Bool) (admittedTurn : Option SessionTurnRef)
  | commitPendingTurn (expected : SessionRecord) (executionId : String)
      (nextCursor : Option ConversationCursor) (outcome : TurnOutcome) (now : Time)

/-- A record that a caller hands over has been built by its constructor. -/
def ConversationCall.run (repo : ConversationRepository) (store : ConversationStore) :
    ConversationCall → Except Raised ConversationStore
  | .createSession value => do
    let value ← value.validated
    let (_, after) ← repo.createSession store value
    return after
  | .createSessionWithOperation record operation => do
    let record ← record.validated
    let (_, after) ← repo.createSessionWithOperation store record operation
    return after
  | .createForkWithOperation source target revision operation nodeId => do
    let target ← target.validated
    let (_, after) ←
      repo.createForkWithOperation store source target revision operation nodeId
    return after
  | .promoteHistory session ownerId => do
    let (_, after) ← ConversationRepository.promoteHistory store session ownerId
    return after
  | .fork tenantId source child session nodeId => do
    repo.requireRepositoryTenant tenantId
    let (_, after) ← store.fork source child session nodeId
    return after
  | .appendChunks historyId chunks quality projection =>
    store.appendChunks historyId chunks quality projection
  | .compareAndSwap tenantId sessionId revision next => do
    let next ← next.validated
    let (_, after) ← repo.compareAndSwap store tenantId sessionId revision next
    return after
  | .compareAndSwapWithOperation tenantId sessionId revision next operation => do
    let next ← next.validated
    let (_, after) ← repo.compareAndSwapWithOperation store tenantId sessionId revision
      next operation
    return after
  | .transitionStatus tenantId sessionId expected next closedAt requireNoActive owner now => do
    let (_, after) ← repo.transitionStatus store tenantId sessionId expected next
      closedAt requireNoActive owner now
    return after
  | .rememberRepositoryInstructionScopes tenantId sessionId executionId scopes now => do
    let (_, after) ← repo.rememberRepositoryInstructionScopes store tenantId sessionId
      executionId scopes now
    return after
  | .admitExecution tenantId sessionId executionId expected expectedSession handsTurn => do
    let (_, after) ← repo.admitExecution store tenantId sessionId executionId expected
      expectedSession handsTurn
    return after
  | .releaseExecution tenantId sessionId executionId unavailable required now => do
    let (_, after) ← repo.releaseExecution store tenantId sessionId executionId
      unavailable required now
    return after
  | .advanceContinuation tenantId sessionId executionId expected next quality now => do
    let (_, after) ← repo.advanceContinuation store false tenantId sessionId executionId
      expected next quality now
    return after
  | .completeExecution tenantId sessionId executionId expected next quality now => do
    let (_, after) ← repo.completeExecution store tenantId sessionId executionId
      expected next quality now
    return after
  | .commitTimelineTurn tenantId sessionId executionId outcome unadmitted turn => do
    let (_, after) ← repo.commitTimelineTurn store tenantId sessionId executionId
      outcome unadmitted turn
    return after
  | .commitPendingTurn expected executionId next outcome now => do
    let (_, after) ← ConversationRepository.commitPendingTurn store expected executionId next
      outcome now
    return after

abbrev ConversationLabel := Answered ConversationCall Raised

def conversationSystem (repo : ConversationRepository) :
    Machine ConversationStore ConversationLabel :=
  callSystem {} (ConversationCall.run repo)

end Linktools.Conversation
