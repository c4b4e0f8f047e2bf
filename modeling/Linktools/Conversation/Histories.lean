import Linktools.Library.SkewForest
import Linktools.Persistence.TaskRecords
import Linktools.Transcript.AppendedReads

namespace Linktools.Conversation

open Linktools.Core Library Persistence Transcript

/-! The durable records of conversations: branch descriptors with their prefix index,
sessions, and the turns of a session. -/

structure ConversationHistorySegmentRef where
  ownerHistoryId : String
  throughLocalMessageCount : Nat
  named : ¬ownerHistoryId = ""

def segmentRef (ownerHistoryId : String) (throughMessages : Nat) :
    Except Raised ConversationHistorySegmentRef :=
  if named : ownerHistoryId ≠ "" then .ok ⟨ownerHistoryId, throughMessages, named⟩
  else .error (.valueError "history segment owner cannot be empty")

/-- A tree node that is a cell of the forest as well: the `tree` counters add up the
tree rooted here, and `nextForestId` links the cells. -/
structure ConversationHistoryIndexNodeRecord where
  nodeId : String
  segment : ConversationHistorySegmentRef
  treeSegmentCount : Nat
  treeMessageCount : Nat
  leftTreeId : Option String
  rightTreeId : Option String
  nextForestId : Option String
  covering : 1 ≤ treeSegmentCount
  counting : segment.throughLocalMessageCount ≤ treeMessageCount
  childless : treeSegmentCount = 1 → leftTreeId = none ∧ rightTreeId = none

structure ConversationHistoryRecord where
  historyId : String
  sessionId : String
  parentHistoryId : Option String
  prefixIndexHeadId : Option String
  inheritedMessageCount : Nat
  named : historyId ≠ "" ∧ sessionId ≠ ""
  parentless : parentHistoryId = none → prefixIndexHeadId = none ∧ inheritedMessageCount = 0
  headed : prefixIndexHeadId = none → inheritedMessageCount = 0
deriving DecidableEq

def historyRecord (historyId sessionId : String) (parentHistoryId prefixIndexHeadId : Option String)
    (inheritedMessageCount : Nat) : Except Raised ConversationHistoryRecord :=
  if named : historyId ≠ "" ∧ sessionId ≠ "" then
    if parentless : parentHistoryId = none →
        prefixIndexHeadId = none ∧ inheritedMessageCount = 0 then
      if headed : prefixIndexHeadId = none → inheritedMessageCount = 0 then
        .ok ⟨historyId, sessionId, parentHistoryId, prefixIndexHeadId, inheritedMessageCount,
          named, parentless, headed⟩
      else .error (.valueError "forked history with content requires a prefix head")
    else .error (.valueError "root history cannot inherit messages")
  else .error (.valueError "history descriptor identity cannot be empty")

theorem historyRecord_ok
    (built : historyRecord historyId sessionId parent head inherited = .ok record) :
    record.historyId = historyId ∧ record.sessionId = sessionId ∧
      record.parentHistoryId = parent ∧ record.prefixIndexHeadId = head ∧
      record.inheritedMessageCount = inherited := by
  unfold historyRecord at built
  split at built
  case isFalse => cases built
  case isTrue =>
    split at built
    case isFalse => cases built
    case isTrue =>
      split at built
      case isFalse => cases built
      case isTrue =>
        cases built
        exact ⟨rfl, rfl, rfl, rfl, rfl⟩

structure ConversationCursor where
  agentRunId : String
  historyId : Option String := none
  messageCount : Option Int := none
  checkpointSequence : Option Nat := none
  projectionDigest : Option String := none
  sequenced : ∀ sequence ∈ checkpointSequence, 1 ≤ sequence := by decide
deriving DecidableEq

inductive SessionHistoryQuality
  | complete
  | conservative
  | unavailable
deriving DecidableEq

/-- The checks of `validate_workspace_path`. -/
def validWorkspacePath (path : String) : Bool :=
  let characters := path.toList
  !characters.isEmpty && !characters.contains '\\' && !characters.contains '\x00' &&
    (path == "." || plainParts characters)

structure SessionFields where
  sessionId : String
  ownerPrincipalId : String
  status : SessionStatus
  revision : Int
  cwd : Option String
  createdAt : Time
  updatedAt : Time
  closedAt : Option Time
  activeExecutionId : Option String
  agentId : String
  continuation : Option ConversationCursor := none
  historyQuality : SessionHistoryQuality := .complete
  historyId : Option String := none
  timelineParentSessionId : Option String := none
  timelineParentTurnSeq : Int := 0
  repositoryInstructionScopes : List String := []
deriving DecidableEq

structure SessionRecord extends SessionFields where
  metadata : JsonMapping

def SessionRecord.same (left right : SessionRecord) : Bool :=
  left.toSessionFields == right.toSessionFields && left.metadata.same right.metadata

def SessionRecord.validated (record : SessionRecord) : Except Raised SessionRecord := do
  refuse (validLogicalId record.agentId = false) (.valueError "session agent id is invalid")
  refuse (∃ active ∈ record.activeExecutionId, blank active = true)
    (.valueError "active execution identifier cannot be empty")
  refuse (record.status = .closed ∧ record.activeExecutionId ≠ none)
    (.valueError "closed session cannot have an active execution")
  refuse (∃ cwd ∈ record.cwd, validWorkspacePath cwd = false)
    (.valueError "session cwd must be a canonical workspace path")
  refuse ((∃ scope ∈ record.repositoryInstructionScopes, validWorkspacePath scope = false) ∨
      ¬record.repositoryInstructionScopes.Pairwise (· < ·))
    (.valueError "repository instruction scopes must be canonical and unique")
  match record.timelineParentSessionId with
  | none =>
    refuse (record.timelineParentTurnSeq ≠ 0)
      (.valueError "root session timeline cannot have an ancestor cutoff")
  | some parent =>
    refuse (parent = "" ∨ parent = record.sessionId ∨ record.timelineParentTurnSeq < 1)
      (.valueError "session timeline ancestor is invalid")
  return record

structure SessionTurnRef where
  sessionId : String
  turnSeq : Int
  executionId : String
  valid : sessionId ≠ "" ∧ executionId ≠ "" ∧ 1 ≤ turnSeq

/-- Input and output are the canonical serializations of the stored values. -/
structure SessionTurnCommit where
  sessionId : String
  turnSeq : Int
  executionId : String
  startMessageIndex : Int
  endMessageIndex : Int
  storedUserInput : String
  output : Option String
  status : ExecutionStatus
  createdAt : Time
  updatedAt : Time
  errorCode : Option String
  safeErrorDetails : JsonMapping

def SessionTurnCommit.validated (commit : SessionTurnCommit) : Except Raised SessionTurnCommit := do
  refuse (commit.sessionId = "" ∨ commit.executionId = "" ∨ commit.turnSeq < 1 ∨
    commit.startMessageIndex < 0 ∨ commit.endMessageIndex < commit.startMessageIndex)
    (.valueError "session turn commit is invalid")
  refuse (commit.status ≠ .succeeded ∧ commit.status ≠ .failed ∧ commit.status ≠ .cancelled)
    (.valueError "session turn status must be terminal")
  refuse (commit.status = .succeeded ∧ commit.output = none)
    (.valueError "successful session turn output is required")
  refuse (commit.status ≠ .succeeded ∧ commit.output ≠ none)
    (.valueError "unsuccessful session turn cannot have output")
  return commit

structure OperationLedger where
  operations : List OperationLedgerRecord := []
  sequences : ResourceKind × String → Nat := fun _ => 0

def OperationLedger.append (ledger : OperationLedger) (value : OperationLedgerInput) :
    Except Raised (Bool × OperationLedger) :=
  match rowAt (fun record => record.operationId) ledger.operations value.operationId with
  | some current =>
    if operationReplayMatches current value then .ok (true, ledger) else .error .conflict
  | none =>
    let stream := (value.resourceKind, value.resourceId)
    let sequence := ledger.sequences stream + 1
    .ok (false,
      { operations := ledger.operations ++ [{ value with sequence := sequence }]
        sequences := Function.update ledger.sequences stream sequence })

/-- The rows of the conversation domain of one namespace and tenant.  `turns` are the
facts of each session's timeline, which name an execution. -/
structure ConversationStore where
  sessions : String → Option SessionRecord := fun _ => none
  histories : String → Option ConversationHistoryRecord := fun _ => none
  indexNodes : String → Option ConversationHistoryIndexNodeRecord := fun _ => none
  transcripts : String → OwnerTranscript := fun _ => {}
  projections : String → Option String := fun _ => none
  ledger : OperationLedger := {}
  turns : String → List (StoredFact String) := fun _ => []
  turnSequences : String → Nat := fun _ => 0
  turnCommits : String × Int → Option SessionTurnCommit := fun _ => none

/-- The repositories of one namespace and tenant.  `sessionHistoryId` is the digest that
names the history of a session, `recursionLimit` the depth that a recursion may reach. -/
structure ConversationRepository where
  tenantId : String
  sessionHistoryId : String → String
  recursionLimit : Nat := 1000

structure ResolvedSegment where
  segment : ConversationHistorySegmentRef
  localStart : Nat
  localEnd : Nat

section

variable (loadNode : String → Except Raised ConversationHistoryIndexNodeRecord)

def loadChild (childId : Option String) :
    Except Raised (Option ConversationHistoryIndexNodeRecord) :=
  match childId with
  | none => .ok none
  | some nodeId => some <$> loadNode nodeId

def ownSegment (node : ConversationHistoryIndexNodeRecord) (windowStart windowEnd : Nat) :
    List ResolvedSegment :=
  if windowStart < node.segment.throughLocalMessageCount then
    [⟨node.segment, windowStart, min windowEnd node.segment.throughLocalMessageCount⟩]
  else []

def collectTreeLazy (depth : Nat) (node : ConversationHistoryIndexNodeRecord)
    (windowStart windowEnd : Nat) : Except Raised (List ResolvedSegment) :=
  match depth with
  | 0 => .error .recursionError
  | depth + 1 =>
    let ownCount := node.segment.throughLocalMessageCount
    if windowEnd ≤ windowStart then .ok []
    else if windowEnd ≤ ownCount then .ok (ownSegment node windowStart windowEnd)
    else do
      let left ← loadChild loadNode node.leftTreeId
      let leftSpan := (left.map (·.treeMessageCount)).getD 0
      let rightStart := ownCount + leftSpan
      let right ← if rightStart < windowEnd then loadChild loadNode node.rightTreeId else .ok none
      let rightSpan := (right.map (·.treeMessageCount)).getD 0
      if rightStart + rightSpan ≤ windowStart then .ok []
      else do
        let leftOutput ← match left with
          | some left =>
            if ownCount < windowEnd ∧ windowStart < rightStart then
              collectTreeLazy depth left (windowStart - ownCount)
                (min (windowEnd - ownCount) leftSpan)
            else .ok []
          | none => .ok []
        let rightOutput ← match right with
          | some right =>
            if rightStart < windowEnd then
              collectTreeLazy depth right (windowStart - rightStart)
                (min (windowEnd - rightStart) rightSpan)
            else .ok []
          | none => .ok []
        return ownSegment node windowStart windowEnd ++ leftOutput ++ rightOutput

def collectRoots (depth : Nat) : List ConversationHistoryIndexNodeRecord → Nat → Nat →
    Except Raised (List ResolvedSegment)
  | [], _, _ => .ok []
  | root :: rest, remainingStart, remainingEnd =>
    let rootSpan := root.treeMessageCount
    if rootSpan ≤ remainingStart then
      collectRoots depth rest (remainingStart - rootSpan) (remainingEnd - rootSpan)
    else do
      let treeOutput ←
        collectTreeLazy loadNode depth root remainingStart (min remainingEnd rootSpan)
      if remainingEnd ≤ rootSpan then return treeOutput
      else do
        let later ← collectRoots depth rest 0 (remainingEnd - rootSpan)
        return treeOutput ++ later

def resolveHistoryRangeLazy (depth : Nat) (roots : List ConversationHistoryIndexNodeRecord)
    (ownerHistoryId : String) (localMessageCount inheritedMessageCount rangeStart rangeEnd : Nat) :
    Except Raised (List ResolvedSegment) := do
  refuse (rangeEnd < rangeStart) .conflict
  refuse (inheritedMessageCount + localMessageCount < rangeEnd) .integrity
  if rangeEnd = rangeStart then return []
  else do
    refuse ((roots.map (·.treeMessageCount)).sum ≠ inheritedMessageCount) .integrity
    let inheritedEnd := min rangeEnd inheritedMessageCount
    let resolved ←
      if rangeStart < inheritedEnd then
        List.reverse <$> collectRoots loadNode depth roots (inheritedMessageCount - inheritedEnd)
          (inheritedMessageCount - rangeStart)
      else .ok []
    let localStart := rangeStart - inheritedMessageCount
    let localEnd := min (rangeEnd - inheritedMessageCount) localMessageCount
    if localStart < localEnd then do
      let own ← segmentRef ownerHistoryId localMessageCount
      return resolved ++ [⟨own, localStart, localEnd⟩]
    else return resolved

end

inductive ForkIndex
  | node (record : ConversationHistoryIndexNodeRecord)
  | head (nodeId : Option String)

def joinedNode (nodeId : String) (frozen : ConversationHistorySegmentRef)
    (first second : ConversationHistoryIndexNodeRecord) : ConversationHistoryIndexNodeRecord where
  nodeId := nodeId
  segment := frozen
  treeSegmentCount := first.treeSegmentCount + second.treeSegmentCount + 1
  treeMessageCount :=
    first.treeMessageCount + second.treeMessageCount + frozen.throughLocalMessageCount
  leftTreeId := some first.nodeId
  rightTreeId := some second.nodeId
  nextForestId := second.nextForestId
  covering := Nat.le_add_left _ _
  counting := Nat.le_add_left _ _
  childless single := by
    have firstCovers := first.covering
    omega

def leafNode (nodeId : String) (frozen : ConversationHistorySegmentRef)
    (nextForestId : Option String) : ConversationHistoryIndexNodeRecord where
  nodeId := nodeId
  segment := frozen
  treeSegmentCount := 1
  treeMessageCount := frozen.throughLocalMessageCount
  leftTreeId := none
  rightTreeId := none
  nextForestId := nextForestId
  covering := Nat.zero_lt_one
  counting := le_refl _
  childless _ := ⟨rfl, rfl⟩

/-- `nodeId` is the fresh identifier that a new node is given. -/
def buildForkIndexNodeFromRoots (nodeId : String) (roots : List ConversationHistoryIndexNodeRecord)
    (sourceHistoryId : String) (sourceLocalMessageCount : Nat) : Except Raised ForkIndex :=
  if sourceLocalMessageCount = 0 then .ok (.head (roots.head?.map (·.nodeId)))
  else do
    let frozen ← segmentRef sourceHistoryId sourceLocalMessageCount
    match roots with
    | first :: second :: _ =>
      if first.treeSegmentCount = second.treeSegmentCount then
        return .node (joinedNode nodeId frozen first second)
      else return .node (leafNode nodeId frozen (some first.nodeId))
    | [first] => return .node (leafNode nodeId frozen (some first.nodeId))
    | [] => return .node (leafNode nodeId frozen none)

open Function

namespace ConversationStore

variable (store : ConversationStore)

def transcriptHead (historyId : String) : Option TranscriptHeadRecord :=
  (store.transcripts historyId).head.map StoredHead.head

/-- The insertion of a branch descriptor together with its empty transcript head. -/
def insertHistory (record : ConversationHistoryRecord) : ConversationStore :=
  { store with
    histories := update store.histories record.historyId (some record)
    transcripts := update store.transcripts record.historyId
      (createHead record.historyId (store.transcripts record.historyId)) }

variable {record : ConversationHistoryRecord}

@[simp] theorem insertHistory_histories_self :
    (store.insertHistory record).histories record.historyId = some record :=
  update_self _ _ _

theorem insertHistory_histories_of_ne (different : historyId ≠ record.historyId) :
    (store.insertHistory record).histories historyId = store.histories historyId :=
  update_of_ne different _ _

@[simp] theorem insertHistory_transcripts_self :
    (store.insertHistory record).transcripts record.historyId =
      createHead record.historyId (store.transcripts record.historyId) :=
  update_self _ _ _

/-- `create_in_transaction` of a branch descriptor. -/
def createHistory (record : ConversationHistoryRecord) :
    Except Raised (ConversationHistoryRecord × ConversationStore) :=
  match store.histories record.historyId with
  | some existing => do
    refuse (existing ≠ record) (.ai .idempotencyConflict)
    refuse (store.transcriptHead record.historyId = none) .integrity
    return (existing, store)
  | none => do
    refuse (store.transcriptHead record.historyId ≠ none) .conflict
    return (record, store.insertHistory record)

def getIndexNode (nodeId : String) : Except Raised ConversationHistoryIndexNodeRecord := do
  let node ← orRaise (store.indexNodes nodeId) .integrity
  refuse (node.nodeId ≠ nodeId) .integrity
  return node

def insertIndexNode (node : ConversationHistoryIndexNodeRecord) :
    Except Raised ConversationStore := do
  refuse (store.indexNodes node.nodeId ≠ none) .conflict
  return { store with indexNodes := update store.indexNodes node.nodeId (some node) }

/-- The loop of `get_forest_roots_in_transaction`. -/
def followRoots (maxRoots : Nat) : Nat → List String → Option String →
    Except Raised (List ConversationHistoryIndexNodeRecord)
  | _, _, none => .ok []
  | 0, _, some _ => if 2 < maxRoots then .error .integrity else .ok []
  | budget + 1, visited, some cursor => do
    refuse (cursor ∈ visited) .integrity
    let node ← store.getIndexNode cursor
    let later ← followRoots maxRoots budget (cursor :: visited) node.nextForestId
    return node :: later

def getForestRoots (headId : Option String) (maxRoots : Nat) :
    Except Raised (List ConversationHistoryIndexNodeRecord) := do
  refuse (maxRoots < 1) (.valueError "max_roots must be positive")
  store.followRoots maxRoots maxRoots [] headId

/-- The index behind a source's local messages, under a fresh identifier. -/
def extendIndex (nodeId : String) (prefixHead : Option String) (sourceHistoryId : String)
    (localMessages : Nat) : Except Raised (Option String × ConversationStore) :=
  if 0 < localMessages then do
    let roots ← store.getForestRoots prefixHead 2
    let index ← buildForkIndexNodeFromRoots nodeId roots sourceHistoryId localMessages
    match index with
    | .head none => return (prefixHead, store)
    | .head (some kept) => return (some kept, store)
    | .node node => do
      let after ← store.insertIndexNode node
      return (some node.nodeId, after)
  else .ok (prefixHead, store)

def ensureProjection (sourceHistoryId childHistoryId : String) : Except Raised ConversationStore :=
  match store.projections sourceHistoryId with
  | none => .ok store
  | some projection =>
    match store.projections childHistoryId with
    | none =>
      .ok { store with
        projections := update store.projections childHistoryId (some projection) }
    | some existing => do
      refuse (existing ≠ projection) .integrity
      return store

/-- A fork of all that the source holds.  An existing root branch of the same session is
turned into the child. -/
def fork (sourceHistoryId childHistoryId sessionId nodeId : String) :
    Except Raised (ConversationHistoryRecord × ConversationStore) := do
  let source ← orRaise (store.histories sourceHistoryId) (.ai .sessionHistoryUnavailable)
  let head ← orRaise (store.transcriptHead sourceHistoryId) .integrity
  let (prefixHead, indexed) ←
    store.extendIndex nodeId source.prefixIndexHeadId sourceHistoryId head.messageCount
  let child ← historyRecord childHistoryId sessionId (some sourceHistoryId) prefixHead
    (source.inheritedMessageCount + head.messageCount)
  match indexed.histories childHistoryId with
  | none => do
    let (created, inserted) ← indexed.createHistory child
    let after ← inserted.ensureProjection sourceHistoryId childHistoryId
    return (created, after)
  | some existing =>
    if existing = child then do
      let after ← indexed.ensureProjection sourceHistoryId childHistoryId
      return (existing, after)
    else if existing.sessionId = sessionId ∧ existing.parentHistoryId = none ∧
        existing.inheritedMessageCount = 0 then do
      let replaced :=
        { indexed with
          histories := update indexed.histories childHistoryId (some child) }
      let after ← replaced.ensureProjection sourceHistoryId childHistoryId
      return (child, after)
    else .error (.ai .idempotencyConflict)

/-- Appends chunks to a branch, with the projection that they lead to. -/
def appendChunks (historyId : String) (chunks : List TranscriptChunk)
    (quality : Option HistoryQuality) (projection : Option String) :
    Except Raised ConversationStore := do
  let transcript ← (store.transcripts historyId).appendChunks historyId chunks quality
  return { store with
    transcripts := update store.transcripts historyId transcript
    projections :=
      if chunks = [] ∨ projection = none then store.projections
      else update store.projections historyId projection }

end ConversationStore

structure HistorySegment where
  historyId : String
  start : Nat
  stop : Nat
deriving DecidableEq

def ResolvedSegment.historySegment (resolved : ResolvedSegment) : HistorySegment :=
  ⟨resolved.segment.ownerHistoryId, resolved.localStart, resolved.localEnd⟩

/-- A `ValueError` of a read is an integrity error. -/
def asIntegrity {α : Type} : Except Raised α → Except Raised α
  | .error (.valueError _) => .error .integrity
  | other => other

namespace ConversationRepository

variable (repo : ConversationRepository) (store : ConversationStore)

def prefetch (historyId : String) (head : TranscriptHeadRecord) (segments : List HistorySegment) :
    Except Raised (List HistorySegment) :=
  match segments with
  | [] => .ok []
  | first :: rest => do
    let observedHead := if first.historyId = historyId then some head else none
    let _ ← (store.transcripts first.historyId).readRangeStart first.historyId
      ⟨first.start, first.stop⟩ observedHead
    return first :: rest

def historyMessageSegments (historyId : String) (start stop : Int) :
    Except Raised (List HistorySegment) := do
  refuse (start < 0 ∨ stop < start) .conflict
  asIntegrity do
    let record ← orRaise (store.histories historyId) (.ai .sessionHistoryUnavailable)
    let head ← orRaise (store.transcriptHead historyId) .integrity
    refuse (head.ownerId ≠ historyId) .integrity
    let total := record.inheritedMessageCount + head.messageCount
    refuse (total < stop) .integrity
    if start = stop then return []
    else do
      let roots ← store.getForestRoots record.prefixIndexHeadId 64
      let resolved ← resolveHistoryRangeLazy store.getIndexNode repo.recursionLimit roots
        historyId head.messageCount record.inheritedMessageCount start.toNat stop.toNat
      prefetch store historyId head (resolved.map ResolvedSegment.historySegment)

end ConversationRepository

end Linktools.Conversation
