import Linktools.Conversation.Sessions

namespace Linktools.Conversation

open Linktools.Core Library

/-! A page of a session's timeline: its turns and those it was forked from, newest first, and
the signed cursor. -/

/-- What a cursor says; a position is the value that its JSON text denotes. -/
structure CursorPayload where
  tenantId : String
  resourceKind : String
  filterDigest : String
  position : Option JsonValue
  revision : Nat
  expiresAt : Nat

structure CursorToken (Signature : Type) where
  payload : CursorPayload
  keyId : String
  signature : Signature

/-- The signer with its keys; `hmac` is the keyed digest of a payload and a key id. -/
structure HmacCursorSigner (Secret Signature : Type) where
  currentKeyId : String
  currentKey : Secret
  previous : Option (String × Secret) := none
  hmac : Secret → CursorPayload → String → Signature
  apart : ∀ entry ∈ previous, entry.1 ≠ currentKeyId

def cursorTtlSeconds : Nat := 3600

namespace HmacCursorSigner

variable {Secret Signature : Type} (signer : HmacCursorSigner Secret Signature)

def encode (payload : CursorPayload) : CursorToken Signature where
  payload := payload
  keyId := signer.currentKeyId
  signature := signer.hmac signer.currentKey payload signer.currentKeyId

def key (keyId : String) : Option Secret :=
  if keyId = signer.currentKeyId then some signer.currentKey
  else (signer.previous.filter fun entry => entry.1 = keyId).map Prod.snd

def decode [DecidableEq Signature] (now : Nat) (token : CursorToken Signature) :
    Except Raised CursorPayload := do
  let key ← orRaise (signer.key token.keyId) (.ai .cursorInvalid)
  refuse (token.signature ≠ signer.hmac key token.payload token.keyId) (.ai .cursorInvalid)
  refuse (token.payload.expiresAt < now) (.ai .cursorInvalid)
  return token.payload

def encodeCursor (now : Nat) (tenantId resourceKind filterDigest : String)
    (position : JsonValue) : Except Raised (CursorToken Signature) := do
  refuse (tenantId = "") (.valueError "cursor tenant is invalid")
  return signer.encode
    { tenantId := tenantId
      resourceKind := resourceKind
      filterDigest := filterDigest
      position := some position
      revision := 0
      expiresAt := now + cursorTtlSeconds }

def decodeCursor [DecidableEq Signature] (now : Nat) (token : CursorToken Signature)
    (tenantId resourceKind filterDigest : String) : Except Raised CursorPayload := do
  let payload ← signer.decode now token
  refuse (payload.tenantId ≠ tenantId ∨ payload.resourceKind ≠ resourceKind ∨
    payload.filterDigest ≠ filterDigest) (.ai .cursorInvalid)
  return payload

end HmacCursorSigner

structure TimelineExecution where
  executionId : String
  sessionId : Option String
  parentExecutionId : Option String
  principalId : String
  conversation : Bool
  status : ExecutionStatus
  createdAt : Time
  updatedAt : Time
  storedUserInput : String
  errorCode : Option String
  safeErrorDetails : JsonMapping

/-- One call for a page: the rows it finds, the clock, and the execution that the caller holds
for the next turn. -/
structure TimelineRequest where
  store : ConversationStore
  executions : String → Option TimelineExecution
  now : Nat
  pendingExecution : Option TimelineExecution := none

/-- What the pages are read with: the repository, the signer, the digest of the filter, and the
loaders of the bodies. -/
structure TimelineReader (Secret Signature Message Item : Type) where
  repository : ConversationRepository
  signer : HmacCursorSigner Secret Signature
  filterDigest : String → String
  messageRange : SessionRecord → Int → Int → Except Raised (List Message)
  items : List Message → List Item
  committedOutput : String → Except Raised JsonValue

structure SessionTurn (Item : Type) where
  executionId : String
  status : ExecutionStatus
  createdAt : Time
  updatedAt : Time
  userInput : String
  committed : Bool
  items : List Item
  errorCode : Option String
  safeErrorDetails : JsonMapping
  output : JsonValue

structure Page (α Signature : Type) where
  items : List α
  nextCursor : Option (CursorToken Signature) := none

namespace ConversationStore

variable (store : ConversationStore)

def timelineHead (sessionId : String) : Nat := store.turnSequences sessionId

/-- The numbers from `start` up to `stop`. -/
def sequenceRange (start stop : Int) : List Int :=
  (List.range (stop - start).toNat).map fun (offset : Nat) => start + (offset : Int)

def listTimelineTurns (sessionId : String) (startTurnSeq endTurnSeq : Int) :
    Except Raised (List SessionTurnRef) := do
  refuse (startTurnSeq < 1 ∨ endTurnSeq < startTurnSeq)
    (.valueError "session timeline range is invalid")
  let facts := ((store.turns sessionId).filter fun fact =>
    startTurnSeq - 1 < (fact.sequence : Int)).take (endTurnSeq - startTurnSeq).toNat
  let selected := facts.filter fun fact => (fact.sequence : Int) < endTurnSeq
  refuse (selected.map (fun fact => (fact.sequence : Int)) ≠ sequenceRange startTurnSeq endTurnSeq)
    .integrity
  selected.mapM fun fact => turnRef sessionId fact.sequence fact.data

def listTimelineCommits (sessionId : String) (startTurnSeq endTurnSeq : Int) :
    Except Raised (List SessionTurnCommit) := do
  refuse (startTurnSeq < 1 ∨ endTurnSeq < startTurnSeq)
    (.valueError "session timeline range is invalid")
  let stored := (sequenceRange startTurnSeq endTurnSeq).filterMap fun sequence =>
    (store.turnCommits (sessionId, sequence)).map fun commit => (sequence, commit)
  stored.mapM fun (sequence, commit) => decodeTimelineCommit sessionId sequence commit

end ConversationStore

abbrev TimelineBlock := SessionRecord × List SessionTurnRef

abbrev Coordinate := String × Int

structure TimelineRound where
  remaining : Nat
  newestFirst : List TimelineBlock := []
  visited : List String := []
  sourceId : String
  sourceBefore : Option Int
  current : Option SessionRecord

section Blocks

variable (store : ConversationStore) (root : SessionRecord) (coordinate : Option Coordinate)
  (pendingExecution : Option TimelineExecution)

def timelineSource (sourceId : String) (current : Option SessionRecord) :
    Except Raised SessionRecord :=
  match current.filter fun record => record.sessionId = sourceId with
  | some record => .ok record
  | none => do
    let record ← orRaise (store.sessions sourceId) (.ai .sessionHistoryUnavailable)
    refuse (record.sessionId ≠ sourceId ∨ record.ownerPrincipalId ≠ root.ownerPrincipalId)
      .integrity
    return record

def shownPending (sourceId : String) : Option TimelineExecution :=
  if coordinate = none ∧ sourceId = root.sessionId then pendingExecution else none

/-- The turns from `start` on, with the pending one behind the last. -/
def pageTurns (sourceId : String) (start before : Int) (pending : Option TimelineExecution) :
    Except Raised (List SessionTurnRef) := do
  let head := store.timelineHead sourceId
  let values ← store.listTimelineTurns sourceId
    (if pending.isSome ∧ head ≠ 0 then min start head else start) (min before (head + 1))
  match pending with
  | none => return values
  | some execution => do
    refuse (∃ value ∈ values, value.executionId = execution.executionId) .integrity
    let synthetic ← ConversationStore.turnRef sourceId (head + 1) execution.executionId
    return values.filter (fun value => start ≤ value.turnSeq) ++ [synthetic]

def roundTurns (sourceId : String) (available : Nat) (start before : Int)
    (pending : Option TimelineExecution) : Except Raised (List SessionTurnRef) :=
  if available = 0 then .ok [] else pageTurns store sourceId start before pending

def TimelineRound.climb (round : TimelineRound) (current : SessionRecord) (start : Int) :
    Except Raised (TimelineRound × Bool) :=
  if round.remaining = 0 then .ok (round, false)
  else do
    refuse (1 < start) .integrity
    match current.timelineParentSessionId with
    | none => return ({ round with sourceId := "" }, false)
    | some parent => return ({ round with
        sourceId := parent
        sourceBefore := some (current.timelineParentTurnSeq + 1)
        current := none }, true)

def timelineRound (round : TimelineRound) : Except Raised (TimelineRound × Bool) := do
  refuse (round.sourceId ∈ round.visited) .integrity
  let current ← timelineSource store root round.sourceId round.current
  let pending := shownPending root coordinate pendingExecution round.sourceId
  let displayHead := store.timelineHead round.sourceId + pending.toList.length
  let before := round.sourceBefore.getD ((displayHead : Int) + 1)
  refuse (before < 1 ∨ (displayHead : Int) + 1 < before) (.ai .cursorInvalid)
  let available := (before - 1).toNat
  let start := before - (min round.remaining available : Nat)
  let values ← roundTurns store round.sourceId available start before pending
  let after : TimelineRound :=
    { remaining := round.remaining - values.length
      newestFirst := if available = 0 then round.newestFirst
        else round.newestFirst ++ [(current, values)]
      visited := round.sourceId :: round.visited
      sourceId := round.sourceId
      sourceBefore := some start
      current := some current }
  after.climb current start

def timelineLoop : Nat → TimelineRound → Option (Except Raised TimelineRound)
  | 0, _ => none
  | fuel + 1, round =>
    match timelineRound store root coordinate pendingExecution round with
    | .error raised => some (.error raised)
    | .ok (after, false) => some (.ok after)
    | .ok (after, true) => timelineLoop fuel after

def stoppedSession (round : TimelineRound) : Except Raised SessionRecord :=
  match round.current.filter fun record => record.sessionId = round.sourceId with
  | some record => .ok record
  | none => orRaise (store.sessions round.sourceId) (.ai .sessionHistoryUnavailable)

def nextCoordinate (round : TimelineRound) : Except Raised (Option Coordinate) :=
  if round.sourceId = "" then .ok none
  else do
    let current ← stoppedSession store round
    let before := round.sourceBefore.getD 1
    return if 1 < before ∨ current.timelineParentSessionId ≠ none then
      some (round.sourceId, before) else none

/-- Every turn of the loop but the first takes a turn of the timeline, so that one more than
the limit is enough for the loop. -/
def timelineBlocks (limit : Nat) : Except Raised (List TimelineBlock × Option Coordinate) := do
  let round ← (timelineLoop store root coordinate pendingExecution (limit + 1)
    { remaining := limit
      sourceId := coordinate.elim root.sessionId Prod.fst
      sourceBefore := coordinate.map Prod.snd
      current := if coordinate.elim root.sessionId Prod.fst = root.sessionId then some root
        else none }).getD (.error .integrity)
  let next ← nextCoordinate store round
  return (round.newestFirst.reverse, next)

end Blocks

def validatePageLimit (limit : Int) : Except Raised Nat := do
  refuse (limit < 1 ∨ 200 < limit) (.ai .pageLimitInvalid)
  return limit.toNat

structure SessionTimelineCapture where
  root : SessionRecord
  blocks : List TimelineBlock
  nextCoordinate : Option Coordinate
  executions : List TimelineExecution
  commits : List SessionTurnCommit

def commitOf (commits : List SessionTurnCommit) (ref : SessionTurnRef) : Option SessionTurnCommit :=
  commits.find? fun commit => commit.sessionId = ref.sessionId ∧ commit.turnSeq = ref.turnSeq

def blockCommits (store : ConversationStore) (block : TimelineBlock) :
    Except Raised (List SessionTurnCommit) :=
  match block.2.head?, block.2.getLast? with
  | some first, some last => do
    let values ← store.listTimelineCommits block.1.sessionId first.turnSeq (last.turnSeq + 1)
    refuse (∃ value ∈ values, ¬∃ ref ∈ block.2,
      ref.turnSeq = value.turnSeq ∧ ref.executionId = value.executionId) .integrity
    return values
  | _, _ => .ok []

namespace TimelineReader

variable {Secret Signature Message Item : Type} [DecidableEq Signature]
  (reader : TimelineReader Secret Signature Message Item)

def observedPending (request : TimelineRequest) (root : SessionRecord) : Option TimelineExecution :=
  request.pendingExecution.filter fun pending =>
    root.status = .open ∧ root.activeExecutionId = none ∧ pending.sessionId = some root.sessionId ∧
      pending.principalId = root.ownerPrincipalId ∧ root.createdAt ≤ pending.createdAt ∧
      (request.executions pending.executionId).isNone = true

def timelineCursor (now : Nat) (sessionId : String) (coordinate : Coordinate) :
    Except Raised (CursorToken Signature) :=
  reader.signer.encodeCursor now reader.repository.tenantId "SESSION_TIMELINE"
    (reader.filterDigest sessionId) (.arr [.str coordinate.1, .int coordinate.2])

def cursorBehind (now : Nat) (sessionId : String) :
    Option Coordinate → Except Raised (Option (CursorToken Signature))
  | none => .ok none
  | some coordinate => some <$> reader.timelineCursor now sessionId coordinate

def decodeTimelineCursor (now : Nat) (sessionId : String) :
    Option (CursorToken Signature) → Except Raised (Option Coordinate)
  | none => .ok none
  | some token => do
    let payload ← reader.signer.decodeCursor now token reader.repository.tenantId
      "SESSION_TIMELINE" (reader.filterDigest sessionId)
    match payload.position with
    | some (.arr [.str source, .int before]) => do
      refuse (payload.revision ≠ 0 ∨ source = "" ∨ before < 1) (.ai .cursorInvalid)
      return some (source, before)
    | _ => .error (.ai .cursorInvalid)

def readBlocks (request : TimelineRequest) (sessionId : String)
    (cursor : Option (CursorToken Signature)) (limit : Int) :
    Except Raised (SessionRecord × List TimelineBlock × Option Coordinate) := do
  let root ← orRaise (request.store.sessions sessionId) (.ai .authorizationDenied)
  refuse (root.sessionId ≠ sessionId) (.ai .authorizationDenied)
  let limit ← validatePageLimit limit
  let coordinate ← reader.decodeTimelineCursor request.now sessionId cursor
  let (blocks, next) ← timelineBlocks request.store root coordinate (observedPending request root)
    limit
  return (root, blocks, next)

def executionRecords (request : TimelineRequest) (pending : Option TimelineExecution)
    (blocks : List TimelineBlock) (commits : List SessionTurnCommit) :
    Except Raised (List TimelineExecution) := do
  let ids := (((blocks.flatMap Prod.snd).filter fun ref => (commitOf commits ref).isNone).map
    (·.executionId)).dedup
  let ids := ids.filter fun id => ¬∃ execution ∈ pending, execution.executionId = id
  let records ← ids.mapM fun id => orRaise (request.executions id) .integrity
  return pending.toList ++ records

def captureSessionTimeline (request : TimelineRequest) (sessionId : String)
    (cursor : Option (CursorToken Signature)) (limit : Int) :
    Except Raised SessionTimelineCapture := do
  let (root, blocks, next) ← reader.readBlocks request sessionId cursor limit
  let commits ← blocks.mapM (blockCommits request.store)
  let pending := if cursor = none then observedPending request root else none
  let executions ← executionRecords request pending blocks commits.flatten
  return ⟨root, blocks, next, executions, commits.flatten⟩

/-- The messages of the committed turns of a block, and the index of the first one. -/
def blockMessages (commits : List SessionTurnCommit) (block : TimelineBlock) :
    Except Raised (List Message × Int) :=
  let committed := commits.filter fun commit =>
    commit.sessionId = block.1.sessionId ∧ commit.startMessageIndex < commit.endMessageIndex
  match (committed.map (·.startMessageIndex)).min?, (committed.map (·.endMessageIndex)).max? with
  | some first, some last => do
    refuse (block.1.continuation = none) (.ai .sessionHistoryUnavailable)
    let loaded ← reader.messageRange block.1 first last
    refuse ((loaded.length : Int) ≠ last - first) (.ai .sessionHistoryUnavailable)
    return (loaded, first)
  | _, _ => .ok ([], 0)

def turnItems (messages : String → List Message × Int) (commit : SessionTurnCommit) :
    Except Raised (List Item) :=
  if commit.startMessageIndex < commit.endMessageIndex then do
    let (source, base) := messages commit.sessionId
    let start := commit.startMessageIndex - base
    let stop := commit.endMessageIndex - base
    refuse (start < 0 ∨ source.length < stop ∨ stop ≤ start) .integrity
    return reader.items ((source.take stop.toNat).drop start.toNat)
  else .ok []

def turnOutput (commit : SessionTurnCommit) : Except Raised JsonValue :=
  match commit.status, commit.output with
  | .succeeded, some output => reader.committedOutput output
  | .failed, none | .cancelled, none => .ok .null
  | _, _ => .error .integrity

def committedTurn (messages : String → List Message × Int) (ref : SessionTurnRef)
    (commit : SessionTurnCommit) : Except Raised (SessionTurn Item) := do
  refuse (commit.executionId ≠ ref.executionId) .integrity
  let items ← reader.turnItems messages commit
  let output ← reader.turnOutput commit
  return { executionId := ref.executionId
           status := commit.status
           createdAt := commit.createdAt
           updatedAt := commit.updatedAt
           userInput := commit.storedUserInput
           committed := true
           items := items
           errorCode := commit.errorCode
           safeErrorDetails := commit.safeErrorDetails
           output := output }

def admittedTurn (executions : List TimelineExecution) (ref : SessionTurnRef) :
    Except Raised (SessionTurn Item) := do
  let execution ← orRaise
    (executions.find? fun execution => execution.executionId = ref.executionId) .integrity
  refuse (execution.sessionId ≠ some ref.sessionId ∨ execution.parentExecutionId ≠ none) .integrity
  refuse (execution.conversation = true ∧ (execution.status = .succeeded ∨
    execution.status = .failed ∨ execution.status = .cancelled)) (.ai .storageRecoveryRequired)
  refuse (execution.status = .succeeded) (.ai .sessionHistoryUnavailable)
  return { executionId := ref.executionId
           status := execution.status
           createdAt := execution.createdAt
           updatedAt := execution.updatedAt
           userInput := execution.storedUserInput
           committed := false
           items := []
           errorCode := execution.errorCode
           safeErrorDetails := execution.safeErrorDetails
           output := .null }

def projectTurn (state : SessionTimelineCapture) (messages : String → List Message × Int)
    (ref : SessionTurnRef) : Except Raised (SessionTurn Item) :=
  match commitOf state.commits ref with
  | some commit => reader.committedTurn messages ref commit
  | none => admittedTurn state.executions ref

def projectCapturedSessionTimeline (state : SessionTimelineCapture) (now : Nat)
    (sessionId : String) : Except Raised (Page (SessionTurn Item) Signature) := do
  let refs := state.blocks.flatMap Prod.snd
  if refs = [] then return { items := [] }
  else do
    let loaded ← state.blocks.mapM fun block => do
      let messages ← reader.blockMessages state.commits block
      return (block.1.sessionId, messages)
    let turns ← refs.mapM fun ref =>
      reader.projectTurn state (fun source => (loaded.lookup source).getD ([], 0)) ref
    let cursor ← reader.cursorBehind now sessionId state.nextCoordinate
    return { items := turns, nextCursor := cursor }

def projectSessionTimeline (request : TimelineRequest) (sessionId : String)
    (cursor : Option (CursorToken Signature)) (limit : Int) :
    Except Raised (Page (SessionTurn Item) Signature) := do
  let state ← reader.captureSessionTimeline request sessionId cursor limit
  reader.projectCapturedSessionTimeline state request.now sessionId

end TimelineReader

end Linktools.Conversation
