import Linktools.Conversation.Sessions

namespace Linktools.Conversation

open Linktools.Core Library Persistence ConversationStore Function

variable {repo : ConversationRepository} {store after : ConversationStore}
  {record next current : SessionRecord} {tenantId sessionId executionId : String}
  {now : Time} {outcome : TurnOutcome}

theorem validated_ok (valid : record.validated = .ok result) :
    result = record ∧ (∀ active ∈ record.activeExecutionId, active ≠ "") := by
  simp only [SessionRecord.validated, bind_eq_ok, refuse_eq_ok] at valid
  obtain ⟨_, _, _, active, _, _, _, _, _, _, parent⟩ := valid
  refine ⟨?_, ?_⟩
  · split at parent
    · simp only [bind_eq_ok, pure_eq_ok] at parent
      obtain ⟨_, _, same⟩ := parent
      exact same.symm
    · simp only [bind_eq_ok, pure_eq_ok] at parent
      obtain ⟨_, _, same⟩ := parent
      exact same.symm
  · rintro active' stored rfl
    exact active ⟨"", stored, rfl⟩

theorem commit_validated_ok {commit result : SessionTurnCommit}
    (valid : commit.validated = .ok result) : result = commit := by
  simp only [SessionTurnCommit.validated, bind_eq_ok, pure_eq_ok] at valid
  obtain ⟨_, _, _, _, _, _, _, _, same⟩ := valid
  exact same.symm

namespace ConversationStore

theorem getSession_eq_ok : store.getSession sessionId = .ok record ↔
      store.sessions sessionId = some record ∧ record.sessionId = sessionId := by
  simp only [getSession, bind_eq_ok, orRaise_eq_ok, refuse_eq_ok, pure_eq_ok, not_not]
  constructor
  · rintro ⟨_, found, _, named, rfl⟩
    exact ⟨found, named⟩
  · rintro ⟨found, named⟩
    exact ⟨record, found, (), named, rfl⟩

theorem replaceSession_eq_ok : store.replaceSession current next = .ok after ↔
      sameSessionIdentity current next ∧ after = store.putSession next := by
  simp only [replaceSession, bind_eq_ok, refuse_eq_ok, pure_eq_ok, not_not]
  constructor
  · rintro ⟨_, same, rfl⟩
    exact ⟨same, rfl⟩
  · rintro ⟨same, rfl⟩
    exact ⟨(), same, rfl⟩

variable {operation : OperationLedgerInput}

theorem appendOperation_ok (done : store.appendOperation operation = .ok (replayed, after)) :
    ∃ ledger, after = { store with ledger := ledger } := by
  simp only [appendOperation, bind_eq_ok, pair_eq_ok, Prod.exists] at done
  obtain ⟨_, ledger, _, _, rfl⟩ := done
  exact ⟨ledger, rfl⟩

def NewOperation (store : ConversationStore) (operation : OperationLedgerInput) : Prop :=
  rowAt (fun record => record.operationId) store.ledger.operations operation.operationId = none

theorem appendOperation_new (done : store.appendOperation operation = .ok (false, after)) :
    store.NewOperation operation := by
  simp only [appendOperation, bind_eq_ok, pair_eq_ok, Prod.exists] at done
  obtain ⟨_, _, appended, rfl, _⟩ := done
  unfold OperationLedger.append at appended
  split at appended
  case h_1 =>
    split at appended
    case isTrue => cases appended
    case isFalse => cases appended
  case h_2 absent => exact absent

theorem extendIndex_nodes
    (done : store.extendIndex nodeId head source localMessages = .ok (newHead, after)) :
    ∃ indexNodes, after = { store with indexNodes := indexNodes } := by
  unfold extendIndex at done
  split at done
  case isFalse =>
    cases done
    exact ⟨_, rfl⟩
  case isTrue =>
    obtain ⟨_, _, done⟩ := bind_eq_ok.mp done
    obtain ⟨index, _, done⟩ := bind_eq_ok.mp done
    split at done
    case h_1 =>
      cases done
      exact ⟨_, rfl⟩
    case h_2 =>
      cases done
      exact ⟨_, rfl⟩
    case h_3 =>
      simp only [insertIndexNode, bind_eq_ok, pure_eq_ok, Prod.mk.injEq] at done
      obtain ⟨_, ⟨_, _, rfl⟩, _, rfl⟩ := done
      exact ⟨_, rfl⟩

theorem insertSession_ok (done : store.insertSession record history = .ok after) :
    store.sessions record.sessionId = none ∧ store.histories history.historyId = none ∧
      store.transcriptHead history.historyId = none ∧
      after = (store.insertHistory history).putSession record := by
  simp only [insertSession, bind_eq_ok, refuse_eq_ok, pure_eq_ok, not_or, not_not] at done
  obtain ⟨_, ⟨session, historyFresh, headless⟩, rfl⟩ := done
  exact ⟨session, historyFresh, headless, rfl⟩

theorem insertTurnCommit_ok (done : store.insertTurnCommit commit = .ok after) :
    store.turnCommits (commit.sessionId, commit.turnSeq) = none ∧
      after = { store with
        turnCommits := update store.turnCommits (commit.sessionId, commit.turnSeq)
          (some commit) } := by
  simp only [insertTurnCommit, bind_eq_ok, refuse_eq_ok, pure_eq_ok, Bool.not_eq_true,
    Option.isSome_eq_false_iff, Option.isNone_iff_eq_none] at done
  obtain ⟨_, fresh, rfl⟩ := done
  exact ⟨fresh, rfl⟩

end ConversationStore

theorem newSessionHistory_ok (built : newSessionHistory record = .ok history) :
    record.historyId = some history.historyId ∧ history.sessionId = record.sessionId ∧
      history.parentHistoryId = none ∧ history.prefixIndexHeadId = none ∧
      history.inheritedMessageCount = 0 := by
  simp only [newSessionHistory, bind_eq_ok, orRaise_eq_ok] at built
  obtain ⟨historyId, found, built⟩ := built
  obtain ⟨rfl, session, parent, head, inherited⟩ := historyRecord_ok built
  exact ⟨found, session, parent, head, inherited⟩

namespace ConversationRepository

theorem requireRepositoryTenant_ok :
    repo.requireRepositoryTenant tenantId = .ok checked ↔ tenantId = repo.tenantId := by
  rw [requireRepositoryTenant, refuse_eq_ok, not_not]

def CreatesSession (store after : ConversationStore) (session : SessionRecord) : Prop :=
  ∃ ledger history, store.sessions session.sessionId = none ∧
    store.histories history.historyId = none ∧ store.transcriptHead history.historyId = none ∧
    session.historyId = some history.historyId ∧ history.sessionId = session.sessionId ∧
    history.parentHistoryId = none ∧ history.prefixIndexHeadId = none ∧
    history.inheritedMessageCount = 0 ∧
    after = ({ store with ledger := ledger }.insertHistory history).putSession session

theorem createSession_ok (done : repo.createSession store record = .ok (current, after)) :
    current = ensureSessionHistory repo record ∧ CreatesSession store after current := by
  simp only [createSession, bind_eq_ok, pair_eq_ok] at done
  obtain ⟨_, _, history, built, _, inserted, rfl, rfl⟩ := done
  obtain ⟨named, session, parent, head, inherited⟩ := newSessionHistory_ok built
  obtain ⟨sessionFresh, historyFresh, headless, rfl⟩ := insertSession_ok inserted
  exact ⟨rfl, store.ledger, history, sessionFresh, historyFresh, headless, named, session, parent,
    head, inherited, rfl⟩

variable {operation : OperationLedgerInput}

theorem createSessionWithOperation_ok
    (done : repo.createSessionWithOperation store record operation =
      .ok ((current, replayed), after)) : (∃ ledger, after = { store with ledger := ledger }) ∨
      (store.NewOperation operation ∧ current = ensureSessionHistory repo record) ∧
        CreatesSession store after current := by
  simp only [createSessionWithOperation, bind_eq_ok, Prod.exists] at done
  obtain ⟨_, _, _, _, known, noted, appended, done⟩ := done
  obtain ⟨ledger, rfl⟩ := appendOperation_ok appended
  split at done
  case isTrue =>
    simp only [bind_eq_ok, pair_eq_ok] at done
    obtain ⟨_, _, _, _, _, rfl⟩ := done
    exact .inl ⟨ledger, rfl⟩
  case isFalse unknown =>
    rw [Bool.not_eq_true] at unknown
    subst unknown
    simp only [bind_eq_ok, pair_eq_ok] at done
    obtain ⟨history, built, _, inserted, ⟨rfl, _⟩, rfl⟩ := done
    obtain ⟨named, session, parent, head, inherited⟩ := newSessionHistory_ok built
    obtain ⟨sessionFresh, historyFresh, headless, rfl⟩ := insertSession_ok inserted
    exact .inr ⟨⟨appendOperation_new appended, rfl⟩, ledger, history, sessionFresh, historyFresh,
      headless, named, session, parent, head, inherited, rfl⟩

def ForksSession (store after : ConversationStore) (sourceSessionId childHistoryId nodeId : String)
    (session : SessionRecord) : Prop :=
  ∃ ledger source sourceHistoryId sourceHistory sourceHead newHead indexed child projections,
    store.sessions sourceSessionId = some source ∧ source.sessionId = sourceSessionId ∧
    source.historyId = some sourceHistoryId ∧ store.histories sourceHistoryId = some sourceHistory ∧
    store.transcriptHead sourceHistoryId = some sourceHead ∧
    (sourceHistory.inheritedMessageCount : Int) ≤ committedTotal source
      (sourceHistory.inheritedMessageCount + sourceHead.messageCount) ∧
    committedTotal source (sourceHistory.inheritedMessageCount + sourceHead.messageCount) ≤
      (sourceHistory.inheritedMessageCount + sourceHead.messageCount : Nat) ∧
    { store with ledger := ledger }.extendIndex nodeId sourceHistory.prefixIndexHeadId
      sourceHistoryId ((committedTotal source
        (sourceHistory.inheritedMessageCount + sourceHead.messageCount)).toNat -
          sourceHistory.inheritedMessageCount) = .ok (newHead, indexed) ∧
    child.historyId = childHistoryId ∧ child.parentHistoryId = some sourceHistoryId ∧
    child.prefixIndexHeadId = newHead ∧ child.inheritedMessageCount = (committedTotal source
      (sourceHistory.inheritedMessageCount + sourceHead.messageCount)).toNat ∧
    indexed.sessions session.sessionId = none ∧ indexed.histories childHistoryId = none ∧
    indexed.transcriptHead childHistoryId = none ∧
    after = { (indexed.insertHistory child).putSession session with projections := projections }

variable {ledger : OperationLedger}

theorem forkSession_ok (noting : noted = { store with ledger := ledger })
    (done : forkSession noted sourceSessionId record childHistoryId expectedSourceRevision nodeId =
      .ok (current, after)) : (current.sessionId = record.sessionId ∧
        current.activeExecutionId = record.activeExecutionId) ∧
      ForksSession store after sourceSessionId childHistoryId nodeId current := by
  simp only [forkSession, bind_eq_ok, orRaise_eq_ok, refuse_eq_ok, not_or, not_lt,
    getSession_eq_ok, Prod.exists] at done
  obtain ⟨source, ⟨found, named⟩, _, _, _, _, _, _, sourceHistoryId, historyNamed, sourceHistory,
    historyFound, _, _, sourceHead, head, _, ⟨above, below⟩, newHead, indexed, extended, ancestor,
    cutoff, _, child, built, expected, valid, inserted, insertion, done⟩ := done
  obtain ⟨childNamed, _, parent, childHead, inherited⟩ := historyRecord_ok built
  obtain ⟨rfl, _⟩ := validated_ok valid
  obtain ⟨sessionFresh, historyFresh, headless, rfl⟩ := insertSession_ok insertion
  subst noting
  have result : current = forkTarget record childHistoryId (ancestor, cutoff) ∧ ∃ projections,
      after = { (indexed.insertHistory child).putSession current with
        projections := projections } := by
    split at done
    case h_1 =>
      simp only [pair_eq_ok] at done
      obtain ⟨rfl, rfl⟩ := done
      exact ⟨rfl, _, rfl⟩
    case h_2 =>
      simp only [bind_eq_ok, pair_eq_ok] at done
      obtain ⟨_, _, rfl, rfl⟩ := done
      exact ⟨rfl, _, rfl⟩
  obtain ⟨rfl, projections, rfl⟩ := result
  rw [childNamed] at historyFresh headless
  exact ⟨⟨rfl, rfl⟩, ledger, source, sourceHistoryId, sourceHistory, sourceHead, newHead,
    indexed, child,
    projections, found, named, historyNamed, historyFound, head, above, below, extended,
    childNamed, parent, childHead, inherited, sessionFresh, historyFresh, headless, rfl⟩

theorem createForkWithOperation_ok
    (done : repo.createForkWithOperation store sourceSessionId record expectedSourceRevision
      operation nodeId = .ok ((current, replayed), after)) :
    (∃ ledger child, store.histories (repo.sessionHistoryId record.sessionId) = some child ∧
        after = { store with ledger := ledger }) ∨
      (store.NewOperation operation ∧ current.sessionId = record.sessionId ∧
        current.activeExecutionId = record.activeExecutionId) ∧
      ForksSession store after sourceSessionId (repo.sessionHistoryId record.sessionId)
        nodeId current := by
  simp only [createForkWithOperation, bind_eq_ok, Prod.exists] at done
  obtain ⟨_, _, _, _, _, _, _, _, known, noted, appended, done⟩ := done
  obtain ⟨ledger, rfl⟩ := appendOperation_ok appended
  split at done
  case isTrue =>
    simp only [bind_eq_ok, pair_eq_ok] at done
    obtain ⟨_, replay, ⟨rfl, _⟩, rfl⟩ := done
    simp only [replayFork, bind_eq_ok, orRaise_eq_ok] at replay
    obtain ⟨_, named, _, _, _, _, child, found, _⟩ := replay
    cases named
    exact .inl ⟨ledger, child, found, rfl⟩
  case isFalse unknown =>
    rw [Bool.not_eq_true] at unknown
    subst unknown
    simp only [bind_eq_ok, pair_eq_ok, Prod.exists] at done
    obtain ⟨_, _, forked, ⟨rfl, _⟩, rfl⟩ := done
    obtain ⟨kept, forks⟩ := forkSession_ok rfl forked
    exact .inr ⟨⟨appendOperation_new appended, kept⟩, forks⟩

theorem promoteHistory_ok (done : promoteHistory store record ownerId = .ok (history, after)) :
    after = store ∨ store.histories history.historyId = none ∧
      store.transcriptHead history.historyId = none ∧ history.parentHistoryId = none ∧
      history.prefixIndexHeadId = none ∧ history.inheritedMessageCount = 0 ∧
      after = store.insertHistory history := by
  unfold promoteHistory at done
  dsimp only at done
  split at done
  case h_1 =>
    cases done
    exact .inl rfl
  case h_2 absent =>
    obtain ⟨built, constructed, created⟩ := bind_eq_ok.mp done
    obtain ⟨named, _, parent, head, inherited⟩ := historyRecord_ok constructed
    rw [createHistory, named, absent] at created
    simp only [bind_eq_ok, refuse_eq_ok, pair_eq_ok, not_not] at created
    obtain ⟨_, headless, rfl, rfl⟩ := created
    rw [named]
    exact .inr ⟨absent, headless, parent, head, inherited, rfl⟩

/-- The proposed record, but with the active execution of the stored one. -/
def KeepsActive (current next proposed : SessionRecord) : Prop :=
  (current.activeExecutionId = none ∧ proposed = next) ∨
    current.activeExecutionId ≠ none ∧ proposed.activeExecutionId = current.activeExecutionId

theorem keepActive_ok (done : keepActive current next = .ok record) :
    KeepsActive current next record := by
  unfold keepActive at done
  split at done
  case isTrue held =>
    obtain ⟨rfl, _⟩ := validated_ok done
    exact .inr ⟨held.1, rfl⟩
  case isFalse kept =>
    cases done
    by_cases free : current.activeExecutionId = none
    · exact .inl ⟨free, rfl⟩
    · rw [not_and_not_right] at kept
      exact .inr ⟨free, kept free⟩

def RewritesSession (store after : ConversationStore) (sessionId : String)
    (current next : SessionRecord) : Prop :=
  store.sessions sessionId = some current ∧ current.sessionId = sessionId ∧
    next.sessionId = sessionId ∧ next.historyId = current.historyId ∧
    ∃ ledger, after = { store with ledger := ledger }.putSession next

theorem RewritesSession.of_ok (noting : noted = { store with ledger := ledger })
    (found : store.getSession sessionId = .ok current)
    (replaced : noted.replaceSession current next = .ok after) :
    RewritesSession store after sessionId current next := by
  obtain ⟨stored, named⟩ := getSession_eq_ok.mp found
  obtain ⟨identity, rfl⟩ := replaceSession_eq_ok.mp replaced
  subst noting
  exact ⟨stored, named, identity.1.trans named, identity.2.2.2.1, ledger, rfl⟩

theorem compareAndSwap_ok
    (done : repo.compareAndSwap store tenantId sessionId expectedRevision next =
      .ok (record, after)) : ∃ current, RewritesSession store after sessionId current record ∧
      tenantId = repo.tenantId ∧ current.revision = expectedRevision ∧
      sameSessionIdentity current record ∧ KeepsActive current next record := by
  simp only [compareAndSwap, bind_eq_ok, requireRepositoryTenant_ok, refuse_eq_ok, pure_eq_ok,
    not_not, Prod.mk.injEq] at done
  obtain ⟨_, tenant, current, found, _, revision, _, kept, _, replaced, rfl, rfl⟩ := done
  exact ⟨current, .of_ok rfl found replaced, tenant, revision,
    (replaceSession_eq_ok.mp replaced).1, keepActive_ok kept⟩

theorem compareAndSwapWithOperation_ok
    (done : repo.compareAndSwapWithOperation store tenantId sessionId expectedRevision next
      operation = .ok ((record, replayed), after)) :
    (∃ ledger, after = { store with ledger := ledger }) ∨
      ∃ current, RewritesSession store after sessionId current record ∧
        (tenantId = repo.tenantId ∧ operation.tenantId = repo.tenantId ∧
          store.NewOperation operation) ∧ current.revision = expectedRevision ∧
        sameSessionIdentity current record ∧ KeepsActive current next record := by
  simp only [compareAndSwapWithOperation, bind_eq_ok, requireRepositoryTenant_ok, refuse_eq_ok,
    not_not, Prod.exists] at done
  obtain ⟨_, tenant, _, operationTenant, current, found, _, _, _, revision, _, kept, known, noted,
    appended, done⟩ := done
  obtain ⟨ledger, rfl⟩ := appendOperation_ok appended
  split at done
  case isTrue =>
    simp only [pair_eq_ok] at done
    exact .inl ⟨ledger, done.2.symm⟩
  case isFalse unknown =>
    rw [Bool.not_eq_true] at unknown
    subst unknown
    simp only [bind_eq_ok, pair_eq_ok] at done
    obtain ⟨_, replaced, ⟨rfl, _⟩, rfl⟩ := done
    exact .inr ⟨current, .of_ok rfl found replaced,
      ⟨tenant, operationTenant, appendOperation_new appended⟩, revision,
      (replaceSession_eq_ok.mp replaced).1, keepActive_ok kept⟩

theorem transitionStatus_ok
    (done : repo.transitionStatus store tenantId sessionId expected nextStatus closedAt
      requireNoActive owner now = .ok (record, after)) :
    ∃ current, RewritesSession store after sessionId current record ∧
      record.activeExecutionId = current.activeExecutionId := by
  simp only [transitionStatus, bind_eq_ok, pair_eq_ok] at done
  obtain ⟨_, _, current, found, _, _, _, _, _, _, _, valid, _, replaced, rfl, rfl⟩ := done
  obtain ⟨rfl, _⟩ := validated_ok valid
  exact ⟨current, .of_ok rfl found replaced, rfl⟩

theorem rememberRepositoryInstructionScopes_ok
    (done : repo.rememberRepositoryInstructionScopes store tenantId sessionId executionId
      scopes now = .ok (record, after)) :
    after = store ∨ ∃ current, RewritesSession store after sessionId current record ∧
      record.activeExecutionId = current.activeExecutionId := by
  simp only [rememberRepositoryInstructionScopes, bind_eq_ok] at done
  obtain ⟨_, _, current, found, _, _, done⟩ := done
  split at done
  case isTrue =>
    cases done
    exact .inl rfl
  case isFalse =>
    simp only [bind_eq_ok, pair_eq_ok] at done
    obtain ⟨_, valid, _, replaced, rfl, rfl⟩ := done
    obtain ⟨rfl, _⟩ := validated_ok valid
    exact .inr ⟨current, .of_ok rfl found replaced, rfl⟩

variable {expected : Option ConversationCursor}

theorem admitExecution_ok
    (done : repo.admitExecution store tenantId sessionId executionId expected
      expectedSession handsTurn = .ok ((record, turn), after)) :
    ∃ current, store.sessions sessionId = some current ∧ current.sessionId = sessionId ∧
      ((current.activeExecutionId = some executionId ∧ turn = none ∧ after = store) ∨
        (current.activeExecutionId = none ∧ current.status = .open ∧
            current.continuation = expected) ∧ executionId ≠ "" ∧
          record = { current with activeExecutionId := some executionId } ∧
          after = ((store.putSession record).insertTurn sessionId executionId).2) := by
  simp only [admitExecution, bind_eq_ok] at done
  obtain ⟨_, _, current, found, done⟩ := done
  obtain ⟨stored, named⟩ := getSession_eq_ok.mp found
  refine ⟨current, stored, named, ?_⟩
  obtain ⟨_, _, _, _, done⟩ := done
  split at done
  case isTrue replay =>
    simp only [pair_eq_ok] at done
    obtain ⟨⟨rfl, rfl⟩, rfl⟩ := done
    exact .inl ⟨replay.1, rfl, rfl⟩
  case isFalse =>
    simp only [bind_eq_ok, refuse_eq_ok, pure_eq_ok, not_or, not_not, Prod.mk.injEq] at done
    obtain ⟨_, opened, _, ⟨free, reached⟩, _, valid, _, replaced, _, _, ⟨rfl, rfl⟩, rfl⟩ := done
    obtain ⟨rfl, nonempty⟩ := validated_ok valid
    obtain ⟨_, rfl⟩ := replaceSession_eq_ok.mp replaced
    exact .inr ⟨⟨free, opened, reached⟩, nonempty executionId rfl, rfl, rfl⟩

theorem releaseExecution_ok
    (done : repo.releaseExecution store tenantId sessionId executionId historyUnavailable
      requireTurnCommit now = .ok (record, after)) :
    ∃ current, store.sessions sessionId = some current ∧ current.sessionId = sessionId ∧
      ((current.activeExecutionId ≠ some executionId ∧ after = store) ∨
        current.activeExecutionId = some executionId ∧ record.activeExecutionId = none ∧
          RewritesSession store after sessionId current record) := by
  simp only [releaseExecution, bind_eq_ok] at done
  obtain ⟨_, _, current, found, _, _, done⟩ := done
  obtain ⟨stored, named⟩ := getSession_eq_ok.mp found
  refine ⟨current, stored, named, ?_⟩
  split at done
  case isTrue elsewhere =>
    cases done
    exact .inl ⟨elsewhere, rfl⟩
  case isFalse held =>
    simp only [bind_eq_ok, pair_eq_ok] at done
    obtain ⟨_, valid, _, replaced, rfl, rfl⟩ := done
    obtain ⟨rfl, _⟩ := validated_ok valid
    exact .inr ⟨not_not.mp held, rfl, .of_ok rfl found replaced⟩

theorem advanceContinuation_ok {release : Bool} {nextCursor : ConversationCursor}
    (done : repo.advanceContinuation store release tenantId sessionId executionId expected
      nextCursor quality now = .ok (record, after)) : tenantId = repo.tenantId ∧
    ∃ current, store.sessions sessionId = some current ∧ current.sessionId = sessionId ∧
      ((current.continuation = some nextCursor ∧ after = store) ∨
        current.continuation ≠ some nextCursor ∧ current.activeExecutionId = some executionId ∧
          record.activeExecutionId = (if release then none else current.activeExecutionId) ∧
          RewritesSession store after sessionId current record) := by
  simp only [advanceContinuation, bind_eq_ok, requireRepositoryTenant_ok] at done
  obtain ⟨_, tenant, current, found, done⟩ := done
  obtain ⟨stored, named⟩ := getSession_eq_ok.mp found
  refine ⟨tenant, current, stored, named, ?_⟩
  split at done
  case isTrue advanced =>
    cases done
    exact .inl ⟨advanced, rfl⟩
  case isFalse behind =>
    simp only [bind_eq_ok, refuse_eq_ok, pure_eq_ok, not_or, not_not, Prod.mk.injEq] at done
    obtain ⟨_, ⟨held, _, _⟩, _, valid, _, replaced, rfl, rfl⟩ := done
    obtain ⟨rfl, _⟩ := validated_ok valid
    exact .inr ⟨behind, held, rfl, .of_ok rfl found replaced⟩

theorem commitTimelineTurn_ok {allowUnadmitted : Bool}
    (done : repo.commitTimelineTurn store tenantId sessionId executionId outcome
      allowUnadmitted admittedTurn = .ok (result, after)) : after = store ∨ ∃ turn : SessionTurnRef,
      committedTurn store sessionId executionId allowUnadmitted admittedTurn = .ok (some turn) ∧
      turn.executionId = executionId ∧ store.turnCommits (sessionId, turn.turnSeq) = none ∧
      after = { store with
        turnCommits := update store.turnCommits (sessionId, turn.turnSeq)
          (some (outcome.commit sessionId turn.turnSeq executionId)) } := by
  simp only [commitTimelineTurn, bind_eq_ok] at done
  obtain ⟨_, _, turn?, found, done⟩ := done
  split at done
  case h_1 =>
    cases done
    exact .inl rfl
  case h_2 turn =>
    obtain ⟨_, execution, done⟩ := bind_eq_ok.mp done
    rw [refuse_eq_ok, not_not] at execution
    split at done
    case h_1 =>
      simp only [bind_eq_ok, pair_eq_ok] at done
      obtain ⟨_, _, _, _, _, _, _, rfl⟩ := done
      exact .inl rfl
    case h_2 absent =>
      simp only [bind_eq_ok, pair_eq_ok] at done
      obtain ⟨_, _, _, valid, _, inserted, _, rfl⟩ := done
      have same := commit_validated_ok valid
      subst same
      obtain ⟨_, rfl⟩ := insertTurnCommit_ok inserted
      exact .inr ⟨turn, found, execution, absent, rfl⟩

def nextTurn (store : ConversationStore) (sessionId : String) : String × Int :=
  (sessionId, (store.turnSequences sessionId + 1 : Nat))

theorem commitPendingTurn_ok {expected : SessionRecord} {nextCursor : Option ConversationCursor}
    (done : commitPendingTurn store expected executionId nextCursor outcome now =
      .ok (record, after)) :
    ∃ current, RewritesSession store (store.putSession record) expected.sessionId current record ∧
      (current.activeExecutionId = none ∧ current.status = .open ∧
        current.same expected = true) ∧ record.activeExecutionId = none ∧
      store.turnCommits (nextTurn store expected.sessionId) = none ∧
      after = { ((store.putSession record).insertTurn expected.sessionId executionId).2 with
        turnCommits := update store.turnCommits (nextTurn store expected.sessionId)
          (some (outcome.commit expected.sessionId (store.turnSequences expected.sessionId
          + 1 : Nat) executionId)) } := by
  simp only [commitPendingTurn, bind_eq_ok, refuse_eq_ok, pure_eq_ok, not_or, Prod.mk.injEq] at done
  obtain ⟨current, found, _, ⟨same, opened, free⟩, _, _, _, valid, _, replaced, committed, built,
    _, inserted, rfl, rfl⟩ := done
  have named := (getSession_eq_ok.mp found).2
  obtain ⟨rfl, _⟩ := validated_ok valid
  have noting : store = { store with ledger := store.ledger } := rfl
  have rewrites := RewritesSession.of_ok noting found replaced
  obtain ⟨_, rfl⟩ := replaceSession_eq_ok.mp replaced
  have committedAs := commit_validated_ok built
  subst committedAs
  obtain ⟨fresh, rfl⟩ := insertTurnCommit_ok inserted
  have held := not_not.mp free
  rw [named] at fresh rewrites ⊢
  exact ⟨current, rewrites, ⟨held, not_not.mp opened, Bool.not_eq_false _ ▸ same⟩, held, fresh, rfl⟩

end ConversationRepository

namespace ConversationStore

theorem ensureProjection_ok
    (done : store.ensureProjection sourceHistoryId childHistoryId = .ok after) :
    ∃ projections, after = { store with projections := projections } := by
  unfold ensureProjection at done
  split at done
  case h_1 =>
    cases done
    exact ⟨_, rfl⟩
  case h_2 =>
    split at done
    case h_1 =>
      cases done
      exact ⟨_, rfl⟩
    case h_2 =>
      simp only [bind_eq_ok, pure_eq_ok] at done
      obtain ⟨_, _, rfl⟩ := done
      exact ⟨_, rfl⟩

/-- A branch that a fork leaves behind: inserted, or put in the place of a root branch. -/
def PutsChild (indexed after : ConversationStore) (child : ConversationHistoryRecord) : Prop :=
  ∃ projections,
    (indexed.histories child.historyId = none ∧ indexed.transcriptHead child.historyId = none ∧
      after = { indexed.insertHistory child with projections := projections }) ∨
    (∃ existing, indexed.histories child.historyId = some existing) ∧
      after = { indexed with
        histories := update indexed.histories child.historyId (some child)
        projections := projections }

theorem fork_ok
    (done : store.fork sourceHistoryId childHistoryId sessionId nodeId = .ok (child, after)) :
    ∃ source head newHead indexed, store.histories sourceHistoryId = some source ∧
      store.transcriptHead sourceHistoryId = some head ∧
      store.extendIndex nodeId source.prefixIndexHeadId sourceHistoryId head.messageCount =
        .ok (newHead, indexed) ∧
      child.historyId = childHistoryId ∧ child.parentHistoryId = some sourceHistoryId ∧
      child.prefixIndexHeadId = newHead ∧
      child.inheritedMessageCount = source.inheritedMessageCount + head.messageCount ∧
      PutsChild indexed after child := by
  simp only [fork, bind_eq_ok, orRaise_eq_ok, Prod.exists] at done
  obtain ⟨source, found, head, headed, newHead, indexed, extended, built, constructed, done⟩ := done
  obtain ⟨named, _, parent, childHead, inherited⟩ := historyRecord_ok constructed
  have puts : child = built ∧ PutsChild indexed after built := by
    rw [← named] at done
    split at done
    case h_1 absent =>
      simp only [createHistory, absent, bind_eq_ok, refuse_eq_ok, pure_eq_ok, Prod.exists,
        Prod.mk.injEq, not_not] at done
      obtain ⟨_, _, ⟨_, headless, rfl, rfl⟩, _, projected, rfl, rfl⟩ := done
      obtain ⟨projections, rfl⟩ := ensureProjection_ok projected
      exact ⟨rfl, projections, .inl ⟨absent, headless, rfl⟩⟩
    case h_2 existing present =>
      split at done
      case isTrue same =>
        simp only [bind_eq_ok, pair_eq_ok] at done
        obtain ⟨_, projected, rfl, rfl⟩ := done
        obtain ⟨projections, rfl⟩ := ensureProjection_ok projected
        subst same
        refine ⟨rfl, projections, .inr ⟨⟨_, present⟩, ?_⟩⟩
        rw [update_eq_self_iff.mpr present.symm]
      case isFalse =>
        split at done
        case isTrue =>
          simp only [bind_eq_ok, pair_eq_ok] at done
          obtain ⟨_, projected, rfl, rfl⟩ := done
          obtain ⟨projections, rfl⟩ := ensureProjection_ok projected
          exact ⟨rfl, projections, .inr ⟨⟨_, present⟩, rfl⟩⟩
        case isFalse => cases done
  obtain ⟨rfl, puts⟩ := puts
  exact ⟨source, head, newHead, indexed, found, headed, extended, named, parent, childHead,
    inherited, puts⟩

theorem appendChunks_ok
    (done : store.appendChunks historyId chunks quality projection = .ok after) :
    ∃ transcript projections,
      (store.transcripts historyId).appendChunks historyId chunks quality = .ok transcript ∧
      after = { store with
        transcripts := update store.transcripts historyId transcript
        projections := projections } := by
  simp only [appendChunks, bind_eq_ok, pure_eq_ok] at done
  obtain ⟨transcript, appended, rfl⟩ := done
  exact ⟨transcript, _, appended, rfl⟩

end ConversationStore

namespace ConversationCall

/-- What is known where a call returns without a change to the sessions or the branches. -/
def Quiet (repo : ConversationRepository) (store : ConversationStore) :
    ConversationCall → Prop
  | .createForkWithOperation _ target _ _ _ =>
    ∃ child, store.histories (repo.sessionHistoryId target.sessionId) = some child
  | .admitExecution _ sessionId executionId _ _ _ => ∃ current,
      store.sessions sessionId = some current ∧ current.activeExecutionId = some executionId
  | .releaseExecution _ sessionId executionId _ _ _ => ∃ current,
      store.sessions sessionId = some current ∧ current.activeExecutionId ≠ some executionId
  | .completeExecution tenantId sessionId _ _ next _ _ =>
    tenantId = repo.tenantId ∧ ∃ current,
      store.sessions sessionId = some current ∧ current.continuation = some next
  | .fork .. => False
  | _ => True

def Swaps (repo : ConversationRepository) (tenantId : String) (revision : Int)
    (current proposed record : SessionRecord) : Prop :=
  tenantId = repo.tenantId ∧ current.revision = revision ∧
    sameSessionIdentity current record ∧ ConversationRepository.KeepsActive current proposed record

/-- How a call that rewrites the record of a session treats its active execution. -/
def Rewrites (repo : ConversationRepository) (store : ConversationStore) (sessionId : String)
    (current record : SessionRecord) : ConversationCall → Prop
  | .compareAndSwap tenantId session revision next =>
    session = sessionId ∧ Swaps repo tenantId revision current next record
  | .compareAndSwapWithOperation tenantId session revision next operation =>
    session = sessionId ∧
      (operation.tenantId = repo.tenantId ∧ store.NewOperation operation) ∧
      Swaps repo tenantId revision current next record
  | .releaseExecution _ session executionId _ _ _ | .completeExecution _ session executionId
    _ _ _ _ =>
      session = sessionId ∧ current.activeExecutionId = some executionId ∧
        record.activeExecutionId = none
  | .transitionStatus .. | .rememberRepositoryInstructionScopes .. | .advanceContinuation .. =>
    record.activeExecutionId = current.activeExecutionId
  | _ => False

def Creates (repo : ConversationRepository) (store : ConversationStore)
    (session : SessionRecord) : ConversationCall → Prop
  | .createSession value => session = ensureSessionHistory repo value
  | .createSessionWithOperation record operation => store.NewOperation operation ∧
      session = ensureSessionHistory repo record
  | _ => False

section

variable (repo : ConversationRepository) (store after : ConversationStore)

inductive Returned : ConversationCall → Prop
  | quiet {call ledger} (kept : after = { store with ledger := ledger })
      (silent : call.Quiet repo store) : Returned call
  | rewritten {call sessionId current record}
      (rewrites : ConversationRepository.RewritesSession store after sessionId current record)
      (treats : call.Rewrites repo store sessionId current record) :
      Returned call
  | created {call session} (creates : ConversationRepository.CreatesSession store after session)
      (asked : call.Creates repo store session) : Returned call
  | forkedSession {source target revision operation nodeId session}
      (new : store.NewOperation operation) (named : session.sessionId = target.sessionId ∧
        session.activeExecutionId = target.activeExecutionId)
      (forks : ConversationRepository.ForksSession store after source
        (repo.sessionHistoryId target.sessionId) nodeId session) :
      Returned
        (.createForkWithOperation source target revision operation nodeId)
  | promoted {session ownerId history} (fresh : store.histories history.historyId = none)
      (headless : store.transcriptHead history.historyId = none)
      (root : history.prefixIndexHeadId = none ∧ history.inheritedMessageCount = 0)
      (inserted : after = store.insertHistory history) :
      Returned (.promoteHistory session ownerId)
  | forked {tenantId source child session nodeId record}
      (forks : store.fork source child session nodeId = .ok (record, after)) :
      Returned (.fork tenantId source child session nodeId)
  | appended {historyId chunks quality projection}
      (appends : store.appendChunks historyId chunks quality projection = .ok after) :
      Returned (.appendChunks historyId chunks quality projection)
  | admitted {tenantId sessionId executionId expected expectedSession handsTurn current}
      (stored : store.sessions sessionId = some current) (named : current.sessionId = sessionId)
      (opened : current.activeExecutionId = none ∧ current.status = .open ∧
        current.continuation = expected) (taken : after = ((store.putSession
        { current with activeExecutionId := some executionId }).insertTurn
          sessionId executionId).2) : Returned
        (.admitExecution tenantId sessionId executionId expected expectedSession handsTurn)
  | committed {tenantId sessionId executionId outcome unadmitted turn key commit}
      (fresh : store.turnCommits key = none) (commits : after = { store with
        turnCommits := update store.turnCommits key (some commit) }) :
      Returned
        (.commitTimelineTurn tenantId sessionId executionId outcome unadmitted turn)
  | committedPending {expected executionId next outcome now current record commit}
      (rewrites : ConversationRepository.RewritesSession store (store.putSession record)
        expected.sessionId current record)
      (opened : current.activeExecutionId = none ∧ current.status = .open ∧
        current.same expected = true) (free : record.activeExecutionId = none)
      (fresh : store.turnCommits
        (ConversationRepository.nextTurn store expected.sessionId) = none) (commits : after =
        { ((store.putSession record).insertTurn expected.sessionId executionId).2 with
          turnCommits := update store.turnCommits
            (ConversationRepository.nextTurn store expected.sessionId) (some commit) }) :
      Returned (.commitPendingTurn expected executionId next outcome now)

end

open ConversationRepository in
theorem returned_of_ok {call : ConversationCall} (done : call.run repo store = .ok after) :
    Returned repo store after call := by
  cases call <;> simp only [run, bind_eq_ok, pure_eq_ok, Prod.exists] at done
  case createSession value =>
    obtain ⟨_, valid, _, _, created, rfl⟩ := done
    obtain ⟨rfl, _⟩ := validated_ok valid
    obtain ⟨named, creates⟩ := createSession_ok created
    exact .created creates named
  case createSessionWithOperation record operation =>
    obtain ⟨_, valid, _, _, _, created, rfl⟩ := done
    obtain ⟨rfl, _⟩ := validated_ok valid
    rcases createSessionWithOperation_ok created with ⟨ledger, rfl⟩ | ⟨asked, creates⟩
    · exact .quiet rfl trivial
    · exact .created creates asked
  case createForkWithOperation source target revision operation nodeId =>
    obtain ⟨_, valid, _, _, _, forked, rfl⟩ := done
    obtain ⟨rfl, _⟩ := validated_ok valid
    rcases createForkWithOperation_ok forked with
      ⟨ledger, child, present, rfl⟩ | ⟨⟨new, named⟩, forks⟩
    · exact .quiet rfl ⟨child, present⟩
    · exact .forkedSession new named forks
  case promoteHistory session ownerId =>
    obtain ⟨_, _, promoted, rfl⟩ := done
    rcases promoteHistory_ok promoted with rfl | ⟨fresh, headless, _, head, nothing, rfl⟩
    · exact .quiet rfl trivial
    · exact .promoted fresh headless ⟨head, nothing⟩ rfl
  case fork =>
    obtain ⟨_, _, _, _, forked, rfl⟩ := done
    exact .forked forked
  case appendChunks => exact .appended done
  case compareAndSwap =>
    obtain ⟨_, valid, _, _, swapped, rfl⟩ := done
    obtain ⟨rfl, _⟩ := validated_ok valid
    obtain ⟨_, rewrites, swaps⟩ := compareAndSwap_ok swapped
    exact .rewritten rewrites ⟨rfl, swaps⟩
  case compareAndSwapWithOperation =>
    obtain ⟨_, valid, _, _, _, swapped, rfl⟩ := done
    obtain ⟨rfl, _⟩ := validated_ok valid
    rcases compareAndSwapWithOperation_ok swapped with
      ⟨ledger, rfl⟩ | ⟨_, rewrites, ⟨tenant, new⟩, swaps⟩
    · exact .quiet rfl trivial
    · exact .rewritten rewrites ⟨rfl, new, tenant, swaps⟩
  case transitionStatus =>
    obtain ⟨_, _, transitioned, rfl⟩ := done
    obtain ⟨_, rewrites, kept⟩ := transitionStatus_ok transitioned
    exact .rewritten rewrites kept
  case rememberRepositoryInstructionScopes =>
    obtain ⟨_, _, remembered, rfl⟩ := done
    rcases rememberRepositoryInstructionScopes_ok remembered with rfl | ⟨_, rewrites, kept⟩
    · exact .quiet rfl trivial
    · exact .rewritten rewrites kept
  case admitExecution =>
    obtain ⟨_, _, _, taken, rfl⟩ := done
    obtain ⟨current, stored, named, ⟨held, _, rfl⟩ | ⟨free, _, rfl, rfl⟩⟩ := admitExecution_ok taken
    · exact .quiet rfl ⟨current, stored, held⟩
    · exact .admitted stored named free rfl
  case releaseExecution =>
    obtain ⟨_, _, released, rfl⟩ := done
    obtain ⟨current, stored, _, ⟨elsewhere, rfl⟩ | ⟨held, free, rewrites⟩⟩ :=
      releaseExecution_ok released
    · exact .quiet rfl ⟨current, stored, elsewhere⟩
    · exact .rewritten rewrites ⟨rfl, held, free⟩
  case advanceContinuation =>
    obtain ⟨_, _, advanced, rfl⟩ := done
    obtain ⟨_, _, _, _, ⟨_, rfl⟩ | ⟨_, _, kept, rewrites⟩⟩ := advanceContinuation_ok advanced
    · exact .quiet rfl trivial
    · exact .rewritten rewrites kept
  case completeExecution =>
    obtain ⟨_, _, completed, rfl⟩ := done
    obtain ⟨tenant, current, stored, _, ⟨reached, rfl⟩ | ⟨_, held, free, rewrites⟩⟩ :=
      advanceContinuation_ok completed
    · exact .quiet rfl ⟨tenant, current, stored, reached⟩
    · exact .rewritten rewrites ⟨rfl, held, free.trans (if_pos rfl)⟩
  case commitTimelineTurn =>
    obtain ⟨_, _, committed, rfl⟩ := done
    rcases commitTimelineTurn_ok committed with rfl | ⟨_, _, _, fresh, rfl⟩
    · exact .quiet rfl trivial
    · exact .committed fresh rfl
  case commitPendingTurn =>
    obtain ⟨_, _, committed, rfl⟩ := done
    obtain ⟨_, rewrites, opened, free, fresh, rfl⟩ := commitPendingTurn_ok committed
    exact .committedPending rewrites opened free fresh rfl

end ConversationCall

end Linktools.Conversation
