import Linktools.Execution.Updates

namespace Linktools.Execution

open Linktools.Core Library ExecutionRepository ExecutionRecord ExecutionStore

def Faithful (store : ExecutionStore) (receipt : Observed ExecutionRecord) : Prop :=
  ∀ row, store.executions receipt.value.executionId = some row →
    row.storageRevision = receipt.storageRevision → row = receipt

/-- The record that a compare-and-swap finds is the one that its caller has updated. -/
def UpdatesSnapshot (store : ExecutionStore) (executionId : String) (expectedRevision : Nat)
    (nextRecord : ExecutionRecord) : Prop :=
  ∀ row, store.executions executionId = some row → row.value.revision = expectedRevision →
    SnapshotUpdate row.value nextRecord

/-- The terminal record is derived from the snapshot at the revision that its commit
expects, which is the snapshot that the commit is merged against. -/
def EndsSnapshot (store : ExecutionStore) (commit : ExecutionTerminalCommit)
    (expectedExecution : Option ExecutionRecord) : Prop :=
  ∃ snapshot : ExecutionRecord, snapshot.revision = commit.expectedRevision ∧
    TerminalRecord snapshot commit.execution ∧ (∀ expected ∈ expectedExecution, expected =
    snapshot) ∧ ∀ row, store.executions commit.execution.executionId = some row →
      row.value.revision = snapshot.revision → row.value = snapshot

/-- What the callers of the operations guarantee about the records they pass. -/
def Promised (store : ExecutionStore) : ExecutionCall → Prop
  | .createExecution execution => NewExecution execution
  | .reserveStart reservation _ => NewExecution reservation.execution
  | .compareAndSwap _ executionId expectedRevision nextRecord =>
    UpdatesSnapshot store executionId expectedRevision nextRecord
  | .commitRecoveryHandoff checkpoint expectedRevision _ =>
    UpdatesSnapshot store checkpoint.executionId expectedRevision checkpoint
  | .commitBoundary observed nextRecord _ _ =>
    Faithful store observed ∧
      (nextRecord = observed.value ∨ SnapshotUpdate observed.value nextRecord)
  | .claimPreparedAgentRun _ _ _ _ _ _ _ observed => ∀ receipt ∈ observed, Faithful store receipt
  | .closeRetention _ _ observed => ∀ receipt ∈ observed, Faithful store receipt
  | .commitTerminal commit _ => EndsSnapshot store commit none
  | .commitClosedTerminal commit _ => EndsSnapshot store commit none
  | .commitTerminalCheckpoint publication =>
    EndsSnapshot store publication.commit publication.expectedExecution
  | .insertPendingTurn _ commit _ => PendingTurn commit
  | _ => True

namespace ExecutionRepository

variable {call : ExecutionCall} {repo : ExecutionRepository} {store after : ExecutionStore}
  {executionId tenantId : String} {expected revision eventSeq agentRunSeq : Nat} {now : Time}
  {record : ExecutionRecord} {row : Observed ExecutionRecord}
  {recovery : Option ExecutionRecoveryDetail}

theorem guardRecord_guarded (done : store.guardRecord executionId expected = some (row, after)) :
    Guarded store after := by
  obtain ⟨current, stored, same, rfl, rfl⟩ := guardRecord_ok done
  exact .of_row stored (same ▸ Nat.lt_succ_self _)

theorem guardRecordRevision_guarded
    (done : store.guardRecordRevision executionId expected = some (revision, after)) :
    Guarded store after := by
  obtain ⟨current, stored, same, _, rfl⟩ := guardRecordRevision_ok done
  exact .of_row stored (same ▸ Nat.lt_succ_self _)

theorem requireExecutionProducer_ok
    (done : requireExecutionProducer store executionId expected allowCancelling =
      .ok (record, after)) :
    Guarded store after ∧ 1 ≤ expected ∧ record.producerGeneration = expected ∧
      PublishingStatus allowCancelling record.status ∧ record.executionId = executionId ∧
      ∃ storageRevision, store.executions executionId = some ⟨record, storageRevision⟩ := by
  simp only [requireExecutionProducer, bind_eq_ok, refuse_eq_ok, orRaise_eq_ok, pair_eq_ok,
    Prod.exists, not_not, not_lt] at done
  obtain ⟨_, positive, stored, loaded, _, generation, _, _, _, publishing, guardedRow, guarded,
    guards, rfl, rfl⟩ := done
  obtain ⟨found, named⟩ := loadExecution_eq_ok.mp loaded
  exact ⟨guardRecord_guarded guards, positive, generation, publishing, named,
    stored.storageRevision, found⟩

variable {producerGeneration : Option Nat}

theorem requireNamedProducer_ok
    (done : requireNamedProducer store executionId producerGeneration = .ok after) :
    Guarded store after ∧ (producerGeneration.isSome →
      ∀ row, store.executions executionId = some row → PublishingStatus true row.value.status) := by
  cases producerGeneration with
  | none =>
    cases done
    exact ⟨.refl, nofun⟩
  | some generation =>
    simp only [requireNamedProducer, map_eq_ok, Prod.exists] at done
    obtain ⟨record, _, required, rfl⟩ := done
    obtain ⟨guarded, _, _, publishing, _, _, stored⟩ := requireExecutionProducer_ok required
    refine ⟨guarded, fun _ row found => ?_⟩
    cases stored.symm.trans found
    exact publishing

theorem requireExecutionHistoryWrite_ok
    (done : requireExecutionHistoryWrite store executionId = .ok (record, after)) :
    Guarded store after ∧ record.historySealDigest = none ∧ ¬TerminalStatus record.status ∧
      ∃ storageRevision, store.executions executionId = some ⟨record, storageRevision⟩ := by
  simp only [requireExecutionHistoryWrite, bind_eq_ok, refuse_eq_ok, orRaise_eq_ok, pair_eq_ok,
    Prod.exists, not_or, not_not] at done
  obtain ⟨stored, loaded, _, ⟨unsealed, live⟩, guardedRow, guarded, guards, rfl, rfl⟩ := done
  obtain ⟨found, _⟩ := loadExecution_eq_ok.mp loaded
  exact ⟨guardRecord_guarded guards, unsealed, live, stored.storageRevision, found⟩

theorem guardRecovery_guarded (done : guardRecovery store record = .ok after) :
    Guarded store after := by
  simp only [guardRecovery, bind_eq_ok, refuse_eq_ok, orRaise_eq_ok, pure_eq_ok,
    Prod.exists] at done
  obtain ⟨stored, _, _, _, guardedRow, guarded, guards, rfl⟩ := done
  exact guardRecord_guarded guards

variable {generation : Nat}

theorem guardSubagentParent_guarded
    (done : guardSubagentParent store record generation = .ok after) : Guarded store after := by
  simp only [guardSubagentParent, bind_eq_ok, refuse_eq_ok, orRaise_eq_ok, pure_eq_ok,
    Prod.exists] at done
  obtain ⟨parentId, _, _, _, parent, _, _, _, _, _, _, _, found, guarded, required, rfl⟩ := done
  exact (requireExecutionProducer_ok required).1

variable {reservation : ExecutionStartReservation}

theorem guardReservationParent_guarded
    (done : guardReservationParent store reservation = .ok after) : Guarded store after := by
  unfold guardReservationParent at done
  split at done
  case isTrue =>
    cases done
    exact .refl
  case isFalse =>
    simp only [bind_eq_ok] at done
    obtain ⟨_, _, guards⟩ := done
    exact guardSubagentParent_guarded guards

variable {events : List ExecutionEventAppend}

theorem putNew_changes (inserted : store.insertExecution record = .ok middle)
    (admission : Admission record events) (executions : after.executions = middle.executions)
    (appended : after.events = Function.update middle.events record.executionId
      (middle.events record.executionId ++ eventFacts 1 events))
    (tables : TableFrame call middle after) :
    Changes call store after record.executionId events := by
  obtain ⟨absent, rfl⟩ := insertExecution_ok inserted
  exact .of_put absent (.inserted record events admission) executions appended
    ⟨tables.idempotency, tables.seals⟩

theorem createExecution_changes (fresh : NewExecution record)
    (done : createExecution store record = .ok (answer, after)) :
    Changes call store after record.executionId [] := by
  unfold createExecution at done
  split at done
  case h_1 current found =>
    simp only [bind_eq_ok, refuse_eq_ok, pair_eq_ok] at done
    obtain ⟨_, _, _, _, _, rfl⟩ := done
    exact .refl
  case h_2 =>
    simp only [bind_eq_ok, pair_eq_ok] at done
    obtain ⟨middle, inserted, _, rfl⟩ := done
    exact putNew_changes inserted (.reserved fresh) rfl appended_nil.symm .refl

theorem admitBudget_ok (done : admitBudget store reservation = .ok after) :
    after.executions = store.executions ∧ after.events = store.events ∧
      after.idempotency = store.idempotency ∧ after.seals = store.seals := by
  unfold admitBudget at done
  split at done
  case h_1 =>
    cases done
    exact ⟨rfl, rfl, rfl, rfl⟩
  case h_2 =>
    split at done
    case h_1 => cases done
    case h_2 =>
      cases done
      exact ⟨rfl, rfl, rfl, rfl⟩
    case h_3 =>
      split at done
      case isTrue =>
        cases done
        exact ⟨rfl, rfl, rfl, rfl⟩
      case isFalse => cases done
    case h_4 =>
      cases done
      exact ⟨rfl, rfl, rfl, rfl⟩

variable {contextPublished : Option (Except Raised Unit)} {result : ExecutionStartReservationResult}

theorem reserveStart_ok
    (done : reserveStart store reservation contextPublished = .ok (result, after)) :
    reservation.idempotency.resourceKind = executionKind ∧
    ((∃ existing winner, store.idempotencyAt reservation.idempotency.identityKey = some existing ∧
      existing.value.SameIdentity reservation.idempotency ∧
      store.executions existing.value.resourceId = some winner ∧
      result = ⟨winner.value, existing.value, false⟩ ∧ after = store) ∨
    (∃ guarded admitted middle : ExecutionStore,
      store.idempotencyAt reservation.idempotency.identityKey = none ∧ Guarded store guarded ∧
      (admitted.executions = guarded.executions ∧ admitted.events = guarded.events ∧
        admitted.idempotency = guarded.idempotency ∧ admitted.seals = guarded.seals) ∧
      admitted.insertExecution reservation.execution = .ok middle ∧
      middle.insertIdempotency reservation.idempotency = .ok after ∧
      result = ⟨reservation.execution, reservation.idempotency, true⟩)) := by
  simp only [reserveStart, bind_eq_ok, refuse_eq_ok, not_not] at done
  obtain ⟨_, kind, _, _, done⟩ := done
  refine ⟨kind, ?_⟩
  split at done
  case h_1 existing found =>
    simp only [bind_eq_ok, refuse_eq_ok, pure_eq_ok, not_not, Prod.mk.injEq] at done
    obtain ⟨_, same, winner, loaded, rfl, rfl⟩ := done
    exact .inl ⟨existing, winner, found, same, (loadExecution_eq_ok.mp loaded).1, rfl, rfl⟩
  case h_2 absent =>
    simp only [bind_eq_ok, refuse_eq_ok, pair_eq_ok] at done
    obtain ⟨_, _, guarded, guards, admitted, admits, _, _, middle, inserted, after, reserved, rfl,
      rfl⟩ := done
    exact .inr ⟨guarded, admitted, middle, absent, guardReservationParent_guarded guards,
      admitBudget_ok admits, inserted, reserved, rfl⟩

theorem reserveStart_changes (fresh : NewExecution reservation.execution)
    (done : reserveStart store reservation contextPublished = .ok (result, after)) :
    Changes (.reserveStart reservation contextPublished) store after
      reservation.execution.executionId [] := by
  cases (reserveStart_ok done).2 with
  | inl replayed =>
    obtain ⟨_, _, _, _, _, _, rfl⟩ := replayed
    exact .refl
  | inr created =>
    obtain ⟨guarded, admitted, middle, _, guards, ⟨executions, events, _, seals⟩, inserted,
      reserved, _⟩ := created
    obtain ⟨_, rows⟩ := insertIdempotency_ok reserved
    have changes : Changes (.reserveStart reservation contextPublished) admitted after
        reservation.execution.executionId [] :=
      putNew_changes inserted (.reserved fresh) (by rw [rows])
        (by rw [rows]; exact appended_nil.symm) ⟨absurd trivial, fun _ => by rw [rows]⟩
    exact guards.then (changes.of_eq executions events ⟨absurd trivial, fun _ => seals⟩)

theorem startIdempotency_ok (done : startIdempotency store claim = .ok after) :
    after = { store with idempotency := after.idempotency } ∧
      (store.idempotencyAt (claim.scope, claim.idempotencyKeyDigest) = none ∧
        after.idempotency = store.idempotency ++ [⟨⟨claim.scope, claim.idempotencyKeyDigest,
          claim.requestDigest, executionKind, claim.executionId, .started, none, none,
          claim.startedAt, claim.startedAt⟩, 0⟩] ∨
      ∃ stored, store.idempotencyAt (claim.scope, claim.idempotencyKeyDigest) = some stored ∧
        stored.value.requestDigest = claim.requestDigest ∧
        stored.value.resourceKind = executionKind ∧
        stored.value.resourceId = claim.executionId ∧ stored.value.status = .reserved ∧
        after.idempotency = rewriteAt idempotencyKey store.idempotency stored.value.identityKey
          ⟨{ stored.value with status := .started, updatedAt := claim.startedAt },
            stored.storageRevision + 1⟩) := by
  unfold startIdempotency at done
  split at done
  case h_1 absent =>
    obtain ⟨_, rfl⟩ := insertIdempotency_ok done
    exact ⟨rfl, .inl ⟨absent, rfl⟩⟩
  case h_2 stored found =>
    simp only [bind_eq_ok, refuse_eq_ok, not_or, not_not] at done
    obtain ⟨_, ⟨digest, kind, resource, reserved⟩, replaced⟩ := done
    obtain ⟨_, _, _, rfl⟩ := replaceIdempotency_ok replaced
    exact ⟨rfl, .inr ⟨stored, found, digest, kind, resource, reserved, rfl⟩⟩

section

variable (done : claimStart store claim = .ok (record, after))
include done

theorem claimStart_ok :
    ∃ row middle replaced, store.executions claim.executionId = some row ∧
      row.value.executionId = claim.executionId ∧
      row.value.revision = claim.expectedRevision ∧ row.value.status = .pendingStart ∧
      record.toExecutionFields = { row.value.toExecutionFields with
        status := .started
        revision := row.value.revision + 1
        eventSeq := row.value.eventSeq + 1
        updatedAt := claim.startedAt
        startedAt := row.value.startedAt.or (some claim.startedAt)
        recovery := row.value.recovery.or (if row.value.binding.isAgent then some {} else none) } ∧
      startIdempotency store claim = .ok middle ∧
      middle.replaceChecked record row.storageRevision = .ok replaced ∧
      replaced.insertFacts claim.executionId
        (eventFacts (row.value.eventSeq + 1)
          [⟨ExecutionEventType.executionStarted.value, []⟩]) = .ok after := by
  simp only [claimStart, bind_eq_ok, refuse_eq_ok, pure_eq_ok, not_or, not_not,
    build_eq_ok, Prod.mk.injEq] at done
  obtain ⟨row, loaded, _, ⟨revision, _, pending⟩, next, fields, middle, started, replaced, replaces,
    after, inserted, rfl, rfl⟩ := done
  obtain ⟨found, named⟩ := loadExecution_eq_ok.mp loaded
  refine ⟨row, middle, replaced, found, named, revision, pending, fields, started, replaces, ?_⟩
  rw [fields] at inserted
  exact inserted

theorem claimStart_changes :
    Changes (.claimStart claim) store after claim.executionId
      [⟨ExecutionEventType.executionStarted.value, []⟩] := by
  obtain ⟨row, middle, replaced, found, named, _, pending, fields, started, replaces, inserted⟩ :=
    claimStart_ok done
  have same := (startIdempotency_ok started).1
  have executions : middle.executions = store.executions := by rw [same]
  have events : middle.events = store.events := by rw [same]
  have changes : Changes (.claimStart claim) middle after claim.executionId _ :=
    .of_replace_facts ((congrFun executions _).trans found) named
      (.started claim.startedAt pending fields) replaces inserted
  exact changes.of_eq executions events ⟨absurd trivial, fun _ => by rw [same]⟩

end

variable {expectedStatus : IdempotencyStatus} {next answer : IdempotencyRecord}
  {digest holdId scope : String}

section

variable (done : repo.compareAndSwapIdempotency store tenantId scope digest expectedStatus
    next = .ok (answer, after))
include done

theorem compareAndSwapIdempotency_ok : ∃ stored, store.idempotencyAt (scope, digest) = some stored ∧
      stored.value.status = expectedStatus ∧ next.resourceKind = executionKind ∧
      store.replaceIdempotency next stored.storageRevision = .ok after := by
  simp only [compareAndSwapIdempotency, bind_eq_ok, refuse_eq_ok, orRaise_eq_ok, pure_eq_ok,
    not_not, Prod.mk.injEq] at done
  obtain ⟨_, _, _, kind, stored, found, _, status, _, replaced, _, rfl⟩ := done
  exact ⟨stored, found, status, kind, replaced⟩

theorem compareAndSwapIdempotency_changes :
    Changes (.compareAndSwapIdempotency tenantId scope digest expectedStatus next) store after
      next.resourceId [] := by
  obtain ⟨_, _, _, _, replaced⟩ := compareAndSwapIdempotency_ok done
  obtain ⟨_, _, _, rfl⟩ := replaceIdempotency_ok replaced
  exact .of_same rfl rfl ⟨absurd trivial, fun _ => rfl⟩

end

variable {claimId : Option String}

theorem claimNextAgentRun_changes
    (done : repo.claimNextAgentRun store tenantId executionId expected agentRunSeq claimId
      recovery now = .ok (record, after)) : Changes call store after executionId [] := by
  simp only [claimNextAgentRun, bind_eq_ok, refuse_eq_ok, pure_eq_ok, not_or, not_not, not_le,
    build_eq_ok, Prod.mk.injEq] at done
  obtain ⟨_, _, row, loaded, _, ⟨started, _, _, behind⟩, next, fields, _, replaced, rfl,
    rfl⟩ := done
  obtain ⟨found, named⟩ := loadExecution_eq_ok.mp loaded
  exact .of_replace_silent found named
    (.claimed claimId row.value.inputContext recovery 0 now (.inl started) behind
      (by rw [fields, started])) replaced

theorem claimDeferredResume_changes
    (done : repo.claimDeferredResume store tenantId executionId expected eventSeq agentRunSeq
      claimId recovery now = .ok (record, after)) : Changes call store after executionId [] := by
  simp only [claimDeferredResume, bind_eq_ok, refuse_eq_ok, pure_eq_ok, not_or, not_not,
    not_le, build_eq_ok, Prod.mk.injEq] at done
  obtain ⟨_, _, row, loaded, _, ⟨waiting, _, _, _, behind⟩, next, fields, _, replaced, rfl,
    rfl⟩ := done
  obtain ⟨found, named⟩ := loadExecution_eq_ok.mp loaded
  exact .of_replace_silent found named
    (.claimed claimId row.value.inputContext recovery 0 now (.inr waiting) behind fields) replaced

variable {observed : Option (Observed ExecutionRecord)}

theorem observedOrStored_ok (done : observedOrStored store executionId observed missing = .ok row) :
    row.value.executionId = executionId ∧
      (observed = some row ∨ observed = none ∧ store.executions executionId = some row) := by
  unfold observedOrStored at done
  split at done
  case h_1 =>
    obtain ⟨found, named⟩ := loadExecution_eq_ok.mp done
    exact ⟨named, .inr ⟨rfl, found⟩⟩
  case h_2 receipt =>
    simp only [bind_eq_ok, refuse_eq_ok, pure_eq_ok, not_not] at done
    obtain ⟨_, named, rfl⟩ := done
    exact ⟨named, .inl rfl⟩

variable {next : ExecutionRecord}

section

variable (faithful : ∀ receipt ∈ observed, Faithful store receipt)
include faithful

theorem observedOrStored_stored
    (done : observedOrStored store executionId observed missing = .ok row)
    (named : next.executionId = executionId)
    (replaced : store.replaceChecked next row.storageRevision = .ok after) :
    store.executions executionId = some row := by
  obtain ⟨same, found⟩ := observedOrStored_ok done
  cases found with
  | inl receipt =>
    obtain ⟨current, found, revision, _⟩ := replaceChecked_ok replaced
    rw [named] at found
    exact found.trans (congrArg some (faithful row receipt current (same ▸ found) revision))
  | inr loaded => exact loaded.2

theorem claimPreparedAgentRun_changes {context claimId : String}
    (done : repo.claimPreparedAgentRun store tenantId executionId expected agentRunSeq
      context claimId recovery observed now = .ok (record, after)) :
    Changes call store after executionId [] := by
  simp only [claimPreparedAgentRun, bind_eq_ok, refuse_eq_ok, pure_eq_ok, not_or, not_not,
    not_le, build_eq_ok, Prod.mk.injEq] at done
  obtain ⟨_, _, row, source, _, ⟨started, _, sequence, zero, _, behind⟩, admitted, admits, next,
    fields, _, replaced, rfl, rfl⟩ := done
  obtain ⟨named, _⟩ := observedOrStored_ok source
  rw [admits] at fields
  have update : Update call row.value next [] :=
    .claimed (some claimId) (some context) recovery 1 now (.inl started) behind <| by
      rw [fields, started, sequence, zero]
  exact .of_replace_silent (observedOrStored_stored faithful source
    (update.executionId_eq.trans named) replaced) named update replaced

end

theorem applyTaskState_ok (applied : applyTaskState record taskState = .ok updated) :
    updated = { record.toExecutionFields with
      task := updated.task
      errorCode := updated.errorCode
      safeErrorDetails := updated.safeErrorDetails } := by
  cases taskState with
  | none =>
    cases applied
    rfl
  | some update =>
    simp only [applyTaskState, bind_eq_ok, refuse_eq_ok, pure_eq_ok] at applied
    obtain ⟨_, _, rfl⟩ := applied
    rfl

def TransitionExpects (transition : ExecutionTransition) (current : ExecutionRecord) : Prop :=
  current.revision = transition.expectedRevision ∧ current.eventSeq = transition.expectedEventSeq ∧
    ∀ status ∈ transition.expectedStatus, current.status = status

theorem transitionExecution_changes (call : ExecutionCall)
    (expects : ∀ row, store.executions transition.executionId = some row →
      TransitionExpects transition row.value → call.Expects row.value)
    (moves : call.Moves transition.nextStatus)
    (done : repo.transitionExecution store tenantId transition = .ok (record, after)) :
    Changes call store after transition.executionId
      (transition.pendingEvents ++ [⟨transition.eventType, transition.payload⟩]) := by
  simp only [transitionExecution, bind_eq_ok, refuse_eq_ok, pure_eq_ok, not_or, not_not,
    build_eq_ok, Prod.mk.injEq] at done
  obtain ⟨_, _, row, loaded, _, ⟨revision, sequence, status⟩, updated, applied, next, fields,
    middle, replaced, _, inserted, rfl, rfl⟩ := done
  obtain ⟨found, named⟩ := loadExecution_eq_ok.mp loaded
  have expected : TransitionExpects transition row.value := by
    refine ⟨revision, sequence, fun expected member => ?_⟩
    rw [Option.mem_def.mp member] at status
    simpa using status
  have task := applyTaskState_ok applied
  refine .of_replace_facts found named
    (.transitioned transition (expects row found expected) moves ?_) replaced ?_
  · rw [task] at fields
    rw [fields]
  · rw [eventFacts_concat]
    rw [fields] at inserted
    exact inserted

theorem enterDeferredWait_changes
    (done : repo.enterDeferredWait store tenantId executionId expected eventSeq agentRunSeq
      auditEvents deferredEvents occurredAt recovery = .ok (record, after)) :
    Changes (.enterDeferredWait tenantId executionId expected eventSeq agentRunSeq auditEvents
      deferredEvents occurredAt recovery) store after executionId
      (auditEvents ++ deferredEvents) := by
  simp only [enterDeferredWait, bind_eq_ok, refuse_eq_ok, orRaise_eq_ok, pure_eq_ok,
    Prod.exists, Prod.mk.injEq] at done
  obtain ⟨_, _, _, _, _, _, _, _, last, ends, updated, _, transitioned, _, _, _, rfl⟩ := done
  have changes := transitionExecution_changes
    (.enterDeferredWait tenantId executionId expected eventSeq agentRunSeq auditEvents
      deferredEvents occurredAt recovery)
    (fun row found expects => ⟨expects.1, expects.2.1, expects.2.2 .started rfl⟩)
    (by exact rfl) transitioned
  have events : deferredEvents.dropLast ++ [last] = deferredEvents :=
    List.dropLast_append_getLast? last ends
  rw [List.append_assoc, events] at changes
  exact changes

theorem recordRecoveryCancel_changes
    (done : recordRecoveryCancel store record operationId admitted now = .ok (operation, after)) :
    Changes call store after record.executionId [ExecutionCall.cancelEvent operationId] := by
  simp only [recordRecoveryCancel, bind_eq_ok, refuse_eq_ok, pure_eq_ok, not_or, not_not,
    build_eq_ok, Prod.mk.injEq] at done
  obtain ⟨row, loaded, _, ⟨waiting, _, _⟩, _, _, next, fields, _, replaced, _, inserted, _,
    rfl⟩ := done
  obtain ⟨found, named⟩ := loadExecution_eq_ok.mp loaded
  refine .of_replace_facts found named (.cancelRecorded operationId now waiting fields) replaced ?_
  rw [fields] at inserted
  exact inserted

theorem transitionRecovery_changes
    (done : transitionRecovery store record transition now = .ok (next, after)) :
    Changes (.transitionRecovery record transition) store after record.executionId
      transition.events := by
  simp only [transitionRecovery, bind_eq_ok, refuse_eq_ok, pure_eq_ok, not_or, not_not, not_and,
    not_le, build_eq_ok, Prod.mk.injEq] at done
  obtain ⟨guarded, guards, row, loaded, _, ⟨revision, sequence, status⟩, _, _, _, behind, updated,
    fields, _, replaced, _, inserted, rfl, rfl⟩ := done
  obtain ⟨found, named⟩ := loadExecution_eq_ok.mp loaded
  obtain ⟨guarding, publishes⟩ := requireNamedProducer_ok guards
  rw [← revision] at behind fields
  rw [← sequence] at fields inserted
  have expects : (ExecutionCall.transitionRecovery record transition).Expects row.value := by
    refine ⟨revision, sequence, status, fun generation => ?_⟩
    obtain ⟨old, stored, same⟩ := guarding.found found
    exact same ▸ publishes generation old stored
  exact guarding.then (.of_replace_facts found named
    (.recovered transition now expects rfl behind fields) replaced inserted)

theorem appendMany_changes
    (done : repo.appendMany store tenantId executionId events expectedEventSeq now =
      .ok (facts, after)) : Changes call store after executionId events := by
  simp only [appendMany, bind_eq_ok] at done
  obtain ⟨_, _, done⟩ := done
  split at done
  case isTrue empty =>
    subst empty
    cases done
    exact .refl
  case isFalse nonempty =>
    simp only [bind_eq_ok, refuse_eq_ok, pure_eq_ok, build_eq_ok, Prod.mk.injEq] at done
    obtain ⟨row, loaded, _, _, next, fields, _, replaced, _, inserted, _, rfl⟩ := done
    obtain ⟨found, named⟩ := loadExecution_eq_ok.mp loaded
    exact .of_replace_facts found named (.appended events now nonempty fields) replaced inserted

theorem acquireDependencyHold_changes
    (done : repo.acquireDependencyHold store tenantId executionId holdId now =
      .ok (acquired, after)) : Changes call store after executionId [] := by
  simp only [acquireDependencyHold, bind_eq_ok, refuse_eq_ok] at done
  obtain ⟨_, _, _, _, row, loaded, _, retained, done⟩ := done
  split at done
  case isTrue =>
    cases done
    exact .refl
  case isFalse =>
    simp only [bind_eq_ok, pure_eq_ok, build_eq_ok, Prod.mk.injEq] at done
    obtain ⟨next, fields, _, replaced, _, rfl⟩ := done
    obtain ⟨found, named⟩ := loadExecution_eq_ok.mp loaded
    exact .of_replace_silent found named
      (.held holdId now (Bool.not_eq_true _ ▸ retained) fields) replaced

theorem releaseDependencyHold_changes
    (done : repo.releaseDependencyHold store tenantId executionId holdId now =
      .ok (record, after)) : Changes call store after executionId [] := by
  simp only [releaseDependencyHold, bind_eq_ok] at done
  obtain ⟨_, _, _, _, row, loaded, done⟩ := done
  split at done
  case isTrue =>
    cases done
    exact .refl
  case isFalse =>
    simp only [bind_eq_ok, pure_eq_ok, build_eq_ok, Prod.mk.injEq] at done
    obtain ⟨next, fields, _, replaced, _, rfl⟩ := done
    obtain ⟨found, named⟩ := loadExecution_eq_ok.mp loaded
    exact .of_replace_silent found named (.released holdId now fields) replaced

theorem retentionSource_ok (done : retentionSource store executionId observed = .ok (some row)) :
    observedOrStored store executionId observed .integrity = .ok row := by
  unfold retentionSource at done
  split at done
  case h_1 => cases done
  case h_2 =>
    simp only [map_eq_ok, Option.some.injEq, exists_eq_right] at done
    exact done

theorem closeRetention_changes {answer : Bool × Option ExecutionRecord}
    (faithful : ∀ receipt ∈ observed, Faithful store receipt)
    (done : repo.closeRetention store tenantId executionId observed now =
      .ok (answer, after)) : Changes call store after executionId [] := by
  simp only [closeRetention, bind_eq_ok] at done
  obtain ⟨_, _, source, sourced, done⟩ := done
  split at done
  case h_1 =>
    cases done
    exact .refl
  case h_2 row =>
    split at done
    case isTrue =>
      cases done
      exact .refl
    case isFalse closable =>
      split at done
      case isTrue =>
        cases done
        exact .refl
      case isFalse =>
        simp only [bind_eq_ok, pure_eq_ok, build_eq_ok, Prod.mk.injEq] at done
        obtain ⟨next, fields, _, replaced, _, rfl⟩ := done
        simp only [not_or, not_not] at closable
        obtain ⟨terminal, unheld, settled⟩ := closable
        have loaded := retentionSource_ok sourced
        have named := (observedOrStored_ok loaded).1
        have update : Update call row.value next [] := .closed now terminal unheld settled fields
        exact .of_replace_silent (observedOrStored_stored faithful loaded
          (update.executionId_eq.trans named) replaced) named update replaced

variable {nextRecord : ExecutionRecord}

theorem compareAndSwap_changes (promised : UpdatesSnapshot store executionId expected nextRecord)
    (done : repo.compareAndSwap store tenantId executionId expected nextRecord =
      .ok (record, after)) : Changes call store after executionId [] := by
  simp only [compareAndSwap, bind_eq_ok, refuse_eq_ok, pure_eq_ok, not_or, not_not,
    Prod.mk.injEq] at done
  obtain ⟨_, _, row, loaded, _, ⟨revision, _, _⟩, _, replaced, rfl, rfl⟩ := done
  obtain ⟨found, named⟩ := loadExecution_eq_ok.mp loaded
  exact .of_replace_silent found named (.swapped (promised row found revision)) replaced

theorem commitBoundary_changes {observed answer : Observed ExecutionRecord} {claimId : String}
    (faithful : Faithful store observed)
    (promised : nextRecord = observed.value ∨ SnapshotUpdate observed.value nextRecord)
    (done : commitBoundary store observed nextRecord generation claimId = .ok (answer, after)) :
    Changes call store after nextRecord.executionId [] := by
  simp only [commitBoundary, bind_eq_ok, refuse_eq_ok, not_or, not_not] at done
  obtain ⟨_, ⟨same, _⟩, done⟩ := done
  split at done
  case isTrue =>
    simp only [bind_eq_ok, orRaise_eq_ok, pair_eq_ok, Prod.exists] at done
    obtain ⟨_, _, guards, _, _, _, rfl⟩ := done
    exact (guardRecordRevision_guarded guards).changes
  case isFalse different =>
    simp only [bind_eq_ok, pair_eq_ok] at done
    obtain ⟨_, replaced, _, rfl⟩ := done
    obtain ⟨current, found, revision, _⟩ := replaceChecked_ok replaced
    have receipt := faithful current (same ▸ found) revision
    subst receipt
    exact .of_replace_silent found same (.swapped (promised.resolve_left different)) replaced

variable {fields : ExecutionFields} {commit effective replaced sealed : ExecutionTerminalCommit}
  {same : fields.status = commit.execution.status}

section

variable (done : commit.replaceExecution fields same = .ok replaced)
include done

theorem replaceExecution_ok :
    ∃ execution status, replaced = commit.withExecution execution status ∧
      execution.toExecutionFields = fields := by
  unfold ExecutionTerminalCommit.replaceExecution at done
  split at done
  case h_1 execution built =>
    cases done
    exact ⟨execution, _, rfl, build_eq_ok.mp built⟩
  case h_2 => cases done

theorem replaceExecution_same (executionId : fields.executionId = commit.execution.executionId)
    (errorCode : fields.errorCode = commit.execution.errorCode)
    (durableTrace : fields.durableTrace = commit.execution.durableTrace)
    (generation : fields.producerGeneration = commit.execution.producerGeneration) :
    SamePublication commit replaced := by
  obtain ⟨execution, status, rfl, equal⟩ := replaceExecution_ok done
  exact ⟨(congrArg ExecutionFields.executionId equal).trans executionId, status,
    (congrArg ExecutionFields.errorCode equal).trans errorCode,
    (congrArg ExecutionFields.durableTrace equal).trans durableTrace,
    (congrArg ExecutionFields.producerGeneration equal).trans generation, rfl, rfl, rfl, rfl⟩

end

variable {pendingEvents : List ExecutionEventAppend}

theorem commitTerminal_ok
    (done : commitTerminal store commit pendingEvents now = .ok (record, after)) :
    ∃ row idempotency operation middle rewritten appended,
      store.executions commit.execution.executionId = some row ∧
      row.value.executionId = commit.execution.executionId ∧
      row.value.revision = commit.expectedRevision ∧ row.value.eventSeq = commit.expectedEventSeq ∧
      row.value.producerGeneration = commit.execution.producerGeneration ∧
      (∀ generation ∈ commit.producerGeneration, row.value.producerGeneration = generation) ∧
      terminalIdempotencyReplacement store commit now commit.idempotency = .ok idempotency ∧
      terminalOperationReplacement store now commit.operation = .ok operation ∧
      record.toExecutionFields = { commit.execution.toExecutionFields with
        revision := row.value.revision + pendingEvents.length + 1
        eventSeq := row.value.eventSeq + pendingEvents.length + 1
        result := some commit.result } ∧
      store.replaceChecked record row.storageRevision = .ok middle ∧
      replaceTerminalIdempotency middle idempotency = .ok rewritten ∧
      rewritten.insertFacts commit.execution.executionId (eventFacts (row.value.eventSeq + 1)
        (pendingEvents ++ [ExecutionCall.terminalEvent commit])) = .ok appended ∧
      after = replaceTerminalOperation appended operation := by
  simp only [commitTerminal, bind_eq_ok, refuse_eq_ok, pure_eq_ok, not_or, not_not,
    build_eq_ok, Prod.mk.injEq] at done
  obtain ⟨row, loaded, _, ⟨revision, sequence, _, _, generation, _, named⟩, idempotency, ends,
    operation, operates, next, fields, middle, replaced, rewritten, rewrites, appended, inserted,
    rfl, rfl⟩ := done
  obtain ⟨found, same⟩ := loadExecution_eq_ok.mp loaded
  refine ⟨row, idempotency, operation, middle, rewritten, appended, found, same, revision,
    sequence, generation, ?_, ends, operates, fields, replaced, rewrites, ?_, rfl⟩
  · intro expected member
    rw [Option.mem_def.mp member] at named
    simpa using named
  · rw [fields] at inserted
    rw [eventFacts_concat]
    exact inserted

theorem replaceTerminalIdempotency_ok {idempotency : Option (IdempotencyRecord × Nat)}
    (done : replaceTerminalIdempotency store idempotency = .ok after) :
    after = { store with idempotency := after.idempotency } := by
  cases idempotency with
  | none =>
    cases done
    rfl
  | some replacement =>
    obtain ⟨_, _, _, rfl⟩ := replaceIdempotency_ok done
    rfl

theorem replaceTerminalOperation_eq :
    replaceTerminalOperation store operation =
      { store with operations := (replaceTerminalOperation store operation).operations } := by
  cases operation with
  | none => rfl
  | some record => rfl

theorem writesIdempotency_of_ends (ends : call.Ends commit) : call.WritesIdempotency := by
  cases call with
  | commitTerminal | commitClosedTerminal | commitTerminalCheckpoint => exact trivial
  | _ => cases ends

theorem commitTerminal_changes (call : ExecutionCall)
    (promised : ∀ row, store.executions commit.execution.executionId = some row →
      row.value.revision = commit.expectedRevision → TerminalRecord row.value commit.execution)
    (expects : ∀ row, store.executions commit.execution.executionId = some row →
      row.value.revision = commit.expectedRevision →
      row.value.eventSeq = commit.expectedEventSeq → call.Expects row.value)
    (ends : call.Ends commit)
    (done : commitTerminal store commit pendingEvents now = .ok (record, after)) :
    Changes call store after commit.execution.executionId
      (pendingEvents ++ [ExecutionCall.terminalEvent commit]) := by
  obtain ⟨row, _, operation, middle, rewritten, appended, found, named, revision, sequence, _, _, _,
    _, fields, replaced, rewrites, inserted, rfl⟩ := commitTerminal_ok done
  have ending := promised row found revision
  have update : Update call row.value record
    (pendingEvents ++ [ExecutionCall.terminalEvent commit]) := by
    refine .ended commit pendingEvents (expects row found revision sequence) ends ?_ ?_
    · intro handoff
      apply ending.handoff
      rw [← handoff, fields]
      rfl
    · rw [fields, ending.fields]
  have idempotent := replaceTerminalIdempotency_ok rewrites
  have facts := insertFacts_ok inserted
  rw [replaceTerminalOperation_eq]
  refine .of_replace found named update replaced ?_ ?_
    ⟨absurd (writesIdempotency_of_ends ends), fun _ => ?_⟩
  · rw [facts, idempotent]
  · rw [facts, idempotent]
  · rw [facts, idempotent]

theorem endsSnapshot_plain
    (promised : EndsSnapshot store commit none) (row : Observed ExecutionRecord)
    (found : store.executions commit.execution.executionId = some row)
    (revision : row.value.revision = commit.expectedRevision) :
    TerminalRecord row.value commit.execution := by
  obtain ⟨snapshot, expects, ending, _, current⟩ := promised
  rw [current row found (revision.trans expects.symm)]
  exact ending

/-- The stored record that a commit ends, with what the commit is merged against. -/
structure EndsRecord (commit : ExecutionTerminalCommit)
    (expectedExecution : Option ExecutionRecord) (final current : ExecutionRecord) : Prop where
  record : TerminalRecord current final
  revision : expectedExecution = none → current.revision = commit.expectedRevision
  merged : ∀ expected ∈ expectedExecution, SameExecutionExceptHoldMetadata current expected

variable {expectedExecution : Option ExecutionRecord}

theorem mergeHolds_ok (promised : EndsSnapshot store commit expectedExecution)
    (done : mergeHolds store commit expectedExecution = .ok merged) :
    SamePublication commit merged ∧ merged.idempotency = commit.idempotency ∧
      ∀ row, store.executions commit.execution.executionId = some row →
        row.value.revision = merged.expectedRevision →
        EndsRecord commit expectedExecution merged.execution row.value := by
  cases expectedExecution with
  | none =>
    cases done
    refine ⟨⟨rfl, rfl, rfl, rfl, rfl, rfl, rfl, rfl, rfl⟩, rfl, fun row found revision =>
      ⟨endsSnapshot_plain promised row found revision, fun _ => revision, ?_⟩⟩
    rintro _ ⟨⟩
  | some expectedExecution =>
    obtain ⟨snapshot, _, ending, expected, _⟩ := promised
    simp only [mergeHolds, bind_eq_ok, orRaise_eq_ok, refuse_eq_ok, pure_eq_ok, not_not] at done
    obtain ⟨row, found, _, same, merged, replaced, rfl⟩ := done
    have publication := replaceExecution_same replaced rfl rfl rfl rfl
    obtain ⟨execution, status, rfl, fields⟩ := replaceExecution_ok replaced
    cases expected expectedExecution rfl
    refine ⟨⟨publication.executionId, status, publication.errorCode, publication.durableTrace,
      publication.generation, rfl, rfl, rfl, rfl⟩, rfl, fun other stored _ => ?_⟩
    cases found.symm.trans stored
    refine ⟨ending.of_sameExceptHolds same fields, by rintro ⟨⟩, ?_⟩
    rintro _ ⟨⟩
    exact same

theorem effectiveTerminalCommit_ok
    (done : effectiveTerminalCommit store commit expectedExecution startIdentity = .ok effective) :
    ∃ merged, mergeHolds store commit expectedExecution = .ok merged ∧
      effective = { merged with idempotency := effective.idempotency } ∧
      (merged.idempotency = none ∧
        terminalIdempotency store merged startIdentity = .ok effective.idempotency ∨
        merged.idempotency.isSome ∧ effective.idempotency = merged.idempotency) := by
  simp only [effectiveTerminalCommit, bind_eq_ok] at done
  obtain ⟨merged, merges, done⟩ := done
  split at done
  case h_1 update found =>
    cases done
    exact ⟨_, merges, rfl, .inr ⟨Option.isSome_of_mem found, rfl⟩⟩
  case h_2 absent =>
    simp only [bind_eq_ok, pure_eq_ok] at done
    obtain ⟨idempotency, updates, rfl⟩ := done
    exact ⟨merged, merges, rfl, .inl ⟨absent, updates⟩⟩

theorem effectiveTerminalCommit_ends (promised : EndsSnapshot store commit expectedExecution)
    (done : effectiveTerminalCommit store commit expectedExecution startIdentity = .ok effective) :
    SamePublication commit effective ∧
      ∀ row, store.executions commit.execution.executionId = some row →
        row.value.revision = effective.expectedRevision →
        EndsRecord commit expectedExecution effective.execution row.value := by
  obtain ⟨merged, merges, frame, _⟩ := effectiveTerminalCommit_ok done
  obtain ⟨same, _, ending⟩ := mergeHolds_ok promised merges
  rw [frame]
  exact ⟨⟨same.executionId, same.status, same.errorCode, same.durableTrace, same.generation,
    same.result, same.event, same.expectedEventSeq, same.producer⟩, ending⟩

theorem not_terminal_of_publishing (publishing : PublishingStatus allowCancelling status) :
    ¬TerminalStatus status := by
  rcases publishing with rfl | ⟨_, rfl | rfl⟩ <;> decide

theorem guardPublisher_ok (done : guardPublisher store commit = .ok after) : Guarded store after ∧
      ∀ row, store.executions commit.execution.executionId = some row →
        ¬TerminalStatus row.value.status := by
  unfold guardPublisher at done
  split at done
  case h_1 =>
    simp only [map_eq_ok, Prod.exists] at done
    obtain ⟨_, _, required, rfl⟩ := done
    obtain ⟨guarded, _, _, publishing, _, _, stored⟩ := requireExecutionProducer_ok required
    refine ⟨guarded, fun row found => ?_⟩
    cases stored.symm.trans found
    exact not_terminal_of_publishing publishing
  case h_2 =>
    simp only [map_eq_ok, Prod.exists] at done
    obtain ⟨_, _, required, rfl⟩ := done
    obtain ⟨guarded, _, live, _, stored⟩ := requireExecutionHistoryWrite_ok required
    refine ⟨guarded, fun row found => ?_⟩
    cases stored.symm.trans found
    exact live

theorem putTerminalSeal_ok (done : putTerminalSeal store historySeal = .ok after) :
    after = { store with seals := after.seals } ∧
      ∀ executionId, (∀ sealed ∈ historySeal, executionId ≠ sealed.executionId) →
        after.seals executionId = store.seals executionId := by
  cases historySeal with
  | none =>
    cases done
    exact ⟨rfl, fun _ _ => rfl⟩
  | some historySeal =>
    simp only [putTerminalSeal, map_eq_ok, Prod.exists] at done
    obtain ⟨_, _, put, rfl⟩ := done
    unfold putHistorySeal at put
    split at put
    case h_1 =>
      simp only [bind_eq_ok, refuse_eq_ok, pair_eq_ok] at put
      obtain ⟨_, _, _, rfl⟩ := put
      exact ⟨rfl, fun _ _ => rfl⟩
    case h_2 =>
      cases put
      exact ⟨rfl, fun _ other => Function.update_of_ne (other historySeal rfl) _ _⟩

variable {publication : TerminalPublication}

theorem sealTerminalCommit_ok (done : sealTerminalCommit publication = .ok (sealed, historySeal)) :
    SamePublication publication.commit sealed ∧
      sealed.idempotency = publication.commit.idempotency ∧
      sealed.expectedRevision = publication.commit.expectedRevision ∧
      sealed.execution.toExecutionFields = { publication.commit.execution.toExecutionFields with
        historySealDigest := sealed.execution.historySealDigest } := by
  simp only [sealTerminalCommit, bind_eq_ok, pair_eq_ok] at done
  obtain ⟨replaced, replaces, rfl, rfl⟩ := done
  have same := replaceExecution_same replaces rfl rfl rfl rfl
  obtain ⟨execution, status, rfl, fields⟩ := replaceExecution_ok replaces
  refine ⟨same, rfl, rfl, ?_⟩
  change execution.toExecutionFields = { publication.commit.execution.toExecutionFields with
    historySealDigest := execution.historySealDigest }
  rw [congrArg ExecutionFields.historySealDigest fields]
  exact fields

theorem endsSnapshot_sealed (guarded : Guarded store after)
    (promised : EndsSnapshot store commit expectedExecution)
    (executionId : sealed.execution.executionId = commit.execution.executionId)
    (revision : sealed.expectedRevision = commit.expectedRevision)
    (fields : sealed.execution.toExecutionFields = { commit.execution.toExecutionFields with
      historySealDigest := sealed.execution.historySealDigest }) :
    EndsSnapshot after sealed expectedExecution := by
  obtain ⟨snapshot, expects, ending, expected, current⟩ := promised
  refine ⟨snapshot, expects.trans revision.symm, ⟨?_, ?_⟩, expected, ?_⟩
  · rw [fields, ending.fields]
  · intro handoff
    apply ending.handoff
    rw [← handoff, fields]
    rfl
  · intro row found same
    rw [executionId] at found
    obtain ⟨old, stored, equal⟩ := guarded.found found
    rw [← equal] at same ⊢
    exact current old stored same

section

variable (promised : EndsSnapshot store publication.commit publication.expectedExecution)
include promised

section

variable (done : commitTerminalCheckpoint store publication now = .ok (record, after))
include done

/-- A terminal command guards its publisher, unless it publishes the closed record only, and
commits the effective commit. -/
theorem commitTerminalCheckpoint_ok :
    ∃ guarded sealedStore effective, Guarded store guarded ∧
      sealedStore = { guarded with seals := sealedStore.seals } ∧
      SamePublication publication.commit effective ∧
      (∀ row, sealedStore.executions effective.execution.executionId = some row →
        row.value.revision = effective.expectedRevision →
        EndsRecord publication.commit publication.expectedExecution effective.execution row.value ∧
          (publication.commit.execution.durableTrace = true ∨ publication.executionRun = true →
            ¬TerminalStatus row.value.status)) ∧
      (∃ sealed, sealed.idempotency = publication.commit.idempotency ∧
        SamePublication publication.commit sealed ∧
        effectiveTerminalCommit guarded sealed publication.expectedExecution
          publication.startIdentity = .ok effective) ∧
      commitTerminal sealedStore effective publication.auditEvents now = .ok (record, after) := by
  simp only [commitTerminalCheckpoint, bind_eq_ok, Prod.exists] at done
  obtain ⟨sealed, historySeal, sealing, done⟩ := done
  obtain ⟨same, idempotency, revision, fields⟩ := sealTerminalCommit_ok sealing
  split at done
  case isTrue plain =>
    simp only [bind_eq_ok] at done
    obtain ⟨effective, effects, commits⟩ := done
    have ends := endsSnapshot_sealed .refl promised same.executionId revision fields
    obtain ⟨further, ending⟩ := effectiveTerminalCommit_ends ends effects
    simp only [commitClosedTerminal, bind_eq_ok] at commits
    obtain ⟨_, _, commits⟩ := commits
    refine ⟨store, store, effective, .refl, rfl, same.trans further, ?_,
      ⟨sealed, idempotency, same, effects⟩, commits⟩
    intro row found expected
    rw [further.executionId] at found
    obtain ⟨ended, single, merged⟩ := ending row found expected
    refine ⟨⟨ended, fun none => (single none).trans revision, merged⟩, ?_⟩
    rw [same.durableTrace, Bool.eq_false_iff] at plain
    rintro (trace | published)
    · exact absurd trace plain.1
    · exact absurd published (Bool.eq_false_iff.mp plain.2)
  case isFalse =>
    simp only [bind_eq_ok] at done
    obtain ⟨guarded, guards, effective, effects, sealedStore, puts, commits⟩ := done
    obtain ⟨guarding, live⟩ := guardPublisher_ok guards
    have seals := (putTerminalSeal_ok puts).1
    have ends := endsSnapshot_sealed guarding promised same.executionId revision fields
    obtain ⟨further, ending⟩ := effectiveTerminalCommit_ends ends effects
    refine ⟨guarded, sealedStore, effective, guarding, seals, same.trans further, ?_,
      ⟨sealed, idempotency, same, effects⟩, commits⟩
    intro row found expected
    rw [further.executionId, seals] at found
    obtain ⟨ended, single, merged⟩ := ending row found expected
    refine ⟨⟨ended, fun none => (single none).trans revision, merged⟩, fun _ => ?_⟩
    obtain ⟨old, stored, equal⟩ := guarding.found found
    exact equal ▸ live old stored

theorem commitTerminalCheckpoint_changes :
    Changes (.commitTerminalCheckpoint publication) store after
      publication.commit.execution.executionId
      (publication.auditEvents ++ [ExecutionCall.terminalEvent publication.commit]) := by
  obtain ⟨guarded, sealedStore, effective, guarding, seals, same, ending, _, commits⟩ :=
    commitTerminalCheckpoint_ok promised done
  have changes := commitTerminal_changes (.commitTerminalCheckpoint publication)
    (fun row found revision => (ending row found revision).1.record)
    (fun row found revision sequence =>
      ⟨sequence.trans same.expectedEventSeq, (ending row found revision).1.revision,
        (ending row found revision).1.merged, (ending row found revision).2⟩) same commits
  rw [same.executionId, same.event] at changes
  exact guarding.then (changes.of_eq (by rw [seals]) (by rw [seals])
    ⟨absurd trivial, absurd trivial⟩)

end

end

variable {auditEvents : List ExecutionEventAppend}

theorem insertPendingTurn_ok
    (done : insertPendingTurn store reservation commit auditEvents now = .ok (record, after)) :
    ∃ middle reserved, commit.execution.executionId = reservation.execution.executionId ∧
      reservation.idempotency.resourceKind = executionKind ∧
      reservation.idempotency.resourceId = reservation.execution.executionId ∧
      record.toExecutionFields = { commit.execution.toExecutionFields with
        result := some commit.result
        eventSeq := (pendingTurnEvents commit auditEvents).length
        retentionClosed := true
        revision := commit.expectedRevision + auditEvents.length + 1 } ∧
      store.insertExecution record = .ok middle ∧
      middle.insertIdempotency { reservation.idempotency with
        status := terminalIdempotencyStatus commit.execution.status
        resultDigest := commit.result.output.map StoredOutput.digest
        errorCode := commit.execution.errorCode
        updatedAt := now } = .ok reserved ∧ reserved.insertFacts reservation.execution.executionId
        (eventFacts 1 (pendingTurnEvents commit auditEvents)) = .ok after := by
  simp only [insertPendingTurn, bind_eq_ok, refuse_eq_ok, pure_eq_ok, not_or, not_not,
    build_eq_ok, Prod.mk.injEq] at done
  obtain ⟨_, kind, _, ⟨_, _, sameId, resource, _, _, _⟩, _, _, _, _, final, fields, middle,
    inserted, reserved, reserves, _, facts, rfl, rfl⟩ := done
  exact ⟨middle, reserved, sameId, kind, resource, fields, inserted, reserves, facts⟩

theorem insertPendingTurn_changes (turn : PendingTurn commit)
    (done : insertPendingTurn store reservation commit auditEvents now = .ok (record, after)) :
    Changes (.insertPendingTurn reservation commit auditEvents) store after
      reservation.execution.executionId (pendingTurnEvents commit auditEvents) := by
  obtain ⟨middle, reserved, sameId, _, _, fields, inserted, reserves, facts⟩ :=
    insertPendingTurn_ok done
  obtain ⟨_, rfl⟩ := insertIdempotency_ok reserves
  have named : record.executionId = reservation.execution.executionId :=
    (congrArg ExecutionFields.executionId fields).trans sameId
  have appended := insertFacts_ok facts
  rw [← named] at appended ⊢
  exact putNew_changes inserted (.turn reservation commit auditEvents turn fields)
    (by rw [appended]) (by rw [appended]) ⟨absurd trivial, fun _ => by rw [appended]⟩

theorem commitCancelCheckpoint_changes {commit : ExecutionCancelRequestCommit}
    {expectedStatus : ExecutionStatus}
    (done : repo.commitCancelCheckpoint store commit expectedStatus auditEvents
      producerGeneration = .ok (record, after)) :
    Changes (.commitCancelCheckpoint commit expectedStatus auditEvents producerGeneration) store
      after commit.executionId (auditEvents ++ [ExecutionCall.cancelEvent commit.operationId]) := by
  cases producerGeneration with
  | none =>
    exact transitionExecution_changes (.commitCancelCheckpoint commit expectedStatus
      auditEvents none)
      (fun row found expects => ⟨expects.1, expects.2.1, nofun⟩) (by exact rfl) done
  | some generation =>
    simp only [commitCancelCheckpoint, bind_eq_ok, Prod.exists] at done
    obtain ⟨_, guarded, required, requested⟩ := done
    obtain ⟨guarding, _, _, publishing, _, _, stored⟩ := requireExecutionProducer_ok required
    refine guarding.then (transitionExecution_changes
      (.commitCancelCheckpoint commit expectedStatus auditEvents (some generation)) ?_
      (by exact rfl) requested)
    intro row found expects
    refine ⟨expects.1, expects.2.1, fun _ => ?_⟩
    obtain ⟨old, before, same⟩ := guarding.found found
    cases stored.symm.trans before
    exact same ▸ publishing

theorem updatesSnapshot_guarded (guarded : Guarded store after)
    (promised : UpdatesSnapshot store executionId expected nextRecord) :
    UpdatesSnapshot after executionId expected nextRecord := by
  intro row found revision
  obtain ⟨old, stored, same⟩ := guarded.found found
  rw [← same] at revision ⊢
  exact promised old stored revision

theorem commitRecoveryHandoff_changes
    (promised : UpdatesSnapshot store checkpoint.executionId expected checkpoint)
    (done : repo.commitRecoveryHandoff store checkpoint expected generation =
      .ok (record, after)) : Changes call store after checkpoint.executionId [] := by
  simp only [commitRecoveryHandoff, bind_eq_ok, Prod.exists] at done
  obtain ⟨_, _, _, guarded, required, swapped⟩ := done
  have guards := (requireExecutionProducer_ok required).1
  exact guards.then (compareAndSwap_changes (updatesSnapshot_guarded guards promised) swapped)

end ExecutionRepository

/-- Every committed call, on the records that its caller promises. -/
theorem run_changes {repo : ExecutionRepository} (promised : Promised store call)
    (done : call.run repo store now = .ok after) :
    Changes call store after call.target call.events := by
  cases call
  case guardRecovery => exact (guardRecovery_guarded done).changes
  all_goals obtain ⟨_, done⟩ := committed_eq_ok.mp done
  case createExecution => exact createExecution_changes promised done
  case compareAndSwap => exact compareAndSwap_changes promised done
  case commitBoundary => exact commitBoundary_changes promised.1 promised.2 done
  case requireExecutionProducer => exact (requireExecutionProducer_ok done).1.changes
  case requireExecutionHistoryWrite => exact (requireExecutionHistoryWrite_ok done).1.changes
  case reserveStart => exact reserveStart_changes promised done
  case claimStart => exact claimStart_changes done
  case compareAndSwapIdempotency => exact compareAndSwapIdempotency_changes done
  case claimNextAgentRun => exact claimNextAgentRun_changes done
  case claimPreparedAgentRun => exact claimPreparedAgentRun_changes promised done
  case claimDeferredResume => exact claimDeferredResume_changes done
  case enterDeferredWait => exact enterDeferredWait_changes done
  case transitionTaskExecution tenantId executionId revision eventSeq expectedStatus nextStatus
      taskState event occurredAt _ _ =>
    exact transitionExecution_changes
      (.transitionTaskExecution tenantId executionId revision eventSeq expectedStatus nextStatus
        taskState event occurredAt)
      (fun row found expects => ⟨expects.1, expects.2.1, expects.2.2 expectedStatus rfl⟩)
      (by exact rfl) done
  case markStartUnknown commit _ _ =>
    exact transitionExecution_changes (.markStartUnknown commit)
      (fun row found expects => ⟨expects.1, expects.2.1⟩) (by exact rfl) done
  case requestCancel commit expectedStatus pendingEvents recovery _ _ =>
    exact transitionExecution_changes
      (.requestCancel commit expectedStatus pendingEvents recovery)
      (fun row found expects => ⟨expects.1, expects.2.1, expects.2.2⟩) (by exact rfl) done
  case recordRecoveryCancel => exact recordRecoveryCancel_changes done
  case transitionRecovery => exact transitionRecovery_changes done
  case appendMany => exact appendMany_changes done
  case acquireDependencyHold => exact acquireDependencyHold_changes done
  case releaseDependencyHold => exact releaseDependencyHold_changes done
  case closeRetention => exact closeRetention_changes promised done
  case commitTerminal commit pendingEvents _ _ =>
    exact commitTerminal_changes (.commitTerminal commit pendingEvents)
      (endsSnapshot_plain promised) (fun row found revision sequence => ⟨revision, sequence⟩)
      rfl done
  case commitClosedTerminal commit pendingEvents _ _ =>
    simp only [commitClosedTerminal, bind_eq_ok] at done
    obtain ⟨_, _, done⟩ := done
    exact commitTerminal_changes (.commitClosedTerminal commit pendingEvents)
      (endsSnapshot_plain promised) (fun row found revision sequence => ⟨revision, sequence⟩)
      rfl done
  case commitTerminalCheckpoint => exact commitTerminalCheckpoint_changes promised done
  case insertPendingTurn => exact insertPendingTurn_changes promised done
  case commitCancelCheckpoint => exact commitCancelCheckpoint_changes done
  case commitRecoveryHandoff => exact commitRecoveryHandoff_changes promised done

end Linktools.Execution
