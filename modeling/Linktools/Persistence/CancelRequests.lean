import Linktools.Persistence.ResolvedCommits
import Linktools.Persistence.SubmissionLifecycle

namespace Linktools.Persistence

open Linktools.Core Library Linktools.Task TaskRepository

/-! The operation ledger along a run, and the cancel requests that stop claims. -/

def Unsettled (status : OperationStatus) : Prop :=
  status = .pending ∨ status = .running ∨ status = .effectUnknown

structure CancelsGraph (graphId : String) (operation : OperationLedgerInput) : Prop where
  resourceKind : operation.resourceKind = .taskGraph
  resourceId : operation.resourceId = graphId
  executionId : operation.executionId = none
  operationKind : operation.operationKind = .taskCancel

variable {repo : TaskRepository} {clock : Clock} {store after : Store}
  {operationId graphId : String} {record : OperationLedgerRecord} {operation : Operation}
  {outcome : Outcome}

namespace Store

def CancelStands (store : Store) (operationId graphId : String) : Prop :=
  ∃ record, store.operationAt operationId = some record ∧
    CancelsGraph graphId record.toOperationLedgerInput ∧ Unsettled record.status

def Settled (store : Store) (operationId : String) : Prop :=
  ∃ record, store.operationAt operationId = some record ∧ ¬Unsettled record.status

def LedgerGrows (before after : Store) : Prop :=
  ∀ operationId record, before.operationAt operationId = some record →
    after.operationAt operationId = some record

/-- A stored operation stays, is rewritten with the same identity, or goes once it is
settled. -/
def LedgerStep (before after : Store) : Prop :=
  ∀ operationId record, before.operationAt operationId = some record →
    (∃ next, after.operationAt operationId = some next ∧
      (next = record ∨ operationCasImmutableMatches record next)) ∨ ¬Unsettled record.status

theorem operationAt_row (found : store.operationAt operationId = some record) :
    record ∈ store.operations ∧ record.operationId = operationId := by
  have stored : rowAt (fun record : OperationLedgerRecord => record.operationId)
      store.operations operationId = some record := found
  have same := rowAt_key stored
  exact ⟨rowAt_mem stored, same⟩

theorem LedgerGrows.of_eq (same : after.operations = store.operations) :
    LedgerGrows store after := by
  intro operationId record found
  rwa [operationAt, same]

theorem LedgerGrows.step (grows : LedgerGrows store after) : LedgerStep store after :=
  fun operationId record found => .inl ⟨record, grows operationId record found, .inl rfl⟩

theorem appendOperation_grows (appended : store.appendOperation value = .ok (result, after)) :
    LedgerGrows store after := by
  unfold appendOperation at appended
  split at appended
  case h_1 =>
    split at appended
    · cases appended
      exact .of_eq rfl
    · cases appended
  case h_2 =>
    cases appended
    intro operationId record found
    have kept : rowAt (fun record => record.operationId) store.operations operationId =
        some record := found
    rw [operationAt, rowAt_append, kept, Option.some_or]

theorem appendOperation_stored
    (appended : store.appendOperation value = .ok ((record, replayed), after)) :
    after.operationAt value.operationId = some record ∧ operationReplayMatches record value := by
  unfold appendOperation at appended
  split at appended
  case h_1 current found =>
    split at appended
    case isTrue same =>
      cases appended
      exact ⟨found, same⟩
    case isFalse => cases appended
  case h_2 absent =>
    cases appended
    refine ⟨?_, rfl⟩
    rw [operationAt, rowAt_append, absent, Option.none_or, rowAt_cons, if_pos rfl]

end Store

theorem operationReplayMatches_fields (same : operationReplayMatches record value) :
    record.resourceKind = value.resourceKind ∧ record.resourceId = value.resourceId ∧
      record.executionId = value.executionId ∧
      record.operationKind = value.operationKind ∧ record.status = value.status :=
  ⟨(congrArg OperationLedgerInput.resourceKind same :),
    (congrArg OperationLedgerInput.resourceId same :),
    (congrArg OperationLedgerInput.executionId same :),
    (congrArg OperationLedgerInput.operationKind same :),
    (congrArg OperationLedgerInput.status same :)⟩

namespace TaskRepository

variable {graph : TaskGraph}

theorem admitGraph_grows {alreadyAdmitted : Prop} [Decidable alreadyAdmitted]
    (done : repo.admitGraph clock admission graph alreadyAdmitted store =
      .ok (view, after)) : Store.LedgerGrows store after := by
  unfold admitGraph at done
  split at done
  case h_1 =>
    simp only [createAdmission, bind_eq_ok, pure_eq_ok, Prod.exists, Prod.mk.injEq] at done
    obtain ⟨_, _, _, _, _, _, records, _, _, _, _, appended, _, rfl⟩ := done
    exact fun operationId record found =>
      Store.appendOperation_grows appended operationId record found
  case h_2 => cases done
  case h_3 =>
    simp only [bind_eq_ok] at done
    obtain ⟨_, _, _, _, impossible⟩ := done
    cases impossible
  case h_4 =>
    simp only [bind_eq_ok, pure_eq_ok, Prod.exists, Prod.mk.injEq] at done
    obtain ⟨_, _, _, _, _, _, _, _, _, _, _, _, rfl⟩ := done
    exact .of_eq rfl

theorem admitInTransaction_grows
    (done : repo.admitInTransaction clock admission graph requirePrepared store =
      .ok (view, after)) : Store.LedgerGrows store after := by
  simp only [admitInTransaction, bind_eq_ok] at done
  obtain ⟨_, _, _, _, done⟩ := done
  split at done
  case h_1 =>
    obtain ⟨_, _, admitted⟩ := bind_eq_ok.mp done
    exact fun operationId record found => admitGraph_grows admitted operationId record found
  case h_2 =>
    obtain ⟨_, _, admitted⟩ := bind_eq_ok.mp done
    exact fun operationId record found => admitGraph_grows admitted operationId record found
  case h_3 => exact admitGraph_grows done
  case h_4 =>
    split at done
    · cases done
      exact .of_eq rfl
    · exact admitGraph_grows done

theorem compareAndSwap_ledgerStep {tenantId : String}
    (done : repo.compareAndSwap operationId tenantId expectedStatus nextRecord store =
      .ok (result, after)) : Store.LedgerStep store after := by
  simp only [compareAndSwap, bind_eq_ok, orRaise_eq_ok, refuse_eq_ok, not_not, pair_eq_ok] at done
  obtain ⟨_, _, _, _, current, found, _, _, _, _, _, matches', _, rfl⟩ := done
  obtain ⟨inside, currentId⟩ := Store.operationAt_row found
  have sameId : nextRecord.operationId = operationId := matches'.1.symm.trans currentId
  intro other record stored
  refine .inl ?_
  by_cases here : other = operationId
  · subst here
    cases found.symm.trans stored
    have present : other ∈ store.operations.map fun record => record.operationId :=
      currentId ▸ List.mem_map_of_mem inside
    exact ⟨nextRecord, rowAt_rewriteAt_self nextRecord sameId present, .inr matches'⟩
  · refine ⟨record, ?_, .inl rfl⟩
    rw [← stored]
    exact rowAt_rewriteAt_of_ne sameId here

theorem compactTerminal_ledgerStep {resourceKind : ResourceKind} {resourceId tenantId : String}
    (done : repo.compactTerminal resourceKind resourceId tenantId throughSequence
      store = .ok (result, after)) : Store.LedgerStep store after := by
  simp only [compactTerminal, bind_eq_ok] at done
  obtain ⟨_, _, done⟩ := done
  split at done
  case isTrue =>
    cases done
    exact Store.LedgerGrows.step (.of_eq rfl)
  case isFalse =>
    cases done
    intro operationId record stored
    by_cases open' : Unsettled record.status
    case neg => exact .inr open'
    case pos =>
      refine .inl ⟨record, ?_, .inl rfl⟩
      rw [Store.operationAt, List.partition_eq_filter_filter]
      apply rowAt_filter stored
      simp only [Function.comp_apply, Bool.not_eq_true', compactableThrough]
      apply decide_eq_false
      rintro ⟨_, _, settled, _⟩
      rcases open' with status | status | status <;> simp [status] at settled

theorem perform_ledgerStep (keyed : WellKeyed store)
    (done : repo.perform clock operation store = .ok (outcome, after)) :
    Store.LedgerStep store after := by
  by_cases changes : operation.changesGraph = true
  · obtain ⟨_, _, _, _, _, rfl⟩ := perform_oneGraph keyed changes done
    exact Store.LedgerGrows.step (.of_eq rfl)
  cases operation <;> try exact absurd rfl changes
  all_goals
    simp only [perform, presented_eq_ok] at done
    obtain ⟨value, done, _⟩ := done
  case prepare =>
    simp only [prepareWithDisposition, bind_eq_ok] at done
    obtain ⟨_, _, _, _, done⟩ := done
    split at done
    · simp only [bind_eq_ok, pair_eq_ok] at done
      obtain ⟨_, _, _, rfl⟩ := done
      exact Store.LedgerGrows.step (.of_eq rfl)
    · simp only [bind_eq_ok, pair_eq_ok] at done
      obtain ⟨_, _, _, rfl⟩ := done
      exact Store.LedgerGrows.step (.of_eq rfl)
  case admitSubmission =>
    simp only [admitSubmission, bind_eq_ok] at done
    obtain ⟨_, _, _, _, _, _, admitted⟩ := done
    exact (admitInTransaction_grows admitted).step
  case admitPrepared =>
    simp only [admitPrepared, bind_eq_ok] at done
    obtain ⟨_, _, _, _, _, _, _, _, admitted⟩ := done
    exact (admitInTransaction_grows admitted).step
  case cancelSubmission =>
    simp only [cancelSubmission, bind_eq_ok, pure_eq_ok, Prod.exists, Prod.mk.injEq] at done
    obtain ⟨_, _, withdrawn, withdrawnOk, _, _, _, appended, _, rfl⟩ := done
    apply Store.LedgerGrows.step
    intro operationId record found
    apply Store.appendOperation_grows appended
    rcases withdrawSubmission_ok withdrawnOk with rfl | rfl <;> exact found
  case registerCancelRequest =>
    simp only [registerCancelRequest, bind_eq_ok] at done
    obtain ⟨_, _, _, _, _, _, appended⟩ := done
    exact (Store.appendOperation_grows appended).step
  case compareAndSwap => exact compareAndSwap_ledgerStep done
  case append =>
    simp only [append, bind_eq_ok, pure_eq_ok, Prod.exists, Prod.mk.injEq] at done
    obtain ⟨_, _, _, _, _, appended, _, rfl⟩ := done
    exact (Store.appendOperation_grows appended).step
  case compactTerminal => exact compactTerminal_ledgerStep done

end TaskRepository

theorem Store.LedgerStep.cancelStands (ledger : Store.LedgerStep store after)
    (stands : store.CancelStands operationId graphId) :
    after.CancelStands operationId graphId ∨ after.Settled operationId := by
  obtain ⟨record, found, cancels, open'⟩ := stands
  rcases ledger operationId record found with ⟨next, stored, same⟩ | settled
  · by_cases stillOpen : Unsettled next.status
    case neg => exact .inr ⟨next, stored, stillOpen⟩
    case pos =>
      refine .inl ⟨next, stored, ?_, stillOpen⟩
      rcases same with rfl | ⟨_, _, resourceKind, resourceId, executionId, kind, _⟩
      · exact cancels
      · exact ⟨resourceKind ▸ cancels.resourceKind, resourceId ▸ cancels.resourceId,
          executionId ▸ cancels.executionId, kind ▸ cancels.operationKind⟩
  · exact absurd open' settled

theorem cancelPending_of_stands (stands : store.CancelStands operationId graphId)
    (executionId : Option String) : cancelPending (pendingOperations store graphId)
      executionId := by
  obtain ⟨record, found, cancels, open'⟩ := stands
  refine ⟨record, List.mem_filter.mpr ⟨(Store.operationAt_row found).1, ?_⟩,
    cancels.operationKind, .inl cancels.executionId⟩
  exact decide_eq_true ⟨cancels.resourceKind, cancels.resourceId, open'⟩

theorem claim_raises (repo : TaskRepository) (clock : Clock)
    (stands : store.CancelStands operationId graphId) (nodeId tenantId owner : String)
    (leaseSeconds : Int) : Raises Unreported
      (repo.claim clock graphId nodeId tenantId owner leaseSeconds store) := by
  unfold claim
  refine .bind (.refuse rfl) fun _ _ => .bind (.refuse rfl) fun _ _ =>
    .bind (.refuse rfl) fun _ _ => .bind (.orRaise rfl) fun records _ => .bind_left ?_
  unfold claimIn
  refine .bind (.orRaise rfl) fun node _ => .bind (.refuse rfl) fun _ _ =>
    .bind (.refuse rfl) fun _ _ => .bind (.refuse rfl) fun _ _ => .bind_left ?_
  exact .refuse (cancelPending_of_stands stands node.state.executionId) rfl

theorem Store.CancelStands.claim_refused (stands : store.CancelStands operationId graphId)
    (ending : Ending) (clock : Clock) (answered : Time) (nodeId tenantId owner : String)
    (leaseSeconds : Int) :
    ∃ raised, repo.respond clock (.claim graphId nodeId tenantId owner leaseSeconds)
        store = (.error raised, store) ∧ repo.callUnder ending clock answered
        (.claim graphId nodeId tenantId owner leaseSeconds) store = (.error raised, store) := by
  obtain ⟨raised, claimed, unreported⟩ := claim_raises repo clock stands nodeId
    tenantId owner leaseSeconds
  have performed : repo.perform clock
      (.claim graphId nodeId tenantId owner leaseSeconds) store = .error raised := by
    simp only [perform, presented, claimed, Except.map]
  refine ⟨raised, ?_, ?_⟩
  · simp only [respond, performed]
  · have report : commitReportOf raised = none := unreported
    simp only [callUnder, NodeOperation.operation, performed, report]

variable {first middle last : System} {calls : List Call} {call : Call}

theorem step_cancelStands (reachable : (taskSystem repo).Reachable first)
    (stands : first.store.CancelStands operationId graphId)
    (step : (taskSystem repo).step first call last) :
    last.store.CancelStands operationId graphId ∨ last.store.Settled operationId := by
  rcases respond_cases step.2.2 with ⟨_, _, done⟩ | ⟨_, _, same⟩
  · exact (perform_ledgerStep
      (soundSystem_of_reachable reachable).wellKeyed done).cancelStands stands
  · exact .inl (same ▸ stands)

theorem step_registers {operation : OperationLedgerInput}
    (step : (taskSystem repo).step first call last)
    (asked : call.operation = .registerCancelRequest operation)
    (graphWide : operation.executionId = none) (answered : call.answer = .ok outcome) :
    last.store.CancelStands operation.operationId operation.resourceId := by
  rcases respond_cases step.2.2 with ⟨_, _, done⟩ | ⟨_, refused, _⟩
  · simp only [asked, perform, presented_eq_ok] at done
    obtain ⟨⟨record, replayed⟩, done, _⟩ := done
    simp only [registerCancelRequest, bind_eq_ok, refuse_eq_ok, not_or, not_not] at done
    obtain ⟨_, _, _, ⟨resourceKind, kind, status⟩, _, _, appended⟩ := done
    obtain ⟨stored, same⟩ := Store.appendOperation_stored appended
    obtain ⟨sameResource, sameId, sameExecution, sameKind, sameStatus⟩ :=
      operationReplayMatches_fields same
    exact ⟨record, stored, ⟨sameResource.trans resourceKind, sameId,
      sameExecution.trans graphWide, sameKind.trans kind⟩, .inl (sameStatus.trans status)⟩
  · cases answered.symm.trans refused

/-- From the registration of a graph-wide cancel request on, every claim of a node of the
graph raises, unless the request's operation has been settled. -/
theorem cancel_request_blocks_claims {operation : OperationLedgerInput}
    (reachable : (taskSystem repo).Reachable first)
    (step : (taskSystem repo).step first call middle)
    (asked : call.operation = .registerCancelRequest operation)
    (graphWide : operation.executionId = none) (answered : call.answer = .ok outcome)
    (run : Machine.Run (taskSystem repo) middle calls last) :
    (∃ earlier later state, calls = earlier ++ later ∧
      Machine.Run (taskSystem repo) middle earlier state ∧
      Machine.Run (taskSystem repo) state later last ∧
      ∃ record, state.store.operationAt operation.operationId = some record ∧
        record.status ≠ .pending ∧ record.status ≠ .running ∧ record.status ≠ .effectUnknown) ∨
    ∀ (ending : Ending) (clock : Clock) (answered : Time)
      (nodeId tenantId owner : String) (leaseSeconds : Int), ∃ raised, repo.respond clock
          (.claim operation.resourceId nodeId tenantId owner leaseSeconds) last.store =
            (.error raised, last.store) ∧ repo.callUnder ending clock answered
          (.claim operation.resourceId nodeId tenantId owner leaseSeconds) last.store =
            (.error raised, last.store) := by
  have stands := step_registers step asked graphWide answered
  rcases run.unless (fun _ _ _ => step_cancelStands) (reachable.step step) stands with
    stands | ⟨earlier, later, state, split, toState, fromState, record, found, settled⟩
  · exact .inr (Store.CancelStands.claim_refused stands)
  · simp only [Unsettled, not_or] at settled
    exact .inl ⟨earlier, later, state, split, toState, fromState, record, found, settled⟩

def sampleCancelRequest : OperationLedgerInput :=
  { sampleWithdrawal with operationId := "cancel-1", requestDigest := sampleError }

/-- A cancel request is registered, and the second node is not claimed. -/
theorem sample_claim_blocked :
    let system := sampleSystem
      (sampleStart ++ [(tick 4, .registerCancelRequest sampleCancelRequest)])
    ∃ raised, sampleRepository.respond (tick 5)
      (.claim "graph" "b" "tenant" "worker-2" 60) system.store = (.error raised, system.store) := by
  intro system
  have reachable : (taskSystem sampleRepository).Reachable (sampleSystem sampleStart) :=
    play_reachable (by decide +kernel)
  have registered : (sampleRepository.called (sampleSystem sampleStart) (tick 4)
      (.registerCancelRequest sampleCancelRequest)).answer.toOption.isSome = true := by
    decide +kernel
  have step : (taskSystem sampleRepository).step (sampleSystem sampleStart)
      (sampleRepository.called (sampleSystem sampleStart) (tick 4)
        (.registerCancelRequest sampleCancelRequest)) system :=
    step_next (show (sampleSystem sampleStart).time ≤ 4 by decide +kernel)
  have pending : (system.store.operationAt "cancel-1").map
      (fun record => record.status) = some .pending := by decide +kernel
  obtain ⟨outcome, answered⟩ := Option.isSome_iff_exists.mp registered
  rcases cancel_request_blocks_claims reachable step rfl rfl (toOption_eq_some.mp answered)
    (.nil system) with ⟨earlier, later, state, split, toState, _, record, found, settled, _⟩ |
    refused
  · obtain ⟨rfl, rfl⟩ := List.nil_eq_append_iff.mp split
    cases toState
    rw [show system.store.operationAt "cancel-1" = some record from found,
      Option.map_some, Option.some.injEq] at pending
    exact absurd pending settled
  · obtain ⟨raised, refusedStep, _⟩ := refused .acknowledged (tick 5) 5 "b" "tenant"
      "worker-2" 60
    exact ⟨raised, refusedStep⟩

end Linktools.Persistence
