import Linktools.Execution.Histories

namespace Linktools.Execution

open Linktools.Core Library ExecutionRepository List

def ExecutionStore.record (store : ExecutionStore) (executionId : String) :
    Option ExecutionRecord :=
  (store.executions executionId).map Observed.value

/-- A new record has at most as many events as revisions, and a replaced record advances by
at least as many revisions as events. -/
def RevisionAdvances (record : Option ExecutionRecord) (next : ExecutionRecord) : Prop :=
  match record with
  | none => next.eventSeq ≤ next.revision
  | some current => current.revision < next.revision ∧
      next.eventSeq - current.eventSeq ≤ next.revision - current.revision

/-- The facts of every execution are numbered up to its record's counter. -/
def Numbered (store : ExecutionStore) : Prop :=
  ∀ executionId, (store.events executionId).map ExecutionEventRecord.eventSeq =
    range' 1 (lastSequence (store.executions executionId))

section Changes

variable {call : ExecutionCall} {store after : ExecutionStore} {events : List ExecutionEventAppend}
  {row next : Option (Observed ExecutionRecord)} {record : ExecutionRecord}

theorem Admission.eventSeq_eq (admission : Admission record events) :
    record.eventSeq = events.length := by
  cases admission with
  | reserved fresh => exact fresh.eventSeq
  | turn _ _ _ _ fields => rw [fields]

theorem Admission.eventSeq_le_revision (admission : Admission record events) :
    record.eventSeq ≤ record.revision := by
  cases admission with
  | reserved fresh => exact fresh.eventSeq ▸ Nat.zero_le _
  | turn _ commit auditEvents turn fields =>
    have claimed := turn.claimed
    simp only [fields, pendingTurnEvents, length_append, length_cons, length_nil]
    omega

theorem RowChange.lastSequence_eq (change : RowChange call row next events) :
    lastSequence next = lastSequence row + events.length := by
  cases change with
  | kept _ _ kept => exact kept.lastSequence_eq
  | inserted record events admission => exact admission.eventSeq_eq.trans (zero_add _).symm
  | updated row next revision events grows update => exact update.eventSeq_eq

theorem RowChange.revisionAdvances (change : RowChange call row next events) :
    next.map Observed.value = row.map Observed.value ∨
      ∃ value, next.map Observed.value = some value ∧
        RevisionAdvances (row.map Observed.value) value := by
  cases change with
  | kept _ _ kept =>
    cases kept with
    | same => exact .inl rfl
    | guarded => exact .inl rfl
  | inserted record _ admission => exact .inr ⟨record, rfl, admission.eventSeq_le_revision⟩
  | updated row next _ events _ update =>
    refine .inr ⟨next, rfl, update.revision_advances.1, ?_⟩
    have further := update.revision_advances.2
    have sequence := update.eventSeq_eq
    omega

theorem Kept.value_eq (kept : Kept row next) : next.map Observed.value = row.map
    Observed.value := by
  cases kept with
  | same => rfl
  | guarded => rfl

theorem Changes.numbered (changes : Changes call store after target events)
    (numbered : Numbered store) : Numbered after := by
  intro executionId
  by_cases other : executionId = target
  case pos =>
    subst other
    rw [changes.appended, map_append, numbered, map_eventSeq_eventFacts,
      changes.row.lastSequence_eq, add_comm _ 1, ← range'_append_1]
  case neg =>
    rw [changes.silent executionId other, numbered,
      (changes.others executionId other).lastSequence_eq]

end Changes

variable {repo : ExecutionRepository} {system : ExecutionSystem}

theorem numbered_of_reachable (reachable : (genuineMachine repo).Reachable system) :
    Numbered system.store := by
  apply reachable.invariant
  · rintro _ rfl executionId
    rfl
  · intro first label last reached numbered step
    obtain ⟨stepped, genuine⟩ := step
    rw [stepped]
    cases ExecutionSystem.respond_changes reached genuine label.2 with
    | inl raises =>
      obtain ⟨_, _, same⟩ := raises
      rw [same]
      exact numbered
    | inr commits =>
      obtain ⟨after, _, same, changes⟩ := commits
      rw [same]
      exact changes.numbered numbered

/-- The events of every execution are numbered from one to the counter of its record.  Every
call raises and changes nothing, or appends all of its events and advances the counter by
their number; a record that changes has a greater revision, which advances by no less than
the counter. -/
theorem events_are_numbered_by_the_record
    (reachable : (genuineMachine repo).Reachable system) :
    Numbered system.store ∧ ∀ call now, system.Genuine call →
      (∃ raised, call.run repo system.store now = .error raised ∧
        system.respond repo now call = system) ∨
      ∃ after, call.run repo system.store now = .ok after ∧
        (system.respond repo now call).store = after ∧
        after.events call.target = system.store.events call.target ++
          eventFacts (lastSequence (system.store.executions call.target) + 1) call.events ∧
        lastSequence (after.executions call.target) =
          lastSequence (system.store.executions call.target) + call.events.length ∧
        (∀ executionId, executionId ≠ call.target →
          after.events executionId = system.store.events executionId ∧
          after.record executionId = system.store.record executionId) ∧
        ∀ executionId, after.record executionId = system.store.record executionId ∨
          ∃ next, after.record executionId = some next ∧
            RevisionAdvances (system.store.record executionId) next := by
  refine ⟨numbered_of_reachable reachable, fun call now genuine => ?_⟩
  cases ExecutionSystem.respond_changes reachable genuine now with
  | inl raises => exact .inl raises
  | inr commits =>
    obtain ⟨after, done, same, changes⟩ := commits
    refine .inr ⟨after, done, congrArg ExecutionSystem.store same, changes.appended,
      changes.row.lastSequence_eq, ?_, ?_⟩
    · intro executionId other
      exact ⟨changes.silent executionId other, (changes.others executionId other).value_eq⟩
    · intro executionId
      by_cases other : executionId = call.target
      case pos =>
        subst other
        exact changes.row.revisionAdvances
      case neg => exact .inl (changes.others executionId other).value_eq

/-- Two events of an admitted execution. -/
theorem sample_events_numbered : Numbered sampleSystem.store ∧
      (sampleSystem.respond sampleRepository 1 (.appendMany "t" "e" [⟨"A", []⟩, ⟨"B", []⟩] none)
        ).store.events "e" = [⟨1, "A", []⟩, ⟨2, "B", []⟩] :=
  ⟨(events_are_numbered_by_the_record sampleSystem_reachable).1, by decide +kernel⟩

/-! The outcome of an execution: a live record has none, and a record that has ended keeps
the one it has ended with. -/

/-- A record has a result if it has ended, and an output if it has succeeded. -/
structure Settled (record : ExecutionRecord) : Prop where
  result : record.result.isSome = true ↔ TerminalStatus record.status
  output : ∀ result ∈ record.result, result.output.isSome = true ↔ record.status = .succeeded

structure SameOutcome (current next : ExecutionRecord) : Prop where
  status : next.status = current.status
  result : next.result = current.result
  errorCode : next.errorCode = current.errorCode
  safeErrorDetails : next.safeErrorDetails = current.safeErrorDetails
  errorDiagnostics : next.errorDiagnostics = current.errorDiagnostics
  historySealDigest : next.historySealDigest = current.historySealDigest

def Continues (current next : ExecutionRecord) : Prop :=
  SameOutcome current next ∨
    ¬TerminalStatus current.status ∧ ¬TerminalStatus next.status ∧ next.result = current.result

/-- A call that sets the status sets no status of an ended execution, and moves to no
terminal status without a result. -/
def SetsLive (store : ExecutionStore) (call : ExecutionCall) : Prop :=
  (∀ row, store.executions call.target = some row → call.Expects row.value →
    ¬TerminalStatus row.value.status) ∧ ∀ status, call.Moves status → ¬TerminalStatus status

section Records

variable {call : ExecutionCall} {current middle next : ExecutionRecord}
  {events : List ExecutionEventAppend}

theorem SetsLive.of_silent (silent : ∀ record, ¬call.Expects record)
    (still : ∀ status, ¬call.Moves status) : SetsLive store call :=
  ⟨fun row _ expects => absurd expects (silent row.value),
    fun status moves => absurd moves (still status)⟩

theorem SameOutcome.refl : SameOutcome current current := ⟨rfl, rfl, rfl, rfl, rfl, rfl⟩

theorem SameOutcome.trans (left : SameOutcome current middle) (right : SameOutcome middle next) :
    SameOutcome current next :=
  ⟨right.status.trans left.status, right.result.trans left.result,
    right.errorCode.trans left.errorCode, right.safeErrorDetails.trans left.safeErrorDetails,
    right.errorDiagnostics.trans left.errorDiagnostics,
    right.historySealDigest.trans left.historySealDigest⟩

theorem SameOutcome.of_fields (same : next.toExecutionFields = fields)
    (status : fields.status = current.status) (result : fields.result = current.result)
    (errorCode : fields.errorCode = current.errorCode)
    (details : fields.safeErrorDetails = current.safeErrorDetails)
    (diagnostics : fields.errorDiagnostics = current.errorDiagnostics)
    (sealed : fields.historySealDigest = current.historySealDigest) : SameOutcome current next := by
  subst same
  exact ⟨status, result, errorCode, details, diagnostics, sealed⟩

theorem Continues.same_of_terminal (continues : Continues current next)
    (terminal : TerminalStatus current.status) : SameOutcome current next := by
  cases continues with
  | inl same => exact same
  | inr live => exact absurd terminal live.1

theorem Continues.settled (continues : Continues current next) (settled : Settled current) :
    Settled next := by
  cases continues with
  | inl same =>
    constructor
    · rw [same.result, same.status]
      exact settled.result
    · rw [same.result, same.status]
      exact settled.output
  | inr live =>
    obtain ⟨before, after, result⟩ := live
    have absent : next.result = none := by
      rw [result, ← Option.not_isSome_iff_eq_none]
      exact fun present => before (settled.result.mp present)
    constructor
    · rw [absent]
      exact ⟨nofun, fun terminal => absurd terminal after⟩
    · rw [absent]
      rintro _ ⟨⟩

theorem NewExecution.settled (fresh : NewExecution current) : Settled current := by
  constructor
  · rw [fresh.result, fresh.status]
    decide
  · rw [fresh.result]
    rintro _ ⟨⟩

theorem ExecutionTerminalCommit.settled (commit : ExecutionTerminalCommit)
    (status : next.status = commit.execution.status) (result : next.result = some commit.result) :
    Settled next := by
  constructor
  · rw [result, status]
    exact ⟨fun _ => commit.terminal, fun _ => rfl⟩
  · rw [result, status]
    rintro _ ⟨⟩
    exact commit.outputs

theorem Admission.settled (admission : Admission current events) : Settled current := by
  cases admission with
  | reserved fresh => exact fresh.settled
  | turn _ commit _ _ fields => exact commit.settled (by rw [fields]) (by rw [fields])

theorem SnapshotUpdate.continues (update : SnapshotUpdate current next) :
    Continues current next := by
  have fields := update.fields
  cases update.status with
  | inl status => exact .inl (.of_fields fields status rfl rfl rfl rfl rfl)
  | inr moved =>
    have result : next.result = current.result := by rw [fields]
    refine .inr ⟨?_, ?_, result⟩
    · rcases moved with ⟨before, _⟩ | ⟨before, _⟩ <;> rw [before] <;> decide
    · rcases moved with ⟨_, after⟩ | ⟨_, after⟩ <;> rw [after] <;> decide

theorem Update.continues_or_ends (update : Update call current next events)
    (live : call.Expects current → ¬TerminalStatus current.status)
    (moves : ∀ status, call.Moves status → ¬TerminalStatus status) :
    Continues current next ∨ ∃ commit, call.Ends commit ∧ ¬TerminalStatus current.status ∧
      next.status = commit.execution.status ∧ next.result = some commit.result := by
  cases update with
  | started startedAt pending fields =>
    have status : next.status = .started := by rw [fields]
    refine .inl (.inr ⟨?_, ?_, by rw [fields]⟩)
    · rw [pending]
      decide
    · rw [status]
      decide
  | claimed _ _ _ _ _ running _ fields =>
    have status : next.status = .started := by rw [fields]
    refine .inl (.inr ⟨?_, ?_, by rw [fields]⟩)
    · rcases running with before | before <;> rw [before] <;> decide
    · rw [status]
      decide
  | transitioned transition expects moved fields =>
    have status : next.status = transition.nextStatus := by rw [fields]
    exact .inl (.inr ⟨live expects, status ▸ moves _ moved, by rw [fields]⟩)
  | recovered transition _ expects moved _ fields =>
    have status : next.status = transition.nextStatus := by rw [fields]
    exact .inl (.inr ⟨live expects, status ▸ moves _ moved, by rw [fields]⟩)
  | cancelRecorded _ _ _ fields => exact .inl (.inl (.of_fields fields rfl rfl rfl rfl rfl rfl))
  | appended _ _ _ fields => exact .inl (.inl (.of_fields fields rfl rfl rfl rfl rfl rfl))
  | held _ _ _ fields => exact .inl (.inl (.of_fields fields rfl rfl rfl rfl rfl rfl))
  | released _ _ fields => exact .inl (.inl (.of_fields fields rfl rfl rfl rfl rfl rfl))
  | closed _ _ _ _ fields => exact .inl (.inl (.of_fields fields rfl rfl rfl rfl rfl rfl))
  | swapped update => exact .inl update.continues
  | ended commit _ expects ends _ fields =>
    exact .inr ⟨commit, ends, live expects, by rw [fields], by rw [fields]⟩

end Records

section Changes

variable {call : ExecutionCall} {store after : ExecutionStore} {executionId : String}
  {record : ExecutionRecord} {events : List ExecutionEventAppend}

section

variable (changes : Changes call store after call.target events)
include changes

theorem Changes.outcome
    (sets : SetsLive store call) (present : store.record executionId = some record) :
    ∃ next, after.record executionId = some next ∧
      (Continues record next ∨ executionId = call.target ∧ ∃ commit, call.Ends commit ∧
        ¬TerminalStatus record.status ∧ next.status = commit.execution.status ∧
        next.result = some commit.result) := by
  by_cases other : executionId = call.target
  case neg =>
    exact ⟨record, (changes.others executionId other).value_eq.trans present, .inl (.inl .refl)⟩
  case pos =>
    subst other
    obtain ⟨row, found, rfl⟩ := Option.map_eq_some_iff.mp present
    have live := sets.1 row found
    have change := changes.row
    rw [found] at change
    unfold ExecutionStore.record
    generalize after.executions call.target = stored at change
    cases change with
    | kept _ _ kept => exact ⟨row.value, kept.value_eq, .inl (.inl .refl)⟩
    | updated _ next _ _ _ update =>
      refine ⟨next, rfl, (update.continues_or_ends live sets.2).imp_right ?_⟩
      exact fun ends => ⟨rfl, ends⟩

theorem Changes.settled (sets : SetsLive store call)
    (settled : ∀ executionId, ∀ record ∈ store.record executionId, Settled record) :
    ∀ executionId, ∀ record ∈ after.record executionId, Settled record := by
  intro executionId next present
  cases before : store.record executionId with
  | some record =>
    obtain ⟨same, stored, outcome⟩ := changes.outcome sets before
    cases stored.symm.trans present
    cases outcome with
    | inl continues => exact continues.settled (settled executionId record before)
    | inr ends =>
      obtain ⟨_, commit, _, _, status, result⟩ := ends
      exact commit.settled status result
  | none =>
    have absent : store.executions executionId = none := Option.map_eq_none_iff.mp before
    by_cases other : executionId = call.target
    case neg =>
      have kept := (changes.others executionId other).value_eq
      rw [absent] at kept
      cases present.symm.trans kept
    case pos =>
      subst other
      have change := changes.row
      rw [absent] at change
      obtain ⟨row, found, rfl⟩ := Option.map_eq_some_iff.mp present
      rw [found] at change
      cases change with
      | kept _ _ kept => cases kept
      | inserted _ _ admission => exact admission.settled

end

end Changes

open ExecutionStore

structure Agrees (row : IdempotencyRecord) (record : ExecutionRecord) : Prop where
  completed : row.status = .completed ↔ record.status = .succeeded
  failed : row.status = .failed ↔ record.status = .failed
  cancelled : row.status = .cancelled ↔ record.status = .cancelled
  resultDigest : TerminalStatus record.status →
    row.resultDigest = (record.result.bind ResultRecord.output).map StoredOutput.digest
  errorCode : TerminalStatus record.status → row.errorCode = record.errorCode

/-- Every idempotency record agrees with the execution that it names. -/
def Agreed (store : ExecutionStore) : Prop :=
  ∀ row ∈ store.idempotency, row.value.resourceKind = executionKind ∧
    ∃ record, store.record row.value.resourceId = some record ∧ Agrees row.value record

def OpenStatus (status : IdempotencyStatus) : Prop :=
  status = .reserved ∨ status = .started ∨ status = .startUnknown

/-- The update ends the idempotency record as its commit ends the execution. -/
structure EndsIdentity (commit : ExecutionTerminalCommit) (row : IdempotencyRecord)
    (update : IdempotencyTerminalUpdate) : Prop where
  identity : row.identityKey = (update.scope, update.idempotencyKeyDigest)
  nextStatus : update.nextStatus = terminalIdempotencyStatus commit.execution.status
  resultDigest : update.resultDigest = commit.result.output.map StoredOutput.digest
  errorCode : update.errorCode = commit.execution.errorCode

def EndsIdentities (store : ExecutionStore) (commit : ExecutionTerminalCommit)
    (idempotency : Option IdempotencyTerminalUpdate) : Prop :=
  ∀ row ∈ store.idempotency, row.value.resourceId = commit.execution.executionId →
    ∃ update ∈ idempotency, EndsIdentity commit row.value update

/-- The records that a call writes beside the execution agree with it: a reservation names
its execution, and an update that the caller gives ends the record of the execution. -/
def Coherent (store : ExecutionStore) : ExecutionCall → Prop
  | .reserveStart reservation _ => reservation.idempotency.status = .reserved ∧
      reservation.idempotency.resourceId = reservation.execution.executionId
  | .compareAndSwapIdempotency _ scope digest expectedStatus next =>
    OpenStatus expectedStatus ∧ OpenStatus next.status ∧
      ∀ stored, store.idempotencyAt (scope, digest) = some stored →
        next.resourceId = stored.value.resourceId
  | .commitTerminal commit _ => EndsIdentities store commit commit.idempotency
  | .commitClosedTerminal commit _ => EndsIdentities store commit commit.idempotency
  | .commitTerminalCheckpoint publication =>
    (publication.commit.idempotency.isSome →
      EndsIdentities store publication.commit publication.commit.idempotency) ∧
    ∀ identity ∈ publication.startIdentity, ∀ row ∈ store.idempotency,
      row.value.resourceId = publication.commit.execution.executionId →
      row.value.identityKey = identity.identityKey
  | _ => True

section Agreement

variable {call : ExecutionCall} {row : IdempotencyRecord} {record next : ExecutionRecord}
  {store middle after : ExecutionStore} {events : List ExecutionEventAppend}

theorem Agrees.open_of_live (agrees : Agrees row record) (live : ¬TerminalStatus record.status) :
    row.status ≠ .completed ∧ row.status ≠ .failed ∧ row.status ≠ .cancelled := by
  refine ⟨fun status => live ?_, fun status => live ?_, fun status => live ?_⟩
  · exact .inl (agrees.completed.mp status)
  · exact .inr (.inl (agrees.failed.mp status))
  · exact .inr (.inr (agrees.cancelled.mp status))

theorem Agrees.of_live (opened : row.status ≠ .completed ∧ row.status ≠ .failed ∧
    row.status ≠ .cancelled) (live : ¬TerminalStatus record.status) : Agrees row record := by
  obtain ⟨completed, failed, cancelled⟩ := opened
  refine ⟨⟨fun status => absurd status completed, fun status => absurd (.inl status) live⟩,
    ⟨fun status => absurd status failed, fun status => absurd (.inr (.inl status)) live⟩,
    ⟨fun status => absurd status cancelled, fun status => absurd (.inr (.inr status)) live⟩,
    fun terminal => absurd terminal live, fun terminal => absurd terminal live⟩

theorem OpenStatus.unended (opened : OpenStatus status) :
    status ≠ .completed ∧ status ≠ .failed ∧ status ≠ .cancelled := by
  rcases opened with rfl | rfl | rfl <;> decide

theorem Agrees.live_of_open (agrees : Agrees row record) (opened : OpenStatus row.status) :
    ¬TerminalStatus record.status := by
  obtain ⟨completed, failed, cancelled⟩ := opened.unended
  rintro (status | status | status)
  · exact completed (agrees.completed.mpr status)
  · exact failed (agrees.failed.mpr status)
  · exact cancelled (agrees.cancelled.mpr status)

theorem Agrees.continues (agrees : Agrees row record) (continues : Continues record next) :
    Agrees row next := by
  cases continues with
  | inl same =>
    constructor
    · rw [same.status]
      exact agrees.completed
    · rw [same.status]
      exact agrees.failed
    · rw [same.status]
      exact agrees.cancelled
    · rw [same.status, same.result]
      exact agrees.resultDigest
    · rw [same.status, same.errorCode]
      exact agrees.errorCode
  | inr live => exact .of_live (agrees.open_of_live live.1) live.2.1

theorem Agrees.of_commit {commit : ExecutionTerminalCommit}
    (status : row.status = terminalIdempotencyStatus commit.execution.status)
    (digest : row.resultDigest = commit.result.output.map StoredOutput.digest)
    (errorCode : row.errorCode = commit.execution.errorCode)
    (ended : record.status = commit.execution.status) (result : record.result = some commit.result)
    (error : record.errorCode = commit.execution.errorCode) : Agrees row record := by
  have terminal := commit.terminal
  rw [← ended] at terminal status
  refine ⟨?_, ?_, ?_, fun _ => ?_, fun _ => errorCode.trans error.symm⟩
  · rw [status]
    rcases terminal with terminal | terminal | terminal <;> rw [terminal] <;> decide
  · rw [status]
    rcases terminal with terminal | terminal | terminal <;> rw [terminal] <;> decide
  · rw [status]
    rcases terminal with terminal | terminal | terminal <;> rw [terminal] <;> decide
  · rw [digest, result]
    rfl

theorem Agreed.kept (agreed : Agreed store) (changes : Changes call store after call.target events)
    (sets : SetsLive store call) (member : old ∈ store.idempotency)
    (unended : old.value.resourceId = call.target → ∀ commit, ¬call.Ends commit) :
    old.value.resourceKind = executionKind ∧
      ∃ record, after.record old.value.resourceId = some record ∧ Agrees old.value record := by
  obtain ⟨kind, record, present, agrees⟩ := agreed old member
  obtain ⟨next, stored, outcome⟩ := changes.outcome sets present
  refine ⟨kind, next, stored, ?_⟩
  cases outcome with
  | inl continues => exact agrees.continues continues
  | inr ends =>
    obtain ⟨target, commit, ends, _⟩ := ends
    exact absurd ends (unended target commit)

theorem Agreed.of_eq (agreed : Agreed store) (idempotency : after.idempotency = store.idempotency)
    (records : ∀ executionId, after.record executionId = store.record executionId) :
    Agreed after := by
  intro row member
  rw [records]
  exact agreed row (idempotency ▸ member)

theorem record_putExecution_self (row : Observed ExecutionRecord) :
    (store.putExecution row).record row.value.executionId = some row.value := by
  change (Function.update store.executions row.value.executionId (some row)
    row.value.executionId).map Observed.value = some row.value
  rw [Function.update_self]
  rfl

theorem record_putExecution_of_ne {row : Observed ExecutionRecord}
    (other : executionId ≠ row.value.executionId) :
    (store.putExecution row).record executionId = store.record executionId := by
  change (Function.update store.executions row.value.executionId (some row)
    executionId).map Observed.value = store.record executionId
  rw [Function.update_of_ne other]
  rfl

theorem Guarded.record_eq (guarded : Guarded store after) (executionId : String) :
    after.record executionId = store.record executionId :=
  (guarded.rows executionId).value_eq

end Agreement

namespace ExecutionRepository

variable {store after : ExecutionStore} {now : Time} {record : ExecutionRecord}

variable {reservation : ExecutionStartReservation}

theorem reserveStart_agreed (fresh : NewExecution reservation.execution)
    (coherent : Coherent store (.reserveStart reservation contextPublished))
    (sets : SetsLive store (.reserveStart reservation contextPublished)) (agreed : Agreed store)
    (done : reserveStart store reservation contextPublished = .ok (result, after)) :
    Agreed after := by
  have changes := reserveStart_changes fresh done
  obtain ⟨kind, replayed | created⟩ := reserveStart_ok done
  case inl =>
    obtain ⟨_, _, _, _, _, _, rfl⟩ := replayed
    exact agreed
  case inr =>
    obtain ⟨guarded, admitted, middle, _, guards, ⟨_, _, idempotency, _⟩, inserted, reserved,
      _⟩ := created
    obtain ⟨_, rows⟩ := insertIdempotency_ok reserved
    obtain ⟨_, put⟩ := insertExecution_ok inserted
    intro row member
    rw [rows, put] at member
    cases mem_append.mp member with
    | inl old =>
      have before : row ∈ store.idempotency := guards.idempotency ▸ idempotency ▸ old
      exact agreed.kept changes sets before fun _ _ => id
    | inr new =>
      cases mem_singleton.mp new
      refine ⟨kind, reservation.execution, ?_, ?_⟩
      · rw [coherent.2, rows, put]
        exact record_putExecution_self ⟨reservation.execution, 0⟩
      · apply Agrees.of_live
        · exact OpenStatus.unended (.inl coherent.1)
        · rw [fresh.status]
          decide

theorem claimStart_agreed (sets : SetsLive store (.claimStart claim)) (agreed : Agreed store)
    (done : claimStart store claim = .ok (record, after)) : Agreed after := by
  have changes := claimStart_changes done
  obtain ⟨row, middle, replaced, _, named, _, _, fields, started, replaces, inserted⟩ :=
    claimStart_ok done
  have facts := insertFacts_ok inserted
  obtain ⟨_, _, _, _, _, put⟩ := replaceChecked_ok replaces
  have rows : after.idempotency = middle.idempotency := by
    rw [facts, put]
    rfl
  have executionId : record.executionId = claim.executionId := by rw [fields]; exact named
  have present : after.record claim.executionId = some record := by
    rw [facts, put, ← executionId]
    exact record_putExecution_self ⟨record, _⟩
  have live : ¬TerminalStatus record.status := by
    have status : record.status = .started := by rw [fields]
    rw [status]
    decide
  intro identity member
  rw [rows] at member
  obtain ⟨_, appended | rewritten⟩ := startIdempotency_ok started
  case inl =>
    rw [appended.2] at member
    cases mem_append.mp member with
    | inl old => exact agreed.kept changes sets old fun _ _ => id
    | inr new =>
      cases mem_singleton.mp new
      exact ⟨rfl, record, present, .of_live (OpenStatus.unended (.inr (.inl rfl))) live⟩
  case inr =>
    obtain ⟨stored, _, _, kind, resource, _, written⟩ := rewritten
    rw [written] at member
    cases mem_rewriteAt member with
    | inl new =>
      subst new
      refine ⟨kind, record, ?_, .of_live ?_ live⟩
      · exact (congrArg after.record resource).trans present
      · exact OpenStatus.unended (.inr (.inl rfl))
    | inr old => exact agreed.kept changes sets old.1 fun _ _ => id

theorem compareAndSwapIdempotency_agreed {tenantId scope digest : String}
    {next : IdempotencyRecord} (coherent : Coherent store
      (.compareAndSwapIdempotency tenantId scope digest expectedStatus next))
    (agreed : Agreed store)
    (done : repo.compareAndSwapIdempotency store tenantId scope digest expectedStatus next =
      .ok (answer, after)) : Agreed after := by
  obtain ⟨opened, opens, resource⟩ := coherent
  obtain ⟨stored, found, status, kind, replaced⟩ := compareAndSwapIdempotency_ok done
  obtain ⟨_, _, _, rfl⟩ := replaceIdempotency_ok replaced
  obtain ⟨_, record, present, agrees⟩ := agreed stored (rowAt_mem found)
  intro row member
  cases mem_rewriteAt member with
  | inl new =>
    subst new
    rw [← status] at opened
    exact ⟨kind, record, (congrArg store.record (resource stored found)).trans present,
      .of_live opens.unended (agrees.live_of_open opened)⟩
  | inr old => exact agreed row old.1

variable {commit : ExecutionTerminalCommit}

theorem insertPendingTurn_agreed {auditEvents : List ExecutionEventAppend}
    (turn : PendingTurn commit)
    (sets : SetsLive store (.insertPendingTurn reservation commit auditEvents))
    (agreed : Agreed store)
    (done : insertPendingTurn store reservation commit auditEvents now = .ok (record, after)) :
    Agreed after := by
  have changes := insertPendingTurn_changes turn done
  obtain ⟨middle, reserved, sameId, kind, resource, fields, inserted, reserves, facts⟩ :=
    insertPendingTurn_ok done
  have appended := insertFacts_ok facts
  obtain ⟨_, rows⟩ := insertIdempotency_ok reserves
  obtain ⟨_, put⟩ := insertExecution_ok inserted
  have named : record.executionId = reservation.execution.executionId :=
    (congrArg ExecutionFields.executionId fields).trans sameId
  intro row member
  rw [appended, rows, put] at member
  cases mem_append.mp member with
  | inl old => exact agreed.kept changes sets old fun _ _ => id
  | inr new =>
    cases mem_singleton.mp new
    refine ⟨kind, record, ?_, ?_⟩
    · rw [resource, ← named, appended, rows, put]
      exact record_putExecution_self ⟨record, 0⟩
    · exact Agrees.of_commit rfl rfl rfl (by rw [fields]) (by rw [fields]) (by rw [fields])

theorem terminalIdempotencyReplacement_ok
    (done : terminalIdempotencyReplacement store commit now (some update) = .ok replacement) :
    ∃ stored, store.idempotencyAt (update.scope, update.idempotencyKeyDigest) = some stored ∧
      stored.value.resourceKind = executionKind ∧
      stored.value.resourceId = commit.execution.executionId ∧
      stored.value.status = update.expectedStatus ∧
      replacement = some ({ stored.value with
        status := update.nextStatus
        requestDigest := update.requestDigest
        resultDigest := update.resultDigest
        errorCode := update.errorCode
        updatedAt := now }, stored.storageRevision) := by
  simp only [terminalIdempotencyReplacement, bind_eq_ok, orRaise_eq_ok, refuse_eq_ok, pure_eq_ok,
    not_or, not_not] at done
  obtain ⟨stored, found, _, ⟨kind, resource, _⟩, _, status, rfl⟩ := done
  exact ⟨stored, found, kind, resource, status, rfl⟩

theorem commitTerminal_agreed {pendingEvents : List ExecutionEventAppend} (agreed : Agreed store)
    (ends : EndsIdentities store commit commit.idempotency)
    (done : commitTerminal store commit pendingEvents now = .ok (record, after)) :
    Agreed after := by
  obtain ⟨row, idempotency, operation, middle, rewritten, appended, _, _, _, _, _, _, ended, _,
    fields, replaced, rewrites, inserted, rfl⟩ := commitTerminal_ok done
  obtain ⟨_, _, _, _, _, put⟩ := replaceChecked_ok replaced
  have facts := insertFacts_ok inserted
  have named : record.executionId = commit.execution.executionId := by rw [fields]
  have executions : appended.executions = middle.executions := by
    rw [facts, replaceTerminalIdempotency_ok rewrites]
  have rows : appended.idempotency = rewritten.idempotency := by rw [facts]
  rw [replaceTerminalOperation_eq]
  have present : (appended.executions commit.execution.executionId).map Observed.value =
      some record := by
    rw [executions, put, ← named]
    exact record_putExecution_self ⟨record, _⟩
  have others : ∀ executionId, executionId ≠ commit.execution.executionId →
      (appended.executions executionId).map Observed.value = store.record executionId := by
    intro executionId other
    rw [executions, put]
    exact record_putExecution_of_ne (named ▸ other)
  have kept : ∀ old ∈ store.idempotency, old.value.resourceId ≠ commit.execution.executionId →
      old.value.resourceKind = executionKind ∧ ∃ record,
        (appended.executions old.value.resourceId).map Observed.value = some record ∧
          Agrees old.value record := by
    intro old member other
    rw [others _ other]
    exact agreed old member
  intro identity member
  change identity ∈ appended.idempotency at member
  rw [rows] at member
  cases given : commit.idempotency with
  | none =>
    rw [given] at ended ends
    cases ended
    cases rewrites
    have old : identity ∈ store.idempotency := by
      rw [put] at member
      exact member
    refine kept identity old fun naming => ?_
    obtain ⟨_, absent, _⟩ := ends identity old naming
    cases absent
  | some update =>
    rw [given] at ended ends
    obtain ⟨stored, found, kind, resource, _, rfl⟩ := terminalIdempotencyReplacement_ok ended
    obtain ⟨_, same, ending⟩ := ends stored (rowAt_mem found) resource
    cases same
    obtain ⟨_, _, _, rewriting⟩ := replaceIdempotency_ok rewrites
    rw [rewriting, put] at member
    cases mem_rewriteAt member with
    | inl new =>
      subst new
      refine ⟨kind, record, ?_, ?_⟩
      · exact (congrArg (fun key => (appended.executions key).map _) resource).trans present
      · exact Agrees.of_commit ending.nextStatus ending.resultDigest ending.errorCode
          (by rw [fields]) (by rw [fields]) (by rw [fields])
    | inr old =>
      refine kept identity old.1 fun naming => old.2 ?_
      obtain ⟨_, same, ending⟩ := ends identity old.1 naming
      cases same
      exact ending.identity.trans (rowAt_key found).symm

theorem mergeHolds_idempotency (done : mergeHolds store commit expectedExecution = .ok merged) :
    merged.idempotency = commit.idempotency := by
  cases expectedExecution with
  | none =>
    cases done
    rfl
  | some expected =>
    simp only [mergeHolds, bind_eq_ok, orRaise_eq_ok, refuse_eq_ok, pure_eq_ok] at done
    obtain ⟨_, _, _, _, replaced, replaces, rfl⟩ := done
    obtain ⟨_, _, rfl, _⟩ := replaceExecution_ok replaces
    rfl

theorem head?_of_mem {records : List IdempotencyRecord} (member : identity ∈ records)
    (single : ¬1 < records.length) : records.head? = some
    identity := by
  cases records with
  | nil => cases member
  | cons head tail =>
    cases tail with
    | nil =>
      cases mem_singleton.mp member
      rfl
    | cons => exact absurd (Nat.lt_add_left _ Nat.one_lt_two) single

theorem terminalIdempotency_ends
    {startIdentity : Option IdempotencyRecord} {idempotency : Option IdempotencyTerminalUpdate}
    (agreed : Agreed store) (started : ∀ identity ∈ startIdentity, ∀ row ∈ store.idempotency,
      row.value.resourceId = commit.execution.executionId →
      row.value.identityKey = identity.identityKey)
    (done : terminalIdempotency store commit startIdentity = .ok idempotency) :
    EndsIdentities store commit idempotency := by
  intro row member resource
  unfold terminalIdempotency at done
  split at done
  case h_1 identity =>
    simp only [bind_eq_ok, refuse_eq_ok, pure_eq_ok, Except.ok.injEq] at done
    obtain ⟨_, _, _, rfl, rfl⟩ := done
    exact ⟨_, rfl, started identity rfl row member resource, rfl, rfl, rfl⟩
  case h_2 =>
    simp only [bind_eq_ok, refuse_eq_ok, pure_eq_ok, Except.ok.injEq] at done
    obtain ⟨_, single, _, rfl, rfl⟩ := done
    have named : row.value ∈ store.idempotencyByResource commit.execution.executionId :=
      mem_filter.mpr ⟨mem_map_of_mem member,
        decide_eq_true ⟨(agreed row member).1, resource⟩⟩
    rw [head?_of_mem named single]
    exact ⟨_, rfl, rfl, rfl, rfl, rfl⟩

theorem commitTerminalCheckpoint_agreed
    (promised : EndsSnapshot store publication.commit publication.expectedExecution)
    (coherent : Coherent store (.commitTerminalCheckpoint publication)) (agreed : Agreed store)
    (done : commitTerminalCheckpoint store publication now = .ok (record, after)) :
    Agreed after := by
  obtain ⟨guarded, sealedStore, effective, guarding, seals, same, _,
    ⟨sealed, idempotency, _, effects⟩, commits⟩ := commitTerminalCheckpoint_ok promised done
  have rows : sealedStore.idempotency = store.idempotency := by
    rw [seals]
    exact guarding.idempotency
  have known : Agreed guarded := agreed.of_eq guarding.idempotency guarding.record_eq
  refine commitTerminal_agreed (known.of_eq (by rw [seals]) fun _ => by rw [seals]; rfl) ?_ commits
  obtain ⟨merged, merges, frame, computed | given⟩ := effectiveTerminalCommit_ok effects
  case inl =>
    have executionId : merged.execution.executionId = publication.commit.execution.executionId := by
      rw [← same.executionId, frame]
    have ends := terminalIdempotency_ends known
      (fun identity started row member resource => coherent.2 identity started row
        (guarding.idempotency ▸ member) (resource.trans executionId)) computed.2
    intro row member resource
    rw [rows, ← guarding.idempotency] at member
    obtain ⟨update, present, ending⟩ := ends row member (by rw [resource, frame])
    refine ⟨update, present, ending.identity, ?_, ?_, ?_⟩
    · rw [ending.nextStatus, frame]
    · rw [ending.resultDigest, frame]
    · rw [ending.errorCode, frame]
  case inr =>
    have sameUpdate : effective.idempotency = publication.commit.idempotency :=
      given.2.trans ((mergeHolds_idempotency merges).trans idempotency)
    rw [given.2.symm.trans sameUpdate] at given
    rw [sameUpdate]
    intro row member resource
    obtain ⟨update, present, ending⟩ := coherent.1 given.1 row (rows ▸ member)
      (resource.trans same.executionId)
    refine ⟨update, present, ending.identity, ?_, ?_, ?_⟩
    · rw [ending.nextStatus, same.status]
    · rw [ending.resultDigest, same.result]
    · rw [ending.errorCode, same.errorCode]

end ExecutionRepository

end Linktools.Execution
