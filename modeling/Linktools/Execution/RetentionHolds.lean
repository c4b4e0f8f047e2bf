import Linktools.Execution.IdempotencyAgreement

namespace Linktools.Execution

open Linktools.Core Library ExecutionRepository

/-- A call that sets no status of an ended execution, and writes what agrees with it. -/
def Settling (store : ExecutionStore) (call : ExecutionCall) : Prop :=
  SetsLive store call ∧ Coherent store call

def settlingMachine (repo : ExecutionRepository) :
    Machine ExecutionSystem (ExecutionCall × Time) :=
  (genuineMachine repo).restrict fun system label => Settling system.store label.1

def SealsKept (store after : ExecutionStore) : Prop :=
  ∀ executionId, ∀ record ∈ store.record executionId, TerminalStatus record.status →
    after.seals executionId = store.seals executionId

def OutcomesKept (store after : ExecutionStore) : Prop :=
  ∀ executionId, ∀ record ∈ store.record executionId, TerminalStatus record.status →
    (∃ later ∈ after.record executionId, SameOutcome record later) ∧
      after.seals executionId = store.seals executionId

namespace ExecutionRepository

variable {store after : ExecutionStore} {record : ExecutionRecord} {now : Time}

theorem commitTerminal_seals
    (done : commitTerminal store commit pendingEvents now = .ok (record, after)) :
    after.seals = store.seals := by
  obtain ⟨_, _, _, _, _, _, _, _, _, _, _, _, _, _, _, replaced, rewrites, inserted, rfl⟩ :=
    commitTerminal_ok done
  obtain ⟨_, _, _, _, _, put⟩ := ExecutionStore.replaceChecked_ok replaced
  rw [replaceTerminalOperation_eq, ExecutionStore.insertFacts_ok inserted,
    replaceTerminalIdempotency_ok rewrites, put]
  rfl

theorem commitTerminalCheckpoint_seals
    (done : commitTerminalCheckpoint store publication now = .ok (record, after)) :
    SealsKept store after := by
  intro executionId current present terminal
  simp only [commitTerminalCheckpoint, bind_eq_ok, Prod.exists] at done
  obtain ⟨sealed, historySeal, sealing, done⟩ := done
  split at done
  case isTrue =>
    simp only [bind_eq_ok, commitClosedTerminal] at done
    obtain ⟨_, _, _, _, commits⟩ := done
    rw [commitTerminal_seals commits]
  case isFalse =>
    simp only [bind_eq_ok] at done
    obtain ⟨guarded, guards, _, _, sealedStore, puts, commits⟩ := done
    obtain ⟨guarding, live⟩ := guardPublisher_ok guards
    rw [commitTerminal_seals commits, ← guarding.seals]
    refine (putTerminalSeal_ok puts).2 _ fun written member same => ?_
    obtain ⟨row, found, rfl⟩ := Option.map_eq_some_iff.mp present
    refine live row ?_ terminal
    rw [← found, same]
    apply congrArg store.executions
    simp only [sealTerminalCommit, bind_eq_ok, pair_eq_ok] at sealing
    obtain ⟨replaced, replaces, rfl, rfl⟩ := sealing
    obtain ⟨_, _, rfl, fields⟩ := replaceExecution_ok replaces
    have named := congrArg ExecutionFields.executionId fields
    split at member
    case isTrue =>
      cases member
      exact named
    case isFalse => cases member

end ExecutionRepository

section Steps

variable {repo : ExecutionRepository} {store after : ExecutionStore} {now : Time}
  {call : ExecutionCall}

section

variable (done : call.run repo store now = .ok after)
include done

section

variable (changes : Changes call store after call.target call.events)
include changes

theorem sealsKept_of_run : SealsKept store after := by
  cases call with
  | commitTerminalCheckpoint publication =>
    obtain ⟨_, done⟩ := committed_eq_ok.mp done
    exact commitTerminalCheckpoint_seals done
  | _ => exact fun executionId _ _ _ => congrFun (changes.tables.seals id) executionId

theorem outcomesKept_of_run (sets : SetsLive store call) :
    OutcomesKept store after := by
  intro executionId record present terminal
  obtain ⟨next, stored, outcome⟩ := changes.outcome sets present
  refine ⟨⟨next, stored, ?_⟩, sealsKept_of_run done changes executionId record present terminal⟩
  cases outcome with
  | inl continues => exact continues.same_of_terminal terminal
  | inr ends =>
    obtain ⟨_, _, _, live, _⟩ := ends
    exact absurd terminal live

end

end

theorem agreed_of_run (promised : Promised store call) (settling : Settling store call)
    (agreed : Agreed store) (done : call.run repo store now = .ok after) : Agreed after := by
  have changes := run_changes promised done
  obtain ⟨sets, coherent⟩ := settling
  cases call with
  | reserveStart =>
    obtain ⟨_, done⟩ := committed_eq_ok.mp done
    exact reserveStart_agreed promised coherent sets agreed done
  | claimStart claim =>
    obtain ⟨_, done⟩ := committed_eq_ok.mp done
    exact claimStart_agreed sets agreed done
  | compareAndSwapIdempotency =>
    obtain ⟨_, done⟩ := committed_eq_ok.mp done
    exact compareAndSwapIdempotency_agreed coherent agreed done
  | commitTerminal =>
    obtain ⟨_, done⟩ := committed_eq_ok.mp done
    exact commitTerminal_agreed agreed coherent done
  | commitClosedTerminal =>
    obtain ⟨_, done⟩ := committed_eq_ok.mp done
    simp only [commitClosedTerminal, bind_eq_ok] at done
    obtain ⟨_, _, done⟩ := done
    exact commitTerminal_agreed agreed coherent done
  | commitTerminalCheckpoint publication =>
    obtain ⟨_, done⟩ := committed_eq_ok.mp done
    exact commitTerminalCheckpoint_agreed promised coherent agreed done
  | insertPendingTurn =>
    obtain ⟨_, done⟩ := committed_eq_ok.mp done
    exact insertPendingTurn_agreed promised sets agreed done
  | _ =>
    intro row member
    have same := changes.tables.idempotency id
    exact agreed.kept changes sets (same ▸ member) fun _ _ => id

end Steps

section Runs

variable {repo : ExecutionRepository} {system last : ExecutionSystem}
  {labels : List (ExecutionCall × Time)}

section

variable (reachable : (settlingMachine repo).Reachable system)
include reachable

theorem genuine_of_settling : (genuineMachine repo).Reachable system := by
  obtain ⟨start, labels, initial, run⟩ := reachable
  exact ⟨start, labels, initial, run.of_restrict⟩

theorem settling_respond (genuine : system.Genuine call) (settling : Settling system.store call) :
    (settlingMachine repo).Reachable (system.respond repo now call) := by
  have step : (settlingMachine repo).step system (call, now)
      (system.respond repo now call) := ⟨⟨rfl, genuine⟩, settling⟩
  exact reachable.step step

theorem settled_of_reachable :
    (∀ executionId, ∀ record ∈ system.store.record executionId, Settled record) ∧
      Agreed system.store := by
  apply reachable.invariant
  · rintro _ rfl
    refine ⟨?_, ?_⟩
    · rintro _ _ ⟨⟩
    · rintro _ ⟨⟩
  · intro first label last reached invariant step
    obtain ⟨settled, agreed⟩ := invariant
    obtain ⟨⟨stepped, genuine⟩, settling⟩ := step
    have genuinely := genuine_of_settling reached
    have promised := (ExecutionSystem.recorded_of_reachable genuinely).promised genuine
    rw [stepped]
    cases ExecutionSystem.respond_changes genuinely genuine label.2 with
    | inl raises =>
      obtain ⟨_, _, same⟩ := raises
      rw [same]
      exact ⟨settled, agreed⟩
    | inr commits =>
      obtain ⟨after, done, same, changes⟩ := commits
      rw [same]
      exact ⟨changes.settled settling.1 settled, agreed_of_run promised settling agreed done⟩

theorem outcomesKept_of_run_settling
    (run : Machine.Run (settlingMachine repo) system labels last) :
    OutcomesKept system.store last.store := by
  apply run.relates ?_ ?_ ?_ reachable
  · exact fun _ _ record present _ => ⟨⟨record, present, .refl⟩, rfl⟩
  · intro first middle last left right executionId record present terminal
    obtain ⟨⟨between, kept, same⟩, sealed⟩ := left executionId record present terminal
    obtain ⟨⟨later, stored, further⟩, still⟩ :=
      right executionId between kept (same.status ▸ terminal)
    exact ⟨⟨later, stored, same.trans further⟩, still.trans sealed⟩
  · intro first label last reached step
    obtain ⟨⟨stepped, genuine⟩, settling⟩ := step
    rw [stepped]
    cases ExecutionSystem.respond_changes (genuine_of_settling reached) genuine label.2 with
    | inl raises =>
      obtain ⟨_, _, same⟩ := raises
      rw [same]
      exact fun _ record present _ => ⟨⟨record, present, .refl⟩, rfl⟩
    | inr commits =>
      obtain ⟨after, done, same, changes⟩ := commits
      rw [same]
      exact outcomesKept_of_run done changes settling.1

end

/-- In runs whose calls settle what they write, every record has a result exactly if it has
ended and an output exactly if it has succeeded, every idempotency record agrees with its
execution, and an execution that has ended stays as it has ended. -/
theorem outcomes_are_final_and_agree (reachable : (settlingMachine repo).Reachable system) :
    (∀ executionId, ∀ record ∈ system.store.record executionId, Settled record) ∧
    Agreed system.store ∧
    ∀ labels last, Machine.Run (settlingMachine repo) system labels last →
      OutcomesKept system.store last.store :=
  ⟨(settled_of_reachable reachable).1, (settled_of_reachable reachable).2,
    fun _ _ run => outcomesKept_of_run_settling reachable run⟩

end Runs

def sampleIdentity : IdempotencyRecord :=
  ⟨"s", "k", "d", executionKind, "e", .reserved, none, none, 0, 0⟩

def sampleReserved : ExecutionSystem :=
  ({} : ExecutionSystem).respond sampleRepository 0
    (.reserveStart ⟨sampleExecution, sampleIdentity, none, none⟩ none)

def sampleStarted : ExecutionSystem :=
  sampleReserved.respond sampleRepository 1 (.claimStart ⟨"e", 0, 0, "s", "k", "d", 1⟩)

def sampleCancelRequested : ExecutionSystem :=
  sampleStarted.respond sampleRepository 2 (.requestCancel ⟨"e", 1, 1, "o", 2⟩ none [] none)

def sampleCancelling : ExecutionRecord where
  toExecutionFields := { sampleExecution.toExecutionFields with
    status := .cancelling
    revision := 2
    eventSeq := 2
    updatedAt := 2
    startedAt := some 1
    recovery := (sampleStarted.store.executions "e").bind fun row => row.value.recovery }
  checked := rfl

def sampleCancelled : ExecutionRecord where
  toExecutionFields := { sampleCancelling.toExecutionFields with
    status := .cancelled
    errorCode := some "EXECUTION_CANCELLED"
    revision := 3
    eventSeq := 3
    updatedAt := 3 }
  checked := rfl

/-- The publication of the cancelled execution with the update that its caller gives. -/
def samplePublication (idempotency : Option IdempotencyTerminalUpdate) : TerminalPublication where
  commit := {
    expectedRevision := 2
    expectedEventSeq := 2
    execution := sampleCancelled
    result := ⟨none, ""⟩
    terminalEventType := .executionCancelled
    terminalEventPayload := []
    idempotency
    terminal := by decide
    outputs := by decide
    failed := by decide
    produced := by rintro _ ⟨⟩ }

def sampleEnded (idempotency : Option IdempotencyTerminalUpdate) : ExecutionSystem :=
  sampleCancelRequested.respond sampleRepository 3
    (.commitTerminalCheckpoint (samplePublication idempotency))

theorem sampleCancelRequested_row :
    sampleCancelRequested.store.executions "e" = some ⟨sampleCancelling, 2⟩ := rfl

theorem sampleCancelled_terminal : TerminalRecord sampleCancelling sampleCancelled where
  fields := rfl
  handoff := by decide

theorem samplePublication_genuine (idempotency : Option IdempotencyTerminalUpdate) :
    sampleCancelRequested.Genuine (.commitTerminalCheckpoint (samplePublication idempotency)) := by
  have read : sampleCancelRequested.Witnessed ⟨sampleCancelling, 2⟩ :=
    ExecutionSystem.witnessed_of_present sampleCancelRequested_row rfl
  have unmerged : ∀ expected ∈ (samplePublication idempotency).expectedExecution,
      expected = sampleCancelling := by
    rintro _ ⟨⟩
  exact ⟨⟨sampleCancelling, 2⟩, read, rfl, sampleCancelled_terminal, unmerged⟩

theorem sampleStarted_settling : (settlingMachine sampleRepository).Reachable sampleStarted := by
  have reserved : (settlingMachine sampleRepository).Reachable sampleReserved :=
    settling_respond (.of_initial rfl) sampleExecution_new
      ⟨.of_silent (fun _ => id) (fun _ => id), rfl, rfl⟩
  exact settling_respond reserved trivial ⟨.of_silent (fun _ => id) (fun _ => id), trivial⟩

theorem sampleCancelRequested_settling :
    (settlingMachine sampleRepository).Reachable sampleCancelRequested := by
  refine settling_respond sampleStarted_settling trivial ⟨⟨fun row found _ => ?_, ?_⟩, trivial⟩
  · have live : ∀ record ∈ sampleStarted.store.record "e", ¬TerminalStatus record.status := by
      decide +kernel
    exact live row.value (congrArg (Option.map Observed.value) found)
  · rintro _ rfl
    decide

theorem sampleEnded_settling : (settlingMachine sampleRepository).Reachable (sampleEnded none) := by
  refine settling_respond sampleCancelRequested_settling (samplePublication_genuine none)
    ⟨⟨fun row found _ => ?_, nofun⟩, nofun, ?_⟩
  · cases sampleCancelRequested_row.symm.trans found
    decide
  · rintro _ ⟨⟩

theorem sampleEnded_final : (settlingMachine sampleRepository).Reachable (sampleEnded none) ∧
    (sampleEnded none).store.idempotency.map (fun row => (row.value.status, row.value.errorCode)) =
      [(.cancelled, some "EXECUTION_CANCELLED")] ∧ Agreed (sampleEnded none).store :=
  ⟨sampleEnded_settling, by decide +kernel, (outcomes_are_final_and_agree sampleEnded_settling).2.1⟩

/-- The update that the management command gives: it has no error code. -/
def sampleGiven : IdempotencyTerminalUpdate :=
  ⟨"s", "k", .started, .cancelled, "d", none, none⟩

def sampleReopened : ExecutionSystem :=
  (sampleEnded none).respond sampleRepository 4
    (.commitCancelCheckpoint ⟨"e", 3, 3, "p", 4⟩ .started [] none)

/-- The update that the caller gives may disagree with the execution, and a cancellation
without a producer reopens an execution that has ended. -/
theorem outcomes_can_disagree_and_change :
    ¬(∀ repo system, (genuineMachine repo).Reachable system → Agreed system.store) ∧
    ¬(∀ repo system labels last, (genuineMachine repo).Reachable system →
      Machine.Run (genuineMachine repo) system labels last →
      OutcomesKept system.store last.store) := by
  constructor
  · intro agreed
    have reached : (genuineMachine sampleRepository).Reachable (sampleEnded (some sampleGiven)) :=
      ExecutionSystem.reachable_respond (genuine_of_settling sampleCancelRequested_settling)
        (samplePublication_genuine (some sampleGiven))
    have rows : (sampleEnded (some sampleGiven)).store.idempotency =
        [⟨{ sampleIdentity with status := .cancelled, updatedAt := 3 }, 2⟩] := by
      decide +kernel
    have errors : ((sampleEnded (some sampleGiven)).store.record "e").map
        (fun record => (record.status, record.errorCode)) =
          some (.cancelled, some "EXECUTION_CANCELLED") := by
      decide +kernel
    obtain ⟨_, record, present, agrees⟩ :=
      agreed _ _ reached _ (rows ▸ List.mem_singleton_self _)
    obtain ⟨other, found, same⟩ := Option.map_eq_some_iff.mp errors
    cases found.symm.trans present
    obtain ⟨status, errorCode⟩ := Prod.mk.inj same
    have disagree := agrees.errorCode (.inr (.inr status))
    rw [errorCode] at disagree
    cases disagree
  · intro kept
    have reached := genuine_of_settling sampleEnded_settling
    have step : (genuineMachine sampleRepository).step (sampleEnded none)
        (.commitCancelCheckpoint ⟨"e", 3, 3, "p", 4⟩ .started [] none, 4) sampleReopened :=
      ⟨rfl, trivial⟩
    have before : ((sampleEnded none).store.record "e").map (·.status) = some .cancelled := by
      decide +kernel
    have after : (sampleReopened.store.record "e").map (·.status) = some .cancelling := by
      decide +kernel
    obtain ⟨record, present, cancelled⟩ := Option.map_eq_some_iff.mp before
    obtain ⟨⟨later, stored, same⟩, _⟩ := kept _ _ _ _ reached (.single step) "e" record present
      (.inr (.inr cancelled))
    rw [Option.mem_def.mp stored] at after
    have reopened := same.status.symm.trans (Option.some.inj after)
    cases cancelled.symm.trans reopened

structure Unretained (record : ExecutionRecord) : Prop where
  terminal : TerminalStatus record.status
  unheld : record.dependencyHoldIds = []
  settled : record.recoveryState ≠ some .handoff

def LeavesEnded (store : ExecutionStore) (call : ExecutionCall) : Prop :=
  ∀ status, call.Moves status → ∀ row, store.executions call.target = some row →
    call.Expects row.value → ¬TerminalStatus row.value.status

def retentionMachine (repo : ExecutionRepository) :
    Machine ExecutionSystem (ExecutionCall × Time) :=
  (genuineMachine repo).restrict fun system label => LeavesEnded system.store label.1

def RetentionClosed (store : ExecutionStore) : Prop :=
  ∀ executionId, ∀ record ∈ store.record executionId, record.retentionClosed = true →
    Unretained record

def StaysClosed (store after : ExecutionStore) : Prop :=
  ∀ executionId, ∀ record ∈ store.record executionId, record.retentionClosed = true →
    ∃ later ∈ after.record executionId, later.retentionClosed = true

section Records

variable {call : ExecutionCall}

theorem Unretained.of_fields (unretained : Unretained current)
    (same : next.toExecutionFields = fields) (status : fields.status = current.status)
    (recovery : fields.recovery = current.recovery) (holds : fields.dependencyHoldIds = []) :
    Unretained next := by
  subst same
  refine ⟨status ▸ unretained.terminal, holds, ?_⟩
  have state : next.recoveryState = current.recoveryState := by
    unfold ExecutionFields.recoveryState
    rw [recovery, status]
  rw [state]
  exact unretained.settled

theorem Update.retentionClosed_mono (update : Update call current next events)
    (closed : current.retentionClosed = true) : next.retentionClosed = true := by
  cases update with
  | started _ _ fields => rw [fields, closed]
  | claimed _ _ _ _ _ _ _ fields => rw [fields, closed]
  | transitioned _ _ _ fields => rw [fields, closed]
  | cancelRecorded _ _ _ fields => rw [fields, closed]
  | recovered _ _ _ _ _ fields => rw [fields, closed]
  | appended _ _ _ fields => rw [fields, closed]
  | held _ _ _ fields => rw [fields, closed]
  | released _ _ fields => rw [fields, closed]
  | closed _ _ _ _ fields => rw [fields]
  | swapped update => rw [update.fields, closed]
  | ended _ _ _ _ _ fields => rw [fields, closed]

theorem open_of_live (retained : current.retentionClosed = true → Unretained current)
    (live : ¬TerminalStatus current.status) : current.retentionClosed ≠ true :=
  fun closed => live (retained closed).terminal

theorem SnapshotUpdate.unretained (update : SnapshotUpdate current next)
    (unretained : Unretained current) : Unretained next := by
  have fields := update.fields
  have terminal := unretained.terminal
  have status : next.status = current.status := by
    rcases update.status with same | ⟨live, _⟩ | ⟨live, _⟩
    · exact same
    · rw [live] at terminal
      exact absurd terminal (by decide)
    · rw [live] at terminal
      exact absurd terminal (by decide)
  refine ⟨status ▸ terminal, ?_, fun handoff => ?_⟩
  · rw [fields]
    exact unretained.unheld
  · exact unretained.settled (update.handoff terminal handoff)

theorem Update.unretained (update : Update call current next events)
    (live : ∀ status, call.Moves status → call.Expects current → ¬TerminalStatus current.status)
    (retained : current.retentionClosed = true → Unretained current)
    (closed : next.retentionClosed = true) : Unretained next := by
  cases update with
  | started _ pending fields =>
    rw [fields] at closed
    refine absurd closed (open_of_live retained ?_)
    rw [pending]
    decide
  | claimed _ _ _ _ _ running _ fields =>
    rw [fields] at closed
    refine absurd closed (open_of_live retained ?_)
    rcases running with status | status <;> rw [status] <;> decide
  | transitioned _ expects moves fields =>
    rw [fields] at closed
    exact absurd closed (open_of_live retained (live _ moves expects))
  | recovered _ _ expects moves _ fields =>
    rw [fields] at closed
    exact absurd closed (open_of_live retained (live _ moves expects))
  | cancelRecorded _ _ waiting fields =>
    rw [fields] at closed
    refine absurd closed (open_of_live retained ?_)
    rw [waiting]
    decide
  | appended _ _ _ fields =>
    have before : current.retentionClosed = true := by rw [← closed, fields]
    exact (retained before).of_fields fields rfl rfl (retained before).unheld
  | held _ _ unclosed fields =>
    rw [fields] at closed
    exact absurd closed (by rw [unclosed]; decide)
  | released _ _ fields =>
    have before : current.retentionClosed = true := by rw [← closed, fields]
    refine (retained before).of_fields fields rfl rfl ?_
    change current.dependencyHoldIds.filter _ = []
    rw [(retained before).unheld]
    rfl
  | closed _ terminal unheld settled fields =>
    exact Unretained.of_fields ⟨terminal, unheld, settled⟩ fields rfl rfl unheld
  | swapped update =>
    have before : current.retentionClosed = true := by rw [← closed, update.fields]
    exact update.unretained (retained before)
  | ended commit _ _ _ handoff fields =>
    have before : current.retentionClosed = true := by rw [← closed, fields]
    have status : next.status = commit.execution.status := by rw [fields]
    refine ⟨status ▸ commit.terminal, ?_, fun held => (retained before).settled (handoff held)⟩
    rw [fields]
    exact (retained before).unheld

theorem Admission.unretained (admission : Admission current events)
    (closed : current.retentionClosed = true) : Unretained current := by
  cases admission with
  | reserved fresh => cases fresh.retentionClosed.symm.trans closed
  | turn _ commit _ turn fields =>
    have status : current.status = commit.execution.status := by rw [fields]
    refine ⟨status ▸ commit.terminal, ?_, ?_⟩
    · rw [fields]
      exact turn.unheld
    · have state : current.recoveryState = commit.execution.recoveryState := by
        rw [fields]
        rfl
      rw [state]
      exact turn.settled

end Records

section Changes

variable {call : ExecutionCall} {store after : ExecutionStore}

section

variable (changes : Changes call store after call.target events)
include changes

theorem Changes.staysClosed :
    StaysClosed store after := by
  intro executionId record present closed
  by_cases other : executionId = call.target
  case neg => exact ⟨record, (changes.others executionId other).value_eq.trans present, closed⟩
  case pos =>
    subst other
    obtain ⟨row, found, rfl⟩ := Option.map_eq_some_iff.mp present
    have change := changes.row
    rw [found] at change
    unfold ExecutionStore.record
    generalize after.executions call.target = stored at change
    cases change with
    | kept _ _ kept => exact ⟨row.value, kept.value_eq, closed⟩
    | updated _ next _ _ _ update => exact ⟨next, rfl, update.retentionClosed_mono closed⟩

theorem Changes.retentionClosed
    (leaves : LeavesEnded store call) (retained : RetentionClosed store) :
    RetentionClosed after := by
  intro executionId record present closed
  by_cases other : executionId = call.target
  case neg =>
    have before := (changes.others executionId other).value_eq.symm.trans present
    exact retained executionId record before closed
  case pos =>
    subst other
    obtain ⟨row, found, rfl⟩ := Option.map_eq_some_iff.mp present
    have change := changes.row
    rw [found] at change
    generalize before : store.executions call.target = old at change
    cases change with
    | kept _ _ kept =>
      have same : store.record call.target = some row.value := by
        unfold ExecutionStore.record
        rw [before, ← kept.value_eq]
        rfl
      exact retained _ _ same closed
    | inserted _ _ admission => exact admission.unretained closed
    | updated current _ _ _ _ update =>
      have known : store.record call.target = some current.value :=
        congrArg (Option.map Observed.value) before
      exact update.unretained (fun status moves expects => leaves status moves current
        before expects)
        (retained _ _ known) closed

end

end Changes

namespace ExecutionRepository

variable {repo : ExecutionRepository} {store after : ExecutionStore} {now : Time}
  {record : ExecutionRecord}

theorem commitTerminal_holds
    (promised : ∀ row, store.executions commit.execution.executionId = some row →
      row.value.revision = commit.expectedRevision → TerminalRecord row.value commit.execution)
    (done : commitTerminal store commit pendingEvents now = .ok (record, after)) :
    ∃ current, store.record commit.execution.executionId = some current ∧
      after.record commit.execution.executionId = some record ∧
      record.dependencyHoldIds = current.dependencyHoldIds := by
  obtain ⟨row, _, _, middle, _, _, found, _, revision, _, _, _, _, _, fields, replaced, rewrites,
    inserted, rfl⟩ := commitTerminal_ok done
  obtain ⟨_, _, _, _, _, put⟩ := ExecutionStore.replaceChecked_ok replaced
  have named : record.executionId = commit.execution.executionId := by rw [fields]
  have ending := (promised row found revision).fields
  refine ⟨row.value, congrArg (Option.map Observed.value) found, ?_, ?_⟩
  · rw [replaceTerminalOperation_eq, ExecutionStore.insertFacts_ok inserted,
      replaceTerminalIdempotency_ok rewrites, put, ← named]
    exact record_putExecution_self ⟨record, _⟩
  · rw [fields, ending]

theorem commitTerminalCheckpoint_holds
    (promised : EndsSnapshot store publication.commit publication.expectedExecution)
    (done : commitTerminalCheckpoint store publication now = .ok (record, after)) :
    ∃ current, store.record publication.commit.execution.executionId = some current ∧
      after.record publication.commit.execution.executionId = some record ∧
      record.dependencyHoldIds = current.dependencyHoldIds := by
  obtain ⟨guarded, sealedStore, effective, guarding, seals, same, ending, _, commits⟩ :=
    commitTerminalCheckpoint_ok promised done
  obtain ⟨current, before, later, holds⟩ := commitTerminal_holds
    (fun row found revision => (ending row found revision).1.record) commits
  rw [same.executionId] at before later
  refine ⟨current, ?_, later, holds⟩
  rw [← guarding.record_eq, ← before, seals]
  rfl

theorem acquireDependencyHold_closed {tenantId executionId holdId : String}
    (present : store.record executionId = some record) (closed : record.retentionClosed = true) :
    ∃ raised, repo.acquireDependencyHold store tenantId executionId holdId now =
      .error raised := by
  apply exists_error_of_not_ok
  rintro ⟨acquired, after⟩ done
  simp only [acquireDependencyHold, bind_eq_ok, refuse_eq_ok] at done
  obtain ⟨_, _, _, _, row, loaded, _, retained, _⟩ := done
  obtain ⟨found, _⟩ := ExecutionStore.loadExecution_eq_ok.mp loaded
  cases (congrArg (Option.map Observed.value) found).symm.trans present
  exact retained closed

end ExecutionRepository

def ExecutionCall.Publishes : ExecutionCall → Prop
  | .commitTerminal _ _ => True
  | .commitClosedTerminal _ _ => True
  | .commitTerminalCheckpoint _ => True
  | _ => False

def HoldsKept (executionId : String) (store after : ExecutionStore) : Prop :=
  ∀ record ∈ store.record executionId, ∃ later ∈ after.record executionId,
    later.dependencyHoldIds = record.dependencyHoldIds

theorem holdsKept_of_run (promised : Promised store call) (publishes : call.Publishes)
    (done : call.run repo store now = .ok after) : HoldsKept call.target store after := by
  intro record present
  cases call with
  | commitTerminal =>
    obtain ⟨_, done⟩ := committed_eq_ok.mp done
    obtain ⟨current, before, later, holds⟩ :=
      commitTerminal_holds (endsSnapshot_plain promised) done
    cases before.symm.trans present
    exact ⟨_, later, holds⟩
  | commitClosedTerminal =>
    obtain ⟨_, done⟩ := committed_eq_ok.mp done
    simp only [commitClosedTerminal, bind_eq_ok] at done
    obtain ⟨_, _, done⟩ := done
    obtain ⟨current, before, later, holds⟩ :=
      commitTerminal_holds (endsSnapshot_plain promised) done
    cases before.symm.trans present
    exact ⟨_, later, holds⟩
  | commitTerminalCheckpoint publication =>
    obtain ⟨_, done⟩ := committed_eq_ok.mp done
    obtain ⟨current, before, later, holds⟩ := commitTerminalCheckpoint_holds promised done
    cases before.symm.trans present
    exact ⟨_, later, holds⟩
  | _ => cases publishes

section Runs

variable {repo : ExecutionRepository} {system last : ExecutionSystem}
  {labels : List (ExecutionCall × Time)}

section

variable (reachable : (retentionMachine repo).Reachable system)
include reachable

theorem genuine_of_retention : (genuineMachine repo).Reachable system := by
  obtain ⟨start, labels, initial, run⟩ := reachable
  exact ⟨start, labels, initial, run.of_restrict⟩

theorem retentionClosed_of_reachable : RetentionClosed system.store := by
  apply reachable.invariant
  · rintro _ rfl _ _ ⟨⟩
  · intro first label last reached retained step
    obtain ⟨⟨stepped, genuine⟩, leaves⟩ := step
    rw [stepped]
    cases ExecutionSystem.respond_changes (genuine_of_retention reached) genuine label.2 with
    | inl raises =>
      obtain ⟨_, _, same⟩ := raises
      rw [same]
      exact retained
    | inr commits =>
      obtain ⟨after, _, same, changes⟩ := commits
      rw [same]
      exact changes.retentionClosed leaves retained

theorem staysClosed_of_run (run : Machine.Run (retentionMachine repo) system labels last) :
    StaysClosed system.store last.store := by
  apply run.relates ?_ ?_ ?_ reachable
  · exact fun _ _ record present closed => ⟨record, present, closed⟩
  · intro first middle last left right executionId record present closed
    obtain ⟨between, kept, still⟩ := left executionId record present closed
    exact right executionId between kept still
  · intro first label last reached step
    obtain ⟨⟨stepped, genuine⟩, _⟩ := step
    rw [stepped]
    cases ExecutionSystem.respond_changes (genuine_of_retention reached) genuine label.2 with
    | inl raises =>
      obtain ⟨_, _, same⟩ := raises
      rw [same]
      exact fun _ record present closed => ⟨record, present, closed⟩
    | inr commits =>
      obtain ⟨after, _, same, changes⟩ := commits
      rw [same]
      exact changes.staysClosed

end

/-- A closed execution has ended, has no holds and no prepared hand-off, and stays closed;
it is given no hold; and a terminal commit keeps the holds of its execution. -/
theorem closed_executions_are_unretained
    (reachable : (retentionMachine repo).Reachable system) : RetentionClosed system.store ∧
    (∀ labels last, Machine.Run (retentionMachine repo) system labels last →
      StaysClosed system.store last.store) ∧
    (∀ executionId, ∀ record ∈ system.store.record executionId, record.retentionClosed = true →
      ∀ tenantId holdId now, ∃ raised,
        (ExecutionCall.acquireDependencyHold tenantId executionId holdId).run repo
          system.store now = .error raised) ∧
    ∀ call now after, system.Genuine call → call.Publishes →
      call.run repo system.store now = .ok after →
      HoldsKept call.target system.store after := by
  refine ⟨retentionClosed_of_reachable reachable, fun _ _ run => staysClosed_of_run reachable run,
    ?_, ?_⟩
  · intro executionId record present closed tenantId holdId now
    obtain ⟨raised, refused⟩ := acquireDependencyHold_closed present closed
    exact ⟨raised, by rw [ExecutionCall.run, refused]; rfl⟩
  · intro call now after genuine publishes done
    have recorded := ExecutionSystem.recorded_of_reachable (genuine_of_retention reachable)
    exact holdsKept_of_run (recorded.promised genuine) publishes done

end Runs

/-- A hold acquired after the end keeps the execution open until it is released. -/
def sampleHeld : ExecutionSystem :=
  ((sampleEnded none).respond sampleRepository 4 (.acquireDependencyHold "t" "e" "h")).respond
    sampleRepository 5 (.closeRetention "t" "e" none)

def sampleClosed : ExecutionSystem :=
  (sampleHeld.respond sampleRepository 6 (.releaseDependencyHold "t" "e" "h")).respond
    sampleRepository 7 (.closeRetention "t" "e" none)

theorem sampleClosed_reachable : (retentionMachine sampleRepository).Reachable sampleClosed := by
  obtain ⟨start, labels, initial, run⟩ := sampleEnded_settling
  have ended : (retentionMachine sampleRepository).Reachable (sampleEnded none) :=
    ⟨start, labels, initial, run.restrict_mono fun _ _ settling status moves row found expects =>
      settling.1.1 row found expects⟩
  have closes (system : ExecutionSystem) (now : Time) : (retentionMachine sampleRepository).step
      system (.closeRetention "t" "e" none, now)
      (system.respond sampleRepository now (.closeRetention "t" "e" none)) :=
    ⟨⟨rfl, fun _ => nofun⟩, fun _ => False.elim⟩
  have acquired : (retentionMachine sampleRepository).step (sampleEnded none)
      (.acquireDependencyHold "t" "e" "h", 4) _ := ⟨⟨rfl, trivial⟩, fun _ => False.elim⟩
  have released : (retentionMachine sampleRepository).step sampleHeld
      (.releaseDependencyHold "t" "e" "h", 6) _ := ⟨⟨rfl, trivial⟩, fun _ => False.elim⟩
  exact (((ended.step acquired).step (closes _ 5)).step released).step (closes _ 7)

theorem sampleClosed_unretained :
    (sampleHeld.store.record "e").map (fun record =>
      (record.dependencyHoldIds, record.retentionClosed)) = some (["h"], false) ∧
    (sampleClosed.store.record "e").map (·.retentionClosed) = some true ∧
    RetentionClosed sampleClosed.store :=
  ⟨by decide +kernel, by decide +kernel, (closed_executions_are_unretained sampleClosed_reachable).1⟩

end Linktools.Execution
