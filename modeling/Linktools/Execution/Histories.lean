import Linktools.Execution.CallEffects

namespace Linktools.Execution

open Linktools.Core Library ExecutionRepository List

/-! Runs in which callers act on records they have read: every committed call raises the
revision of its record, so that a receipt of the stored revision is the stored record. -/

namespace ExecutionSystem

variable (system : ExecutionSystem)

/-- The caller has derived the next record from a snapshot it has read. -/
def SwapsWitnessed (executionId : String) (expectedRevision : Nat) (nextRecord : ExecutionRecord) :
    Prop :=
  ∃ snapshot, system.Witnessed snapshot ∧ snapshot.value.executionId = executionId ∧
    snapshot.value.revision = expectedRevision ∧ SnapshotUpdate snapshot.value nextRecord

/-- The caller has derived the terminal record from a snapshot it has read. -/
def EndsWitnessed (commit : ExecutionTerminalCommit) (expectedExecution : Option ExecutionRecord) :
    Prop :=
  ∃ snapshot, system.Witnessed snapshot ∧ snapshot.value.revision = commit.expectedRevision ∧
    TerminalRecord snapshot.value commit.execution ∧
    ∀ expected ∈ expectedExecution, expected = snapshot.value

/-- What the callers of the operations do: admissions are new, receipts and snapshots have
been read, and a pending turn is published by its producer. -/
def Genuine : ExecutionCall → Prop
  | .createExecution execution => NewExecution execution
  | .reserveStart reservation _ => NewExecution reservation.execution
  | .compareAndSwap _ executionId expectedRevision nextRecord =>
    system.SwapsWitnessed executionId expectedRevision nextRecord
  | .commitRecoveryHandoff checkpoint expectedRevision _ =>
    system.SwapsWitnessed checkpoint.executionId expectedRevision checkpoint
  | .commitBoundary observed nextRecord _ _ =>
    system.Witnessed observed ∧
      (nextRecord = observed.value ∨ SnapshotUpdate observed.value nextRecord)
  | .claimPreparedAgentRun _ _ _ _ _ _ _ observed => ∀ receipt ∈ observed, system.Witnessed receipt
  | .closeRetention _ _ observed => ∀ receipt ∈ observed, system.Witnessed receipt
  | .commitTerminal commit _ => system.EndsWitnessed commit none
  | .commitClosedTerminal commit _ => system.EndsWitnessed commit none
  | .commitTerminalCheckpoint publication =>
    system.EndsWitnessed publication.commit publication.expectedExecution
  | .insertPendingTurn _ commit _ => PendingTurn commit
  | _ => True

end ExecutionSystem

def genuineMachine (repo : ExecutionRepository) :
    Machine ExecutionSystem (ExecutionCall × Time) :=
  (executionMachine repo).restrict fun system label => system.Genuine label.1

section Updates

variable {call : ExecutionCall} {current next : ExecutionRecord}
  {events : List ExecutionEventAppend}

theorem Update.eventSeq_eq (update : Update call current next events) :
    next.eventSeq = current.eventSeq + events.length := by
  cases update with
  | transitioned _ _ _ fields => rw [fields, length_append, length_singleton]
  | ended _ _ _ _ _ fields =>
    rw [fields, length_append]
    rfl
  | swapped update =>
    rw [update.fields]
    rfl
  | claimed _ _ _ _ _ _ _ fields =>
    rw [fields]
    rfl
  | started _ _ fields => rw [fields, length_singleton]
  | cancelRecorded _ _ _ fields => rw [fields, length_singleton]
  | recovered _ _ _ _ _ fields => rw [fields]
  | appended _ _ _ fields => rw [fields]
  | held _ _ _ fields =>
    rw [fields]
    rfl
  | released _ _ fields =>
    rw [fields]
    rfl
  | closed _ _ _ _ fields =>
    rw [fields]
    rfl

theorem Update.revision_advances (update : Update call current next events) :
    current.revision < next.revision ∧ current.revision + events.length ≤ next.revision := by
  cases update with
  | transitioned transition _ _ fields =>
    have revision : next.revision =
        current.revision + (transition.pendingEvents.length + 1) := by rw [fields]
    simp only [revision, length_append, length_singleton]
    omega
  | ended _ pendingEvents _ _ _ fields =>
    have revision : next.revision = current.revision + pendingEvents.length + 1 := by
      rw [fields]
    simp only [revision, length_append, length_singleton]
    omega
  | swapped update =>
    have revision : next.revision = current.revision + 1 := by rw [update.fields]
    simp only [revision, length_nil]
    omega
  | claimed _ _ _ _ _ _ _ fields =>
    simp only [fields, length_nil]
    omega
  | started _ _ fields =>
    simp only [fields, length_singleton]
    omega
  | cancelRecorded _ _ _ fields =>
    simp only [fields, length_singleton]
    omega
  | recovered transition _ _ _ _ fields =>
    simp only [fields, RecoveryTransition.events, length_append, length_singleton]
    omega
  | appended _ _ nonempty fields =>
    have positive := length_pos_of_ne_nil nonempty
    simp only [fields]
    omega
  | held _ _ _ fields =>
    simp only [fields, length_nil]
    omega
  | released _ _ fields =>
    simp only [fields, length_nil]
    omega
  | closed _ _ _ _ fields =>
    simp only [fields, length_nil]
    omega

end Updates

def revisionOf (record : ExecutionRecord) : Nat := record.revision

namespace ExecutionStore

def Precedes (store after : ExecutionStore) : Prop :=
  ∀ executionId row, store.executions executionId = some row →
    ∃ later, after.executions executionId = some later ∧ Observed.Precedes revisionOf row later

variable {call : ExecutionCall} {store middle after : ExecutionStore} {target : String}
  {events : List ExecutionEventAppend}

theorem Precedes.trans (left : Precedes store middle) (right : Precedes middle after) :
    Precedes store after := by
  intro executionId row found
  obtain ⟨between, kept, first⟩ := left executionId row found
  obtain ⟨later, stored, second⟩ := right executionId between kept
  exact ⟨later, stored, first.trans second⟩

theorem Precedes.of_changes (changes : Changes call store after target events) :
    Precedes store after := by
  intro executionId row found
  have ofKept : ∀ {next}, Kept (some row) next →
      ∃ later, next = some later ∧ Observed.Precedes revisionOf row later := by
    intro next kept
    cases kept with
    | same => exact ⟨row, rfl, .refl⟩
    | guarded _ revision grows => exact ⟨_, rfl, .inr ⟨grows, .inl rfl⟩⟩
  by_cases other : executionId = target
  case pos =>
    subst other
    have change := changes.row
    rw [found] at change
    generalize after.executions executionId = next at change
    cases change with
    | kept _ _ kept => exact ofKept kept
    | updated _ next revision _ grows update =>
      exact ⟨_, rfl, .inr ⟨grows, .inr update.revision_advances.1⟩⟩
  case neg => exact ofKept (found ▸ changes.others executionId other)

end ExecutionStore

namespace ExecutionSystem

variable {repo : ExecutionRepository} {system : ExecutionSystem} {call : ExecutionCall}
  {now : Time}

def Recorded (system : ExecutionSystem) : Prop :=
  ∀ earlier ∈ system.past, earlier.Precedes system.store

theorem respond_cases (repo : ExecutionRepository) (system : ExecutionSystem)
    (now : Time) (call : ExecutionCall) :
    (∃ raised, call.run repo system.store now = .error raised ∧
      system.respond repo now call = system) ∨
    ∃ after, call.run repo system.store now = .ok after ∧
      system.respond repo now call = ⟨after, system.store :: system.past⟩ := by
  unfold respond
  cases call.run repo system.store now with
  | error raised => exact .inl ⟨raised, rfl, rfl⟩
  | ok after => exact .inr ⟨after, rfl, rfl⟩

variable {executionId : String} {row : Observed ExecutionRecord}

theorem witnessed_of_present (found : system.store.executions executionId = some row)
    (named : row.value.executionId = executionId) : system.Witnessed row :=
  ⟨system.store, mem_cons_self, named ▸ found⟩

section

variable (recorded : system.Recorded)
include recorded

theorem Recorded.present (witnessed : system.Witnessed row) :
    ∃ later, system.store.executions row.value.executionId = some later ∧
      Observed.Precedes revisionOf row later := by
  obtain ⟨earlier, member, found⟩ := witnessed
  cases mem_cons.mp member with
  | inl present => exact ⟨row, present ▸ found, .refl⟩
  | inr past => exact recorded earlier past row.value.executionId row found

theorem Recorded.faithful (witnessed : system.Witnessed receipt) :
    Faithful system.store receipt := by
  intro row found same
  obtain ⟨later, present, precedes⟩ := recorded.present witnessed
  cases found.symm.trans present
  exact (precedes.eq_of_storageRevision same.symm).symm

theorem Recorded.value_eq (witnessed : system.Witnessed snapshot)
    (found : system.store.executions snapshot.value.executionId = some row)
    (same : row.value.revision = snapshot.value.revision) : row.value = snapshot.value := by
  obtain ⟨later, present, precedes⟩ := recorded.present witnessed
  cases found.symm.trans present
  exact (precedes.value_eq_of_number same.symm).symm

theorem Recorded.updatesSnapshot
    (swaps : system.SwapsWitnessed executionId expectedRevision nextRecord) :
    UpdatesSnapshot system.store executionId expectedRevision nextRecord := by
  obtain ⟨snapshot, witnessed, rfl, rfl, update⟩ := swaps
  intro row found same
  exact recorded.value_eq witnessed found same ▸ update

theorem Recorded.endsSnapshot (ends : system.EndsWitnessed commit expectedExecution) :
    EndsSnapshot system.store commit expectedExecution := by
  obtain ⟨snapshot, witnessed, revision, ending, expected⟩ := ends
  refine ⟨snapshot.value, revision, ending, expected, fun row found same => ?_⟩
  have named : commit.execution.executionId = snapshot.value.executionId := by rw [ending.fields]
  exact recorded.value_eq witnessed (named ▸ found) same

theorem Recorded.promised (genuine : system.Genuine call) : Promised system.store call := by
  cases call with
  | createExecution execution => exact genuine
  | reserveStart => exact genuine
  | insertPendingTurn => exact genuine
  | compareAndSwap => exact recorded.updatesSnapshot genuine
  | commitRecoveryHandoff => exact recorded.updatesSnapshot genuine
  | commitBoundary => exact ⟨recorded.faithful genuine.1, genuine.2⟩
  | claimPreparedAgentRun => exact fun receipt member => recorded.faithful (genuine receipt member)
  | closeRetention => exact fun receipt member => recorded.faithful (genuine receipt member)
  | commitTerminal => exact recorded.endsSnapshot genuine
  | commitClosedTerminal => exact recorded.endsSnapshot genuine
  | commitTerminalCheckpoint publication => exact recorded.endsSnapshot genuine
  | _ => exact trivial

end

section

variable (reachable : (genuineMachine repo).Reachable system)
include reachable

theorem recorded_of_reachable : system.Recorded := by
  refine reachable.invariant ?_ ?_
  · rintro _ rfl earlier ⟨⟩
  · intro first label last _ recorded step
    obtain ⟨stepped, genuine⟩ := step
    cases respond_cases repo first label.2 label.1 with
    | inl raises =>
      obtain ⟨_, _, same⟩ := raises
      rw [stepped, same]
      exact recorded
    | inr commits =>
      obtain ⟨after, done, same⟩ := commits
      have advances := ExecutionStore.Precedes.of_changes
        (run_changes (recorded.promised genuine) done)
      rw [stepped, same]
      intro earlier member
      cases mem_cons.mp member with
      | inl present => exact present ▸ advances
      | inr past => exact (recorded earlier past).trans advances

theorem respond_changes (genuine : system.Genuine call) (now : Time) :
    (∃ raised, call.run repo system.store now = .error raised ∧
      system.respond repo now call = system) ∨
    ∃ after, call.run repo system.store now = .ok after ∧
      system.respond repo now call = ⟨after, system.store :: system.past⟩ ∧
      Changes call system.store after call.target call.events := by
  cases respond_cases repo system now call with
  | inl raises => exact .inl raises
  | inr commits =>
    obtain ⟨after, done, same⟩ := commits
    have promised := (recorded_of_reachable reachable).promised genuine
    exact .inr ⟨after, done, same, run_changes promised done⟩

theorem reachable_respond (genuine : system.Genuine call) :
    (genuineMachine repo).Reachable (system.respond repo now call) := by
  have step : (genuineMachine repo).step system (call, now)
      (system.respond repo now call) := ⟨rfl, genuine⟩
  exact reachable.step step

end

end ExecutionSystem

def sampleRepository : ExecutionRepository := ⟨"t"⟩

def sampleExecution : ExecutionRecord where
  executionId := "e"
  sessionId := none
  parentExecutionId := none
  rootExecutionId := "e"
  binding := .agent "b"
  budgetScopeId := none
  restartCheckpoints := false
  durableTrace := false
  conversation := false
  profile := ""
  status := .pendingStart
  revision := 0
  eventSeq := 0
  agentRunSeq := 0
  errorCode := none
  safeErrorDetails := []
  errorDiagnostics := none
  updatedAt := 0
  startedAt := none
  producerGeneration := 0
  producerClaimId := none
  result := none
  inputContext := none
  task := {}
  dependencyHoldIds := []
  retentionClosed := false
  recovery := none
  historySealDigest := none
  checked := rfl

theorem sampleExecution_new : NewExecution sampleExecution :=
  ⟨rfl, rfl, rfl, rfl, rfl, rfl, rfl, rfl, rfl, by decide⟩

def sampleSystem : ExecutionSystem :=
  ({} : ExecutionSystem).respond sampleRepository 0 (.createExecution sampleExecution)

theorem sampleSystem_reachable : (genuineMachine sampleRepository).Reachable sampleSystem :=
  ExecutionSystem.reachable_respond (.of_initial rfl) sampleExecution_new

end Linktools.Execution
