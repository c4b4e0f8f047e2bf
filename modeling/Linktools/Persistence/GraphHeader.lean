import Linktools.Persistence.TaskRuns

namespace Linktools.Persistence

open Linktools.Core Library Linktools.Task List

variable {repo : TaskRepository} {first last system : System} {calls : List Call}
  {before after records : TaskGraphRecords} {clock : Clock} {graphId : String}

theorem Journaled.sequence_length (journaled : Journaled records) :
    records.eventSequence = records.events.length := by
  have lengths := congrArg length journaled.sequence
  rwa [length_map, length_range', eq_comm] at lengths

/-- The events are numbered from one without a gap, each node event starts from the
status last recorded for its node, and replaying them all gives the stored header and
what is stored of every node. -/
theorem event_log_replays_stored_graph (reachable : (taskSystem repo).Reachable system)
    (found : system.store.graphs graphId = some records) :
    records.events.map TaskEvent.eventSeq = range' 1 records.events.length ∧
    (∀ earlier event later, records.drafts = earlier ++ event :: later →
      event.eventType = .nodeChanged → ∃ nodeId observation, event.nodeId = some nodeId ∧
        (records.replay earlier).nodes nodeId = some observation ∧
        event.previousStatus = some observation.status) ∧
    (records.replay records.drafts).header = some records.status ∧
    ∀ nodeId, (records.replay records.drafts).nodes nodeId =
      (records.entryAt nodeId).map fun node => observationOf node.state.toTaskNodeFields := by
  have journaled := (soundGraph_of_reachable reachable found).journal
  refine ⟨?_, ?_, journaled.header, ?_⟩
  · rw [← journaled.sequence_length]
    exact journaled.sequence
  · intro earlier event later split changed
    have fitting := journaled.fitting
    rw [split] at fitting
    have known := fitting.at changed
    rwa [← split] at known
  · intro nodeId
    rw [journaled.nodes]
    rfl

/-- The events of a graph whose first node was claimed, bound and completed. -/
theorem sample_event_log_replays :
    ∃ records, (sampleSystem (sampleStart ++ [(tick 4, sampleCompletion)])).store.graphs
        "graph" = some records ∧
      records.events.map TaskEvent.eventSeq = range' 1 records.events.length ∧
      (records.replay records.drafts).header = some records.status := by
  have stored : ((sampleSystem (sampleStart ++ [(tick 4, sampleCompletion)])).store.graphs
      "graph").map TaskGraphRecords.graphId = some "graph" := by decide +kernel
  obtain ⟨records, found, _⟩ := Option.map_eq_some_iff.mp stored
  have reachable : (taskSystem sampleRepository).Reachable
      (sampleSystem (sampleStart ++ [(tick 4, sampleCompletion)])) :=
    play_reachable (by decide +kernel)
  obtain ⟨sequence, _, header, _⟩ := event_log_replays_stored_graph reachable found
  exact ⟨records, found, sequence, header⟩

variable {scope : Scope} {call : Call} {nodeId : String}

theorem claim_open (sound : SoundGraph time records)
    (found : system.store.graphs graphId = some records)
    (done : repo.claim clock graphId nodeId tenantId owner leaseSeconds
      system.store = .ok (lease, store)) :
    (∀ node ∈ records.nodes, node.status ≠ .recoveryRequired) ∧
      ∃ node ∈ records.nodes, ¬node.status.Terminal := by
  simp only [TaskRepository.claim, bind_eq_ok, Store.onGraph_ok] at done
  obtain ⟨_, _, _, _, _, _, claimedRecords, written, found', claimed, _⟩ := done
  rw [found, Option.some.injEq] at found'
  subst found'
  obtain ⟨node, _, claimable, _⟩ := TaskRepository.claimIn_ok sound.formed.distinct claimed
  refine ⟨?_, node, claimable.member, claimable.unfinished⟩
  intro other member recovering
  exact claimable.status_stable (sound.header.agrees.recovery_iff.mpr ⟨other, member, recovering⟩)

/-- The header is terminal, in recovery or open exactly as the rows are, and a claim
is refused while some row is in recovery or when all are terminal. -/
theorem header_agrees_and_claims_refused (reachable : (taskSystem repo).Reachable system)
    (found : system.store.graphs graphId = some records) :
    (records.status.Terminal ↔ ∀ node ∈ records.nodes, node.status.Terminal) ∧
    (records.status = .recoveryRequired ↔ ∃ node ∈ records.nodes, node.status = .recoveryRequired) ∧
    (¬records.status.Terminal → records.status ≠ .recoveryRequired →
      records.status = .pending ∨ records.status = .running) ∧
    ∀ clock nodeId tenantId owner leaseSeconds,
      ((∃ node ∈ records.nodes, node.status = .recoveryRequired) ∨
        ∀ node ∈ records.nodes, node.status.Terminal) →
      ∃ raised, repo.claim clock graphId nodeId tenantId owner leaseSeconds
        system.store = .error raised := by
  have sound := soundGraph_of_reachable reachable found
  have agrees := sound.header.agrees
  refine ⟨agrees.terminal_iff, agrees.recovery_iff, agrees.otherwise, ?_⟩
  intro clock nodeId tenantId owner leaseSeconds closed
  apply exists_error_of_not_ok
  rintro ⟨lease, store⟩ done
  obtain ⟨stable, node, member, unfinished⟩ := claim_open sound found done
  rcases closed with ⟨other, inside, recovering⟩ | terminal
  · exact stable other inside recovering
  · exact unfinished (terminal node member)

/-- A node in recovery keeps the other node of its graph from being claimed. -/
theorem sample_claim_refused_in_recovery :
    let recovering := sampleSystem (sampleStart ++ [(tick 4,
      .cancelNode "graph" "a" "tenant" "exec-1" false none)])
    ∃ raised, sampleRepository.claim (tick 5) "graph" "b" "tenant" "worker-2" 60
      recovering.store = .error raised := by
  have stored : ((sampleSystem (sampleStart ++ [(tick 4,
      .cancelNode "graph" "a" "tenant" "exec-1" false none)])).store.graphs
        "graph").map TaskGraphRecords.status = some .recoveryRequired := by
    decide +kernel
  obtain ⟨records, found, status⟩ := Option.map_eq_some_iff.mp stored
  have reachable : (taskSystem sampleRepository).Reachable (sampleSystem (sampleStart ++
      [(tick 4, .cancelNode "graph" "a" "tenant" "exec-1" false none)])) :=
    play_reachable (by decide +kernel)
  have facts := header_agrees_and_claims_refused reachable found
  exact facts.2.2.2 _ _ _ _ _ (.inl (facts.2.1.mp status))

variable {nodes : List NodeEntry}

theorem derivedStatus_of_cancelled (header : CancelledHeader nodes) :
    derivedStatus nodes = .failed ∨ derivedStatus nodes = .blocked ∨
      derivedStatus nodes = .cancelled := by
  obtain ⟨terminal, node, member, cancelled⟩ := header
  have agrees := derivedStatus_agrees nodes
  have isTerminal := agrees.terminal_iff.mpr terminal
  rcases isTerminal with succeeded | failed | blocked | isCancelled
  · exfalso
    unfold derivedStatus aggregateGraphStatus at succeeded
    split_ifs at succeeded with _ _ _ _ _ absent
    exact absent ⟨node, member, cancelled⟩
  · exact .inl failed
  · exact .inr (.inl blocked)
  · exact .inr (.inr isCancelled)

theorem cancelled_of_derivedStatus (derived : derivedStatus nodes = .cancelled) :
    ∃ node ∈ nodes, node.status = .cancelled := by
  unfold derivedStatus aggregateGraphStatus at derived
  split_ifs at derived with _ _ _ _ _ cancelled
  exact cancelled

theorem HeaderSound.cancelled_row (sound : HeaderSound records)
    (status : records.status = .cancelled) : ∃ node ∈ records.nodes, node.status = .cancelled := by
  rcases sound.settled (by simp [status, TaskStatus.Terminal]) with derived | ⟨_, header⟩
  · exact cancelled_of_derivedStatus (derived.symm.trans status)
  · exact header.2

theorem RowsMove.eq_of_terminal (rows : RowsMove now writes left right)
    (terminal : ∀ node ∈ left, node.status.Terminal) : right = left := by
  induction rows with
  | nil => rfl
  | cons row _ ih =>
    rw [NodeEntry.ext_fields row.definition
      (row.moves.eq_of_terminal (terminal _ mem_cons_self)),
      ih fun node member => terminal node (mem_cons_of_mem _ member)]

inductive HeaderFate (scope : Scope) (before after : TaskStatus)
    (nodes : List NodeEntry) : Prop
  | kept (same : after = before)
  | overridden (cancels : scope.cancels)
      (failed : before = .failed ∨ before = .blocked) (cancelled : after = .cancelled)
  | rederived (schedules : scope.schedules) (cancelled : before = .cancelled)
      (other : derivedStatus nodes ≠ .cancelled)

theorem Permitted.headerFate (permitted : Permitted clock scope before change)
    (sound : HeaderSound before) (terminal : before.status.Terminal) :
    HeaderFate scope before.status change.status before.nodes := by
  have rowsTerminal := sound.agrees.terminal_iff.mp terminal
  cases permitted with
  | claimed _ _ _ _ _ claimable => exact absurd terminal claimable.status_open
  | held node _ member running =>
    have := rowsTerminal node member
    simp [running, TaskStatus.Terminal] at this
  | prepared => exact .kept rfl
  | transition _ _ unfinished =>
    obtain ⟨node, member, isOpen⟩ := unfinished
    exact absurd (rowsTerminal node member) isOpen
  | completed node _ _ _ completes =>
    exact absurd (rowsTerminal node completes.member) completes.unfinished
  | scheduled kept schedules rows =>
    rw [rows.eq_of_terminal rowsTerminal]
    rcases sound.settled terminal with derived | ⟨cancelled, _⟩
    · exact .kept derived.symm
    · by_cases same : derivedStatus before.nodes = .cancelled
      · exact .kept (same.trans cancelled.symm)
      · exact .rederived schedules cancelled same
  | cancelled kept status cancels rows header =>
    rw [rows.eq_of_terminal rowsTerminal] at header
    rcases header with ⟨rfl, plain⟩ | ⟨rfl, cancelledRows⟩
    · rcases sound.settled terminal with derived | ⟨_, cancelledRows⟩
      · exact .kept derived.symm
      · exact absurd cancelledRows plain
    · rcases sound.settled terminal with derived | ⟨cancelled, _⟩
      · rcases derivedStatus_of_cancelled cancelledRows with failed | blocked | same
        · exact .overridden cancels (.inl (derived.trans failed)) rfl
        · exact .overridden cancels (.inr (derived.trans blocked)) rfl
        · exact .kept (derived.trans same).symm
      · exact .kept cancelled.symm
  | repaired status header cancelled =>
    rcases sound.settled terminal with derived | ⟨isCancelled, _⟩
    · exact .kept (header.trans derived.symm)
    · rcases cancelled with other | recovering
      · exact absurd isCancelled other
      · have agrees := derivedStatus_agrees before.nodes
        rw [← header, recovering] at agrees
        have := agrees.terminal_iff.mpr rowsTerminal
        simp [TaskStatus.Terminal] at this

/-- The call does not poll the graph while its header is cancelled and its rows alone
give another status. -/
def PollSettled (graphId : String) (system : System) (call : Call) : Prop :=
  ∀ tenantId records, call.operation = .schedulerState graphId tenantId →
    system.store.graphs graphId = some records → records.status = .cancelled →
      derivedStatus records.nodes = .cancelled

def HeaderSettled (graphId : String) (calls : List Call) (before after : TaskStatus) : Prop :=
  after = before ∨ (before = .failed ∨ before = .blocked) ∧ after = .cancelled ∧
    ∃ call ∈ calls, ∃ tenantId, call.operation = .cancelGraph graphId tenantId

theorem HeaderSettled.terminal (settled : HeaderSettled graphId calls left right)
    (terminal : left.Terminal) : right.Terminal := by
  rcases settled with same | ⟨_, cancelled, _⟩
  · rwa [same]
  · simp [cancelled, TaskStatus.Terminal]

theorem HeaderSettled.cons {left middle right : TaskStatus}
    (head : HeaderSettled graphId [call] left middle)
    (tail : HeaderSettled graphId calls middle right) :
    HeaderSettled graphId (call :: calls) left right := by
  rcases head with rfl | ⟨failed, rfl, inner, member, cancels⟩
  · rcases tail with same | ⟨failed, cancelled, inner, member, cancels⟩
    · exact .inl same
    · exact .inr ⟨failed, cancelled, inner, mem_cons_of_mem _ member, cancels⟩
  · rw [mem_singleton] at member
    subst member
    rcases tail with same | ⟨impossible, _⟩
    · exact .inr ⟨failed, same, inner, mem_cons_self, cancels⟩
    · simp at impossible

theorem step_headerSettled (reachable : (taskSystem repo).Reachable first)
    (step : (taskSystem repo).step first call last) (polls : PollSettled graphId first call)
    (found : first.store.graphs graphId = some before)
    (terminal : before.status.Terminal) : ∃ after, last.store.graphs graphId = some after ∧
      HeaderSettled graphId [call] before.status after.status := by
  have sound := soundSystem_of_reachable reachable
  obtain ⟨after, grown, graphStep⟩ := step_graph sound step found
  refine ⟨after, grown, ?_⟩
  rcases graphStep with rfl | ⟨change, permitted, committed⟩
  · exact .inl rfl
  rw [committed.status]
  cases permitted.headerFate (sound graphId before found).2.header terminal with
  | kept same => exact .inl same
  | overridden cancels failed cancelled =>
    obtain ⟨tenantId, cancels⟩ := Operation.cancels_iff.mp cancels
    exact .inr ⟨failed, cancelled, call, mem_singleton_self call, tenantId, cancels⟩
  | rederived schedules cancelled other =>
    obtain ⟨tenantId, poll⟩ := Operation.schedules_iff.mp schedules
    exact absurd (polls tenantId before poll found cancelled) other

theorem run_headerSettled (reachable : (taskSystem repo).Reachable first)
    (run : Machine.Run ((taskSystem repo).restrict (PollSettled graphId)) first calls last)
    (found : first.store.graphs graphId = some before)
    (terminal : before.status.Terminal) : ∃ after, last.store.graphs graphId = some after ∧
      HeaderSettled graphId calls before.status after.status := by
  induction run generalizing before with
  | nil => exact ⟨before, found, .inl rfl⟩
  | cons step _ ih =>
    obtain ⟨middle, foundMiddle, head⟩ := step_headerSettled reachable step.1 step.2 found terminal
    obtain ⟨after, foundAfter, tail⟩ :=
      ih (reachable.step step.1) foundMiddle (head.terminal terminal)
    exact ⟨after, foundAfter, head.cons tail⟩

/-- Along a run whose polls are settled a terminal header stays, except that
cancelling a failed or blocked graph with a cancelled row makes it cancelled. -/
theorem terminal_header_changes_only_by_cancel_graph
    (reachable : (taskSystem repo).Reachable first)
    (run : Machine.Run ((taskSystem repo).restrict (PollSettled graphId)) first calls last)
    (found : first.store.graphs graphId = some before) (terminal : before.status.Terminal) :
    ∃ after, last.store.graphs graphId = some after ∧ after.status.Terminal ∧
      (after.status = before.status ∨ (before.status = .failed ∨ before.status = .blocked) ∧
          after.status = .cancelled ∧ (∃ node ∈ after.nodes, node.status = .cancelled) ∧
          ∃ call ∈ calls, ∃ tenantId, call.operation = .cancelGraph graphId tenantId) := by
  obtain ⟨after, foundAfter, settled⟩ :=
    run_headerSettled reachable run found terminal
  refine ⟨after, foundAfter, settled.terminal terminal, ?_⟩
  rcases settled with same | ⟨failed, cancelled, cancels⟩
  · exact .inl same
  · have sound := soundGraph_of_reachable (reachable.run run.of_restrict) foundAfter
    exact .inr ⟨failed, cancelled, sound.header.cancelled_row cancelled, cancels⟩

theorem second_node_present : blank "b" = false := by
  decide

/-- The first node fails, and the other is cancelled while it waits. -/
def sampleFailure : List (Clock × Operation) :=
  sampleStart ++ [(tick 4, .fail
      { lease := some firstLease, tenantId := "tenant", errorCode := "TASK_FAILED"
        errorDigest := sampleError, executionId := some "exec-1" }),
    (tick 5, .claim "graph" "b" "tenant" "worker-2" 60),
    (tick 6, .bindExecution (sampleLease "b" "worker-2" 1 60000005 second_node_present (by decide)
      Nat.zero_lt_one) "tenant" "exec-2"),
    (tick 7, .cancelNode "graph" "b" "tenant" "exec-2" true none)]

def sampleFailed : System := sampleSystem sampleFailure

def sampleOverride : Call :=
  sampleRepository.called sampleFailed (tick 8) (.cancelGraph "graph" "tenant")

def sampleOverridden : System :=
  sampleRepository.next sampleFailed (tick 8) (.cancelGraph "graph" "tenant")

theorem sampleFailed_reachable : (taskSystem sampleRepository).Reachable sampleFailed :=
  play_reachable (by decide +kernel)

theorem sampleFailed_status :
    (sampleFailed.store.graphs "graph").map TaskGraphRecords.status = some .failed := by
  decide +kernel

theorem sampleOverride_run :
    Machine.Run ((taskSystem sampleRepository).restrict (PollSettled "graph"))
      sampleFailed [sampleOverride] sampleOverridden :=
  .single ⟨TaskRepository.step_next (by decide +kernel), nofun⟩

/-- Cancelling the failed graph leaves its header terminal. -/
theorem sample_header_settled : ∃ after, sampleOverridden.store.graphs "graph" = some after ∧
      after.status.Terminal := by
  obtain ⟨before, found, failed⟩ := Option.map_eq_some_iff.mp sampleFailed_status
  obtain ⟨after, foundAfter, terminal, _⟩ :=
    terminal_header_changes_only_by_cancel_graph sampleFailed_reachable
      sampleOverride_run found (by simp [failed, TaskStatus.Terminal])
  exact ⟨after, foundAfter, terminal⟩

/-- Cancelling the failed graph turns its header from failed to cancelled. -/
theorem terminal_header_overridden_by_cancel_graph :
    ¬∀ (repo : TaskRepository) (first last : System) (calls : List Call)
      (graphId : String) (before after : TaskGraphRecords),
      (taskSystem repo).Reachable first →
      Machine.Run (taskSystem repo) first calls last →
      first.store.graphs graphId = some before → before.status.Terminal →
      last.store.graphs graphId = some after → after.status = before.status := by
  intro stable
  obtain ⟨before, found, failed⟩ := Option.map_eq_some_iff.mp sampleFailed_status
  have overridden : (sampleOverridden.store.graphs "graph").map
      TaskGraphRecords.status = some .cancelled := by decide +kernel
  obtain ⟨after, foundAfter, cancelled⟩ := Option.map_eq_some_iff.mp overridden
  have same := stable _ _ _ _ _ before after sampleFailed_reachable
    sampleOverride_run.of_restrict found (by simp [failed, TaskStatus.Terminal])
    foundAfter
  simp [failed, cancelled] at same

end Linktools.Persistence
