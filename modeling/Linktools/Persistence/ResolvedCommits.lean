import Linktools.Persistence.DroppedCommits
import Linktools.Persistence.UncertainCommits

namespace Linktools.Persistence

open Linktools.Core Library Linktools.Task

/-! A read-back answers only where its operation has nothing left to do: there the
operation leaves the store alone, and no error it raises is a report of the store. -/

def Unreported (raised : Raised) : Prop := commitReportOf raised = none

variable {repo : TaskRepository} {clock : Clock} {answered : Time}
  {store : Store} {report : CommitReport} {graphId nodeId tenantId : String}
  {records : TaskGraphRecords} {node : NodeEntry} {view : TaskNodeView}
  {graph : TaskGraphView} {lease : TaskLease} {record : TaskTerminalRecord}

theorem TaskGraph.build_raises : RaisesOnly Unreported (TaskGraph.build graphId nodes) := by
  unfold TaskGraph.build
  split
  case isFalse => exact .error rfl
  case isTrue =>
    split
    case isFalse => exact .error rfl
    case isTrue =>
      split
      case isFalse => exact .error rfl
      case isTrue =>
        split
        case isTrue => exact .ok _
        case isFalse => exact .error rfl

theorem eventState_raises : RaisesOnly Unreported records.eventState :=
  .bind (.refuse rfl) fun _ _ => .bind TaskGraph.build_raises fun _ _ => .ok _

theorem terminalState_raises : RaisesOnly Unreported (records.terminalState nodeId) :=
  .bind (.refuse rfl) fun _ _ => .bind (.refuse rfl) fun _ _ => .ok _

theorem putGraph_self (found : store.graphs graphId = some records)
    (sameId : records.graphId = graphId) : store.putGraph records = store := by
  unfold Store.putGraph
  rw [sameId, ← found, Function.update_eq_self]

variable {missing : Raised}

theorem keepsState_onGraph {α : Type}
    {mutate : TaskGraphRecords → Except Raised (α × TaskGraphRecords)}
    (found : store.graphs graphId = some records) (sameId : records.graphId = graphId)
    (keeps : KeepsState Unreported records (mutate records)) :
    KeepsState Unreported store (store.onGraph graphId missing mutate) := by
  simp only [Store.onGraph, found, orRaise, ok_bind]
  cases mutated : mutate records with
  | error raised => exact .error (keeps.1 raised mutated)
  | ok pair =>
    obtain ⟨value, after⟩ := pair
    rw [keeps.2 value after mutated, ok_bind, putGraph_self found sameId]
    exact .ok value

theorem keepsState_presented {α : Type} {present : α → Outcome}
    {result : Except Raised (α × Store)} (keeps : KeepsState Unreported store result) :
    KeepsState Unreported store (presented present result) := by
  cases done : result with
  | error raised => exact .error (keeps.1 raised done)
  | ok pair =>
    obtain ⟨value, after⟩ := pair
    rw [keeps.2 value after done]
    exact .ok (present value)

theorem row_of_eventState {before : TaskEventState} {current : NodeEntry}
    (stored : records.entryAt nodeId = some node) (loaded : records.eventState = .ok before)
    (found : orRaise (rowAt NodeEntry.nodeId before.nodeStates nodeId) missing = .ok current) :
    current = node := by
  rw [orRaise_eq_ok, (records.eventState_ok loaded).2.2.2.1] at found
  exact Option.some.inj (found.symm.trans stored)

namespace TaskRepository

variable {executionId : String}

theorem handoffExecution_keeps {occupies : Bool} (keyed : WellKeyed store)
    (found : store.graphs lease.graphId = some records)
    (stored : records.entryAt lease.nodeId = some node) (waiting : node.status = .waiting)
    (bound : node.state.executionId = some executionId)
    (slot : node.state.occupiesConcurrency = occupies) :
    KeepsState Unreported store (repo.handoffExecution clock lease tenantId
      executionId occupies store) := by
  refine .bind (.refuse rfl) fun _ _ => .bind (.refuse rfl) fun _ _ =>
    .bind (.refuse rfl) fun _ _ => keepsState_onGraph found (keyed _ _ found).1 ?_
  refine .bind (.orRaise rfl) fun current present => ?_
  obtain rfl : current = node := by
    rw [orRaise_eq_ok, stored, Option.some.injEq] at present
    exact present.symm
  rw [if_pos ⟨waiting, bound⟩]
  exact .bind (.refuse rfl) fun _ _ => .bind (.refuse rfl) fun _ _ => by
    rw [refuse_of_not (not_not_intro slot)]
    exact .ok _

variable {expectedFence : Int}

theorem requeueWaitingRetry_keeps {nextAttemptAt : Time} (keyed : WellKeyed store)
    (found : store.graphs graphId = some records) (stored : records.entryAt nodeId = some node)
    (status : node.status = .running ∨ node.status = .ready) :
    KeepsState Unreported store (repo.requeueWaitingRetry clock graphId nodeId
      tenantId expectedFence executionId nextAttemptAt store) := by
  refine .bind (.refuse rfl) fun _ _ => .bind (.refuse rfl) fun _ _ =>
    keepsState_onGraph found (keyed _ _ found).1 ?_
  refine .bind eventState_raises fun before loaded => .bind (.orRaise rfl) fun current present => ?_
  obtain rfl := row_of_eventState stored loaded present
  rw [refuse_of (.inl (by rcases status with status | status <;> simp [status]))]
  exact .error rfl

theorem resolveTaskExecutionId_raises {known supplied : Option String} :
    RaisesOnly Unreported (resolveTaskExecutionId known supplied) := by
  unfold resolveTaskExecutionId
  split
  · exact .ok _
  · split
    · exact .ok _
    · exact .error rfl

variable {request : MarkRecoveryRequired}

theorem MarkRecoveryRequired.target_raises : RaisesOnly Unreported request.target := by
  unfold MarkRecoveryRequired.target
  split
  · exact .bind (.refuse rfl) fun _ _ => .ok _
  · exact .bind (.refuse rfl) fun _ _ => .bind (.refuse rfl) fun _ _ =>
      .bind (.refuse rfl) fun _ _ => .bind (.refuse rfl) fun _ _ => .ok _

variable {target : TargetNode}

theorem markRecoveryRequired_keeps (keyed : WellKeyed store)
    (targeted : request.target = .ok target) (found : store.graphs target.graphId = some records)
    (stored : records.entryAt target.nodeId = some node)
    (recovering : node.status = .recoveryRequired) :
    KeepsState Unreported store (repo.markRecoveryRequired clock request store) := by
  refine .bind (.refuse rfl) fun _ _ => .bind (.refuse rfl) fun _ _ =>
    .bind MarkRecoveryRequired.target_raises fun other same => ?_
  obtain rfl : target = other := Except.ok.inj (targeted.symm.trans same)
  refine keepsState_onGraph found (keyed _ _ found).1 ?_
  refine .bind eventState_raises fun before loaded => .bind (.orRaise rfl) fun current present => ?_
  obtain rfl := row_of_eventState stored loaded present
  rw [if_pos recovering]
  refine .bind (.refuse rfl) fun _ _ => .bind (.refuse rfl) fun _ _ =>
    .bind resolveTaskExecutionId_raises fun _ _ => ?_
  split
  · exact .ok _
  · exact .error rfl

theorem requeueRecovery_keeps {executionId : Option String} {nextAttemptAt : Option Time}
    (keyed : WellKeyed store) (found : store.graphs graphId = some records)
    (stored : records.entryAt nodeId = some node)
    (status : node.status = .running ∨ node.status = .ready) :
    KeepsState Unreported store (repo.requeueRecovery clock graphId nodeId
      tenantId expectedFence executionId nextAttemptAt store) := by
  refine .bind (.refuse rfl) fun _ _ => .bind (.refuse rfl) fun _ _ =>
    keepsState_onGraph found (keyed _ _ found).1 ?_
  refine .bind eventState_raises fun before loaded => .bind (.orRaise rfl) fun current present => ?_
  obtain rfl := row_of_eventState stored loaded present
  rw [refuse_of (.inl (by rcases status with status | status <;> simp [status]))]
  exact .error rfl

theorem terminalTarget_raises {held : Option TaskLease} {given owner : Option String} :
    RaisesOnly Unreported (terminalTarget held tenantId given owner) := by
  unfold terminalTarget
  split
  · exact .bind (.refuse rfl) fun _ _ => .ok _
  · exact .bind (.refuse rfl) fun _ _ => .bind (.refuse rfl) fun _ _ =>
      .bind (.refuse rfl) fun _ _ => .ok _

theorem terminalRecord_raises : RaisesOnly Unreported record.check :=
  .bind (.refuse rfl) fun _ _ => .refuse rfl

variable {request : Complete}

theorem completeAgain_raises {before : TaskEventState} {found : Option TaskResultRecord} :
    RaisesOnly Unreported (completeAgain clock request before node found) :=
  .bind (.refuse rfl) fun _ _ => .bind (.refuse rfl) fun _ _ =>
    .bind (.refuse rfl) fun _ _ => .bind (.refuse rfl) fun _ _ =>
    .bind (.orRaise rfl) fun _ _ => .bind (.refuse rfl) fun _ _ =>
    .bind (.refuse rfl) fun _ _ => .bind terminalRecord_raises fun _ _ => .ok _

theorem failAgain_raises {request : Fail} : RaisesOnly Unreported (failAgain clock request node) :=
  .bind (.refuse rfl) fun _ _ => .bind (.refuse rfl) fun _ _ =>
    .bind (.refuse rfl) fun _ _ => .bind (.refuse rfl) fun _ _ =>
    .bind terminalRecord_raises fun _ _ => .ok _

theorem complete_keeps (keyed : WellKeyed store)
    (targeted : terminalTarget request.lease request.tenantId request.graphId
      request.nodeId = .ok target) (found : store.graphs target.graphId = some records)
    (stored : records.entryAt target.nodeId = some node) (succeeded : node.status = .succeeded) :
    KeepsState Unreported store (repo.complete clock request store) := by
  refine .bind (.refuse rfl) fun _ _ => .bind (.refuse rfl) fun _ _ =>
    .bind terminalTarget_raises fun other same => ?_
  obtain rfl : target = other := Except.ok.inj (targeted.symm.trans same)
  refine keepsState_onGraph found (keyed _ _ found).1 ?_
  have loads : RaisesOnly Unreported (completionState request target.nodeId records) := by
    unfold completionState
    split
    · exact eventState_raises
    · exact terminalState_raises
  refine .bind (.refuse rfl) fun _ _ => .bind loads fun before loaded =>
    .bind (.orRaise rfl) fun current present => .bind (.refuse rfl) fun _ _ => ?_
  obtain rfl : current = node := by
    rw [orRaise_eq_ok, (completionState_ok loaded).2.1] at present
    exact Option.some.inj (present.symm.trans stored)
  rw [if_pos (show current.status.Terminal from .inl succeeded)]
  exact .bind completeAgain_raises fun _ _ => .ok _

theorem fail_keeps {request : Fail} (keyed : WellKeyed store)
    (targeted : terminalTarget request.lease request.tenantId request.graphId
      request.nodeId = .ok target) (found : store.graphs target.graphId = some records)
    (stored : records.entryAt target.nodeId = some node) (failed : node.status = .failed) :
    KeepsState Unreported store (repo.fail clock request store) := by
  refine .bind (.refuse rfl) fun _ _ => .bind (.refuse rfl) fun _ _ =>
    .bind (.refuse rfl) fun _ _ => .bind terminalTarget_raises fun other same => ?_
  obtain rfl : target = other := Except.ok.inj (targeted.symm.trans same)
  refine keepsState_onGraph found (keyed _ _ found).1 ?_
  refine .bind (.refuse rfl) fun _ _ => .bind terminalState_raises fun before loaded =>
    .bind (.orRaise rfl) fun current present => ?_
  obtain rfl : current = node := by
    rw [orRaise_eq_ok, (records.terminalState_ok loaded).2.2.1] at present
    exact Option.some.inj (present.symm.trans stored)
  rw [if_pos (show current.status.Terminal from .inr (.inl failed))]
  exact .bind failAgain_raises fun _ _ => .ok _

end TaskRepository

variable {time later : Time} {after : Store} {system : System} {call : NodeOperation}
  {ending : Ending} {outcome : Outcome}

/-- The call supplies an execution id, or its target is not bound to one. -/
def ExecutionNamed (store : Store) (target : Except Raised TaskRepository.TargetNode)
    (supplied : Option String) : Prop :=
  ∀ place node, target = .ok place → store.nodeAt place.graphId place.nodeId = some node →
      node.state.executionId ≠ none → supplied ≠ none

/-- The read-back of these three operations compares the stored execution id with the
supplied one, where the transaction keeps the stored one when none is supplied. -/
def NodeOperation.NamesExecution (store : Store) : NodeOperation → Prop
  | .markRecoveryRequired request =>
    ExecutionNamed store request.target request.executionId
  | .complete request =>
    request.lease = none → ExecutionNamed store (TaskRepository.terminalTarget request.lease
        request.tenantId request.graphId request.nodeId) request.executionId
  | .fail request =>
    request.lease = none → ExecutionNamed store (TaskRepository.terminalTarget request.lease
        request.tenantId request.graphId request.nodeId) request.executionId
  | _ => True

theorem executionNamed_iff (targeted : target = .ok place)
    (stored : store.nodeAt place.graphId place.nodeId = some node) :
    ExecutionNamed store target supplied ↔ (node.state.executionId ≠ none → supplied ≠ none) := by
  constructor
  · intro named
    exact named place node targeted stored
  · intro named other inner targeted' stored'
    obtain rfl : place = other := Except.ok.inj (targeted.symm.trans targeted')
    obtain rfl : node = inner := Option.some.inj (stored.symm.trans stored')
    exact named

namespace TaskRepository

theorem readBack_committed (answered : Time) (report : CommitReport)
    (sound : SoundSystem ⟨store, time⟩) (soundAfter : SoundSystem ⟨after, later⟩)
    (done : repo.perform clock call.operation store = .ok (outcome, after)) :
    call.readBack answered outcome.claimedFence report after =
        .ok (outcome.answeredAt answered) ↔ call.NamesExecution store := by
  have keyed := sound.wellKeyed
  have keyedAfter := soundAfter.wellKeyed
  cases call <;> simp only [NodeOperation.operation, perform, presented_eq_ok] at done <;>
    obtain ⟨value, done, rfl⟩ := done <;>
    simp only [NodeOperation.readBack, NodeOperation.NamesExecution,
      Outcome.answeredAt, Outcome.claimedFence, iff_true]
  case handoffExecution => rw [handoffExecution_readBack keyed keyedAfter done]; rfl
  case requeueWaitingRetry => rw [requeueWaitingRetry_readBack keyed keyedAfter done]; rfl
  case requeueRecovery => rw [requeueRecovery_readBack sound soundAfter done]; rfl
  case claim => rw [claim_readBack keyed keyedAfter done]; rfl
  case markRecoveryRequired request =>
    obtain ⟨target, node, targeted, stored, agrees⟩ :=
      markRecoveryRequired_readBack report sound soundAfter done
    rw [executionNamed_iff targeted stored, ← agrees, targeted, ok_bind]
    exact map_injective_eq_ok fun _ _ => Outcome.node.inj
  case complete request =>
    obtain ⟨target, node, targeted, stored, agrees⟩ :=
      complete_readBack answered report sound soundAfter done
    rw [executionNamed_iff targeted stored, ← agrees, targeted, ok_bind]
    exact map_injective_eq_ok fun _ _ => Outcome.terminal.inj
  case fail request =>
    obtain ⟨target, node, targeted, stored, agrees⟩ :=
      fail_readBack answered report sound soundAfter done
    rw [executionNamed_iff targeted stored, ← agrees, targeted, ok_bind]
    exact map_injective_eq_ok fun _ _ => Outcome.terminal.inj

theorem reads_keeps (keyed : WellKeyed store)
    (reads : call.ReadsAt (call.writtenFence store) store) :
    KeepsState Unreported store (repo.perform clock call.operation store) := by
  obtain ⟨place, node, targeted, stored, reads⟩ := reads
  obtain ⟨records, found, present⟩ := Store.nodeAt_eq_some.mp stored
  cases call
  case handoffExecution =>
    cases targeted
    obtain ⟨waiting, _, bound, slot⟩ := reads
    exact keepsState_presented (handoffExecution_keeps keyed found present waiting bound slot)
  case requeueWaitingRetry =>
    cases targeted
    exact keepsState_presented (requeueWaitingRetry_keeps keyed found present
      (reads.2.imp_right And.left))
  case markRecoveryRequired =>
    exact keepsState_presented (markRecoveryRequired_keeps keyed targeted found present reads.1)
  case requeueRecovery =>
    cases targeted
    exact keepsState_presented (requeueRecovery_keeps keyed found present
      (reads.2.imp_right And.left))
  case claim =>
    cases targeted
    obtain ⟨_, _, fence⟩ := reads
    simp [NodeOperation.writtenFence, stored] at fence
  case complete =>
    exact keepsState_presented (complete_keeps keyed targeted found present reads.1)
  case fail => exact keepsState_presented (fail_keeps keyed targeted found present reads.1)

theorem claimedFence_eq (keyed : WellKeyed store)
    (done : repo.perform clock call.operation store = .ok (outcome, after)) :
    outcome.claimedFence = call.writtenFence store := by
  cases call <;> simp only [NodeOperation.operation, perform, presented_eq_ok] at done <;>
    obtain ⟨value, done, rfl⟩ := done <;> try rfl
  case claim =>
    simp only [claim, bind_eq_ok, Store.onGraph_ok] at done
    obtain ⟨_, _, _, _, _, _, records, written, found, mutated, _⟩ := done
    have distinct := (keyed _ _ found).2
    obtain ⟨node, _, claimable, rfl, _, _, _, built⟩ := claimIn_ok distinct mutated
    simp only [Outcome.claimedFence, NodeOperation.writtenFence, Store.nodeAt, found,
      Option.bind_some, TaskGraphRecords.entryAt, rowAt_of_mem distinct claimable.member,
      Option.map_some, (TaskLease.build_ok built).2.2.2.2.1]

theorem classifyTerminalReadback_reads
    (read : classifyTerminalReadback answered lease wanted supplied digest code errors
      report store = .ok record) : ∃ node, store.nodeAt lease.graphId lease.nodeId = some node ∧
      node.status = wanted ∧ node.state.fence = lease.fence ∧ node.state.resultDigest = digest ∧
      node.state.errorCode = code ∧ node.state.errorDigest = errors := by
  obtain ⟨current, read, fence, status, result, code, errors, _⟩ :=
    classifyTerminalReadback_eq_ok.mp read
  obtain ⟨records, node, found, stored, rfl⟩ := Store.readNode_eq_ok.mp read
  exact ⟨node, Store.nodeAt_eq_some.mpr ⟨records, found, stored⟩, status, fence, result, code,
    errors⟩

theorem readBack_reads (fenced : ∀ fence, expected = some fence → wanted = some fence)
    (read : call.readBack answered expected report store = .ok outcome) :
    call.ReadsAt wanted store := by
  cases call <;> simp only [NodeOperation.readBack, bind_eq_ok, map_eq_ok] at read
  case handoffExecution =>
    obtain ⟨view, read, _⟩ := read
    obtain ⟨read, fence, waiting, bound, _, _, slot⟩ := handoffExecutionReadback_eq_ok.mp read
    obtain ⟨records, node, found, stored, rfl⟩ := Store.readNode_eq_ok.mp read
    exact ⟨_, node, rfl, Store.nodeAt_eq_some.mpr ⟨records, found, stored⟩, waiting, fence, bound,
      slot⟩
  case requeueWaitingRetry =>
    obtain ⟨view, read, _⟩ := read
    obtain ⟨read, ready, fence, bound, next⟩ := requeueWaitingRetryReadback_eq_ok.mp read
    obtain ⟨records, node, found, stored, rfl⟩ := Store.readNode_eq_ok.mp read
    exact ⟨_, node, rfl, Store.nodeAt_eq_some.mpr ⟨records, found, stored⟩, fence,
      .inr ⟨ready, bound, next⟩⟩
  case markRecoveryRequired =>
    obtain ⟨target, targeted, view, read, _⟩ := read
    obtain ⟨read, _, recovering, fence, expected, code, digest, _⟩ :=
      markRecoveryRequiredReadback_eq_ok.mp read
    obtain ⟨records, node, found, stored, rfl⟩ := Store.readNode_eq_ok.mp read
    exact ⟨target, node, targeted, Store.nodeAt_eq_some.mpr ⟨records, found, stored⟩, recovering,
      fence, expected, code, digest⟩
  case requeueRecovery =>
    obtain ⟨view, read, _⟩ := read
    obtain ⟨_, node, stored, ready, fence, bound, execution, next⟩ :=
      requeueRecoveryReadback_eq_ok.mp read
    exact ⟨_, node, rfl, stored, fence, .inr ⟨ready, bound, execution, next⟩⟩
  case claim =>
    obtain ⟨lease, read, _⟩ := read
    obtain ⟨view, _, read, running, owner, fence, _⟩ := claimReadback_eq_ok.mp read
    obtain ⟨records, node, found, stored, rfl⟩ := Store.readNode_eq_ok.mp read
    exact ⟨_, node, rfl, Store.nodeAt_eq_some.mpr ⟨records, found, stored⟩, running, owner,
      fenced _ fence⟩
  case complete request =>
    obtain ⟨target, targeted, record, read, _⟩ := read
    cases given : request.lease with
    | some lease =>
      obtain rfl := terminalTarget_ok targeted given
      simp only [completeReadback, given] at read
      obtain ⟨node, stored, status, fence, digest, _⟩ := classifyTerminalReadback_reads read
      exact ⟨_, node, targeted, stored, status, by simp [given, fence], digest⟩
    | none =>
      obtain ⟨view, read, status, digest, _⟩ := (completeReadback_eq_ok given).mp read
      obtain ⟨records, node, found, stored, rfl⟩ := Store.readNode_eq_ok.mp read
      exact ⟨target, node, targeted, Store.nodeAt_eq_some.mpr ⟨records, found, stored⟩, status,
        by simp [given], digest⟩
  case fail request =>
    obtain ⟨target, targeted, record, read, _⟩ := read
    cases given : request.lease with
    | some lease =>
      obtain rfl := terminalTarget_ok targeted given
      simp only [failReadback, given] at read
      obtain ⟨node, stored, status, fence, _, code, digest⟩ := classifyTerminalReadback_reads read
      exact ⟨_, node, targeted, stored, status, by simp [given, fence], code, digest⟩
    | none =>
      obtain ⟨view, read, status, _, code, digest, _⟩ := (failReadback_eq_ok given).mp read
      obtain ⟨records, node, found, stored, rfl⟩ := Store.readNode_eq_ok.mp read
      exact ⟨target, node, targeted, Store.nodeAt_eq_some.mpr ⟨records, found, stored⟩, status,
        by simp [given], code, digest⟩

/-- The answer of a call whose read-back, where it makes one, is over a later store. -/
def answerUnder (repo : TaskRepository) (ending : Ending) (clock : Clock)
    (answered : Time) (call : NodeOperation) (store later : Store) : Except Raised Outcome :=
  match repo.perform clock call.operation store with
  | .ok (outcome, _) =>
    match ending with
    | .acknowledged => .ok outcome
    | .committedUnknown => call.readBack answered outcome.claimedFence .commitUnknown later
    | .dropped report => call.readBack answered outcome.claimedFence report later
  | .error raised =>
    match commitReportOf raised with
    | some report => call.readBack answered none report later
    | none => .error raised

/-- With nothing in between, the read-back is over the store that the transaction left. -/
theorem callUnder_eq (ending : Ending) (store : Store) :
    ∃ later, repo.callUnder ending clock answered call store =
      (repo.answerUnder ending clock answered call store later, later) := by
  unfold callUnder answerUnder
  rcases repo.perform clock call.operation store with raised | ⟨outcome, after⟩
  · refine ⟨store, ?_⟩
    cases reported : commitReportOf raised <;> simp only [reported]
  · cases ending <;> exact ⟨_, rfl⟩

end TaskRepository

def Uncommitted (ending : Ending) (store : Store)
    (result : Except Raised (Outcome × Store)) : Prop :=
  ∀ outcome after, result = .ok (outcome, after) →
    (∃ report, ending = .dropped report) ∧ after ≠ store

theorem answerUnder_uncommitted {first last : System} {calls : List Call}
    (reachable : (taskSystem repo).Reachable first)
    (uncommitted : Uncommitted ending first.store
      (repo.perform clock call.operation first.store))
    (run : Machine.Run ((taskSystem repo).restrict
      (call.Unrepeated (call.writtenFence first.store))) first calls last) :
    ∃ raised, repo.answerUnder ending clock answered call first.store last.store =
      .error raised := by
  have keyed := (soundSystem_of_reachable reachable).wellKeyed
  have keeps {expected report shown}
      (fenced : ∀ fence, expected = some fence → call.writtenFence first.store = some fence)
      (read : call.readBack answered expected report last.store = .ok shown) :
      KeepsState Unreported first.store
        (repo.perform clock call.operation first.store) :=
    TaskRepository.reads_keeps keyed ((TaskRepository.readBack_reads fenced read).run reachable run)
  unfold TaskRepository.answerUnder
  cases done : repo.perform clock call.operation first.store with
  | ok pair =>
    obtain ⟨outcome, after⟩ := pair
    obtain ⟨⟨report, rfl⟩, changed⟩ := uncommitted outcome after done
    have written := TaskRepository.claimedFence_eq keyed done
    exact exists_error_of_not_ok fun shown read =>
      changed ((keeps (fun _ same => written.symm.trans same) read).2 outcome after done)
  | error raised =>
    cases reported : commitReportOf raised with
    | none => exact ⟨raised, by simp only [reported]⟩
    | some report =>
      have raises : ∃ raised, call.readBack answered none report last.store = .error raised := by
        apply exists_error_of_not_ok
        intro shown read
        have silent : commitReportOf raised = none := (keeps (by simp) read).1 raised done
        simp [reported] at silent
      obtain ⟨unresolved, same⟩ := raises
      exact ⟨unresolved, by simp only [reported, same]⟩

/-- A committed call answers as if nothing had happened exactly where it names the
execution that it keeps, and an uncommitted one never reports success, unless a call that
committed since has left the node as it means to. -/
theorem uncertain_commit_resolves_iff_execution_named (call : NodeOperation)
    (answered : Time) (reachable : (taskSystem repo).Reachable system)
    (current : system.time ≤ clock.now) : (∀ outcome after,
      repo.perform clock call.operation system.store = .ok (outcome, after) →
        (repo.callUnder .committedUnknown clock answered call system.store =
            (.ok (outcome.answeredAt answered), after) ↔ call.NamesExecution system.store)) ∧
    ∀ ending, Uncommitted ending system.store
        (repo.perform clock call.operation system.store) →
      ∀ calls last, Machine.Run ((taskSystem repo).restrict
          (call.Unrepeated (call.writtenFence system.store))) system calls last →
        ∃ raised, repo.answerUnder ending clock answered call system.store last.store =
          .error raised := by
  have sound := soundSystem_of_reachable reachable
  refine ⟨?_, fun _ uncommitted _ _ run =>
    answerUnder_uncommitted reachable uncommitted run⟩
  intro outcome after done
  have step : (taskSystem repo).step system ⟨clock, call.operation, .ok outcome⟩
      ⟨after, clock.fresh⟩ :=
    ⟨current, rfl, by simp only [TaskRepository.respond, done]⟩
  have soundAfter := soundSystem_of_reachable (reachable.step step)
  rw [← TaskRepository.readBack_committed answered .commitUnknown sound soundAfter
    done, TaskRepository.callUnder, done]
  simp only [Prod.mk.injEq, and_true]

/-- A recovery mark of the bound node, with or without its execution id. -/
def sampleMark (executionId : Option String) : NodeOperation :=
  .markRecoveryRequired
    { lease := some firstLease, tenantId := "tenant"
      errorCode := "TASK_EFFECT_UNKNOWN", errorDigest := sampleError
      executionId := executionId }

def sampleAdmitted : System := sampleSystem (sampleStart.take 1)

def sampleClaim : NodeOperation := .claim "graph" "a" "tenant" "worker-1" 60

theorem sampleStart_reachable :
    (taskSystem sampleRepository).Reachable (sampleSystem sampleStart) :=
  play_reachable (by decide +kernel)

theorem sampleStart_current : (sampleSystem sampleStart).time ≤ (tick 4).now := by
  decide

theorem sampleStart_running :
    ((sampleSystem sampleStart).store.nodeAt "graph" "a").map NodeEntry.status =
      some .running := by decide

theorem sampleMark_performed (executionId : Option String)
    (known : executionId = none ∨ executionId = some "exec-1") :
    ∃ outcome after, sampleRepository.perform (tick 4)
        (sampleMark executionId).operation (sampleSystem sampleStart).store = .ok (outcome, after) ∧
      (after.nodeAt "graph" "a").map NodeEntry.status = some .recoveryRequired := by
  have performed : ((sampleRepository.perform (tick 4) (sampleMark executionId).operation
      (sampleSystem sampleStart).store).toOption.bind fun pair =>
        (pair.2.nodeAt "graph" "a").map NodeEntry.status) = some .recoveryRequired := by
    rcases known with rfl | rfl <;> decide +kernel
  obtain ⟨⟨outcome, after⟩, done, status⟩ := Option.bind_eq_some_iff.mp performed
  exact ⟨outcome, after, toOption_eq_some.mp done, status⟩

/-- A mark that names the bound execution resolves, and raises where it is dropped, also
when the lease is renewed before the read-back. -/
theorem sample_named_mark_resolves : ∃ (outcome : Outcome) (after : Store),
      sampleRepository.callUnder .committedUnknown (tick 4) 5
          (sampleMark (some "exec-1")) (sampleSystem sampleStart).store =
        (.ok (outcome.answeredAt 5), after) ∧
      ∃ raised, sampleRepository.answerUnder (.dropped .commitUnknown) (tick 4) 5
          (sampleMark (some "exec-1")) (sampleSystem sampleStart).store
          (sampleRepository.next (sampleSystem sampleStart) (tick 5)
            (.renew firstLease "tenant" 60)).store = .error raised := by
  obtain ⟨outcome, after, done, status⟩ := sampleMark_performed (some "exec-1") (.inr rfl)
  obtain ⟨resolves, raises⟩ := uncertain_commit_resolves_iff_execution_named
    (sampleMark (some "exec-1")) 5 sampleStart_reachable sampleStart_current
  refine ⟨outcome, after, (resolves outcome after done).mpr ?_, raises _ ?_ _ _
    (.single ⟨TaskRepository.step_next (by decide), ?_⟩)⟩
  · intro place node _ _ _
    simp
  · intro other left performed
    refine ⟨⟨_, rfl⟩, ?_⟩
    rintro rfl
    rw [done, Except.ok.injEq, Prod.mk.injEq] at performed
    rw [performed.2, sampleStart_running] at status
    cases status
  · rintro _ _ ⟨_, _, _, _, _, ⟨⟨⟩, _⟩ | ⟨_, ⟨⟩, _⟩, _⟩

/-- A mark without an execution id is committed and yet raises; and a claim whose transaction
was dropped takes a later claim of its owner for its own. -/
theorem unnamed_mark_commit_not_resolved :
    (¬∀ (repo : TaskRepository) (system : System) (clock : Clock) (answered : Time)
      (call : NodeOperation) (outcome : Outcome) (after : Store),
      (taskSystem repo).Reachable system → system.time ≤ clock.now →
      repo.perform clock call.operation system.store = .ok (outcome, after) →
      repo.callUnder .committedUnknown clock answered call system.store =
        (.ok (outcome.answeredAt answered), after)) ∧
    ¬∀ (repo : TaskRepository) (system last : System) (clock : Clock) (answered : Time)
      (call : NodeOperation) (ending : Ending) (calls : List Call),
      (taskSystem repo).Reachable system →
      Uncommitted ending system.store (repo.perform clock call.operation system.store) →
      Machine.Run (taskSystem repo) system calls last →
      ∃ raised, repo.answerUnder ending clock answered call system.store last.store =
        .error raised := by
  constructor
  · intro resolves
    obtain ⟨outcome, after, done, _⟩ := sampleMark_performed none (.inl rfl)
    have resolved := resolves _ _ _ 5 _ _ _ sampleStart_reachable sampleStart_current done
    have raised : (sampleRepository.callUnder .committedUnknown (tick 4) 5
        (sampleMark none) (sampleSystem sampleStart).store).1.isOk = false := by
      decide +kernel
    rw [resolved] at raised
    cases raised
  · intro raises
    have step : (taskSystem sampleRepository).step sampleAdmitted _ (sampleRepository.next
        sampleAdmitted (tick 3) sampleClaim.operation) := TaskRepository.step_next (by decide)
    have performed : ((sampleRepository.perform (tick 2) sampleClaim.operation
        sampleAdmitted.store).toOption.bind fun pair =>
          (pair.2.nodeAt "graph" "a").map NodeEntry.status) = some .running := by decide +kernel
    obtain ⟨raised, same⟩ := raises sampleRepository sampleAdmitted _ (tick 2) 5 sampleClaim
      (.dropped .commitUnknown) _ (play_reachable (by decide +kernel)) (by
        intro outcome after done
        refine ⟨⟨_, rfl⟩, ?_⟩
        rintro rfl
        rw [done] at performed
        change (sampleAdmitted.store.nodeAt "graph" "a").map NodeEntry.status = some .running
          at performed
        exact absurd performed (by decide))
      (.single step)
    have answered : (sampleRepository.answerUnder (.dropped .commitUnknown) (tick 2) 5 sampleClaim
        sampleAdmitted.store (sampleRepository.next sampleAdmitted (tick 3)
          sampleClaim.operation).store).isOk = true := by decide +kernel
    rw [same] at answered
    cases answered

end Linktools.Persistence
