import Linktools.Persistence.SubmissionStages

namespace Linktools.Persistence

open Linktools.Core Library Linktools.Task SubmissionOperation List

variable {repo : TaskRepository} {first last : System} {calls : List Call}
  {before after records : TaskGraphRecords} {graphId : String}

theorem run_admission (reachable : (taskSystem repo).Reachable first)
    (run : Machine.Run (taskSystem repo) first calls last) :
    GraphsRelated (fun before after => after.admission = before.admission) first last :=
  run_graphHistory (fun _ => rfl) (fun _ _ _ left right => right.trans left)
    (fun _ _ _ _ _ _ _ _ committed => committed.admission) reachable run

theorem run_rowsDescend (reachable : (taskSystem repo).Reachable first)
    (run : Machine.Run (taskSystem repo) first calls last) :
    GraphsRelated RowsDescend first last :=
  run_graphHistory .refl .trans
    (fun _ _ _ _ _ _ sound permitted committed => committed.rowsDescend permitted sound)
    reachable run

theorem activeNodes_eq (now : Time) (nodes : List NodeEntry) :
    TaskRepository.activeNodes now nodes = nodes.countP (fun node => node.status = .running ∧
        ∃ expires ∈ node.state.leaseExpiresAt, now < expires) + nodes.countP fun node =>
        node.status = .waiting ∧ node.state.occupiesConcurrency = true := by
  apply countP_of_apart
  · intro node
    rw [Bool.eq_iff_iff, Bool.or_eq_true, decide_eq_true_eq, decide_eq_true_eq, decide_eq_true_eq]
    exact or_comm
  · intro node live
    have running : node.status = .running := (of_decide_eq_true live).1
    simp [running]

/-- At no time of a run, nor later, do more nodes hold a slot than were admitted. -/
theorem concurrency_within_admitted_limit {moment : Time}
    (reachable : (taskSystem repo).Reachable first)
    (run : Machine.Run (taskSystem repo) first calls last)
    (found : first.store.graphs graphId = some before) (current : last.time ≤ moment) :
    ∃ after, last.store.graphs graphId = some after ∧ after.nodes.countP (fun node =>
          node.status = .running ∧ ∃ expires ∈ node.state.leaseExpiresAt, moment < expires) +
        after.nodes.countP (fun node =>
          node.status = .waiting ∧ node.state.occupiesConcurrency = true) ≤
      before.admission.limits.maxConcurrency := by
  obtain ⟨after, foundAfter, admission⟩ := run_admission reachable run graphId before found
  refine ⟨after, foundAfter, ?_⟩
  have slots := (soundGraph_of_reachable (reachable.run run) foundAfter).slots moment current
  rw [activeNodes_eq, admission] at slots
  exact slots

/-- One of the two nodes holds a slot of the eight. -/
theorem sample_concurrency_within_limit :
    ∃ after, (sampleSystem sampleStart).store.graphs "graph" = some after ∧
      after.nodes.countP (fun node =>
          node.status = .running ∧ ∃ expires ∈ node.state.leaseExpiresAt, (5 : Time) < expires) +
        after.nodes.countP (fun node =>
          node.status = .waiting ∧ node.state.occupiesConcurrency = true) ≤ 8 := by
  have admitted : ((sampleSystem (sampleStart.take 1)).store.graphs "graph").map
      (fun records => records.admission.limits.maxConcurrency) = some 8 := by
    decide +kernel
  obtain ⟨before, found, limit⟩ := Option.map_eq_some_iff.mp admitted
  rw [← limit]
  exact concurrency_within_admitted_limit (play_reachable (by decide +kernel))
    (TaskRepository.play_run (by decide +kernel)) found (by decide +kernel)

/-- A graph's definitions have distinct ids, known dependencies, no cycle, and a size,
depth and budget within the limits. -/
structure WithinLimits (definitions : List TaskNode) (limits : TaskGraphLimits) : Prop where
  distinct : (definitions.map TaskNode.nodeId).Nodup
  closed : ∀ node ∈ definitions, ∀ dependency ∈ node.dependencies,
    dependency ∈ definitions.map TaskNode.nodeId
  acyclic : ∀ nodeId ∈ definitions.map TaskNode.nodeId, ¬Relation.TransGen
      (fun earlier later => earlier ∈ dependenciesOf definitions later) nodeId nodeId
  size : definitions.length ≤ limits.maxNodes
  depth : ∀ chain, DependencyChain definitions chain → chain.length ≤ limits.maxDepth
  budget : (definitions.map TaskNode.budgetCost).sum ≤ limits.maxBudget

theorem WellFormed.withinLimits (formed : WellFormed records) :
    WithinLimits records.definitions records.admission.limits := by
  obtain ⟨graph, same, valid⟩ := formed
  obtain ⟨size, budget, depth⟩ := TaskGraph.validateLimits_ok valid
  have ids : ∀ nodeId, nodeId ∈ graph.nodes.map TaskNode.nodeId ↔
      nodeId ∈ records.definitions.map TaskNode.nodeId := fun _ =>
    (same.map TaskNode.nodeId).mem_iff
  have dependencies := dependenciesOf_perm graph.ids_nodup same
  exact
    { distinct := (same.map TaskNode.nodeId).nodup_iff.mp graph.ids_nodup
      closed := fun node member dependency depends =>
        (ids dependency).mp (graph.closed node (same.mem_iff.mpr member) dependency depends)
      acyclic := fun nodeId member => dependencies ▸ graph.acyclic ((ids nodeId).mpr member)
      size := same.length_eq ▸ size
      depth := fun chain linked => depth chain
        ⟨dependencies ▸ linked.1, fun nodeId member => (ids nodeId).mpr (linked.2 nodeId member)⟩
      budget := (same.map TaskNode.budgetCost).sum_nat ▸ budget }

/-- Whatever a run adds to a graph, the graph stays well formed within the limits of its
admission, keeps its definitions, and leaves its terminal nodes as they are. -/
theorem expansion_keeps_graph_well_formed (reachable : (taskSystem repo).Reachable first)
    (run : Machine.Run (taskSystem repo) first calls last)
    (found : first.store.graphs graphId = some before) :
    ∃ after, last.store.graphs graphId = some after ∧
      WithinLimits after.definitions before.admission.limits ∧
      ∀ nodeId node, before.entryAt nodeId = some node →
        ∃ value, after.entryAt nodeId = some value ∧
          value.definition = node.definition ∧ (node.status.Terminal → value = node) := by
  obtain ⟨after, foundAfter, admission⟩ := run_admission reachable run graphId before found
  obtain ⟨same, foundSame, descend⟩ := run_rowsDescend reachable run graphId before found
  obtain rfl : after = same := Option.some.inj (foundAfter.symm.trans foundSame)
  refine ⟨after, foundAfter, ?_, ?_⟩
  · rw [← admission]
    exact (soundGraph_of_reachable (reachable.run run) foundAfter).formed.withinLimits
  · intro nodeId node stored
    obtain ⟨value, storedValue, descends⟩ := descend nodeId node stored
    exact ⟨value, storedValue, descends.definition, descends.frozen⟩

def sampleExpansion : List (Clock × Operation) :=
  [(tick 4, .complete
    { lease := some firstLease, tenantId := "tenant", executionId := some "exec-1"
      resultDigest := sampleResult, expandedNodes := [sampleNode "c" none (by decide)] })]

theorem sample_expansion_well_formed : ∃ after, (sampleRepository.play (sampleSystem sampleStart)
        sampleExpansion).2.store.graphs "graph" = some after ∧
      after.nodes.map NodeEntry.nodeId = ["a", "b", "c"] ∧ WithinLimits after.definitions {} := by
  have admitted : ((sampleSystem sampleStart).store.graphs "graph").map
      (fun records => (records.admission.limits.maxNodes, records.admission.limits.maxDepth,
        records.admission.limits.maxBudget)) = some (128, 8, 1000) := by
    decide +kernel
  have grown : ((sampleRepository.play (sampleSystem sampleStart)
      sampleExpansion).2.store.graphs "graph").map
        (fun records => records.nodes.map NodeEntry.nodeId) = some ["a", "b", "c"] := by
    decide +kernel
  obtain ⟨before, found, limits⟩ := Option.map_eq_some_iff.mp admitted
  have paced : TaskRepository.Paced (sampleSystem sampleStart).time sampleExpansion := by
    decide +kernel
  have reachable : (taskSystem sampleRepository).Reachable (sampleSystem sampleStart) :=
    play_reachable (by decide +kernel)
  obtain ⟨after, foundAfter, within, _⟩ := expansion_keeps_graph_well_formed reachable
    (TaskRepository.play_run paced) found
  rw [foundAfter, Option.map_some, Option.some.injEq] at grown
  simp only [Prod.mk.injEq] at limits
  obtain ⟨maxNodes, maxDepth, maxBudget⟩ := limits
  exact ⟨after, foundAfter, grown,
    { within with
      size := within.size.trans_eq maxNodes
      depth := fun chain linked => (within.depth chain linked).trans_eq maxDepth
      budget := within.budget.trans_eq maxBudget }⟩

variable {start middle system : System} {earlier later : List Call} {call : Call}
  {view : TaskGraphView} {submission : TaskSubmissionRef}

theorem step_stageStep (reachable : (taskSystem repo).Reachable first)
    (step : (taskSystem repo).step first call last) : StageStep first.store last.store := by
  rcases TaskRepository.respond_cases step.2.2 with ⟨_, _, done⟩ | ⟨_, _, same⟩
  · exact TaskRepository.perform_stageStep (soundSystem_of_reachable reachable).wellKeyed done
  · rw [same]
    exact .of_frame rfl rfl fun _ => rfl

def SubmissionsStaged (system : System) : Prop :=
  ∀ graphId, ∃ stage, system.store.AtStage graphId stage

theorem submissionsStaged_of_reachable
    (reachable : (taskSystem repo).Reachable system) : SubmissionsStaged system := by
  apply reachable.invariant
  · intro state initial graphId
    rw [show state.store = .empty from initial]
    exact ⟨.unseen, rfl, rfl, rfl⟩
  · intro first call last reachable staged step graphId
    obtain ⟨stage, here⟩ := staged graphId
    obtain ⟨next, _, reached⟩ := step_stageStep reachable step graphId stage here
    exact ⟨next, reached⟩

theorem run_withdrawn (reachable : (taskSystem repo).Reachable first)
    (run : Machine.Run (taskSystem repo) first calls last)
    (withdrawn : first.store.AtStage graphId (.withdrawn submission)) :
    last.store.AtStage graphId (.withdrawn submission) := by
  induction run with
  | nil => exact withdrawn
  | cons step _ ih =>
    obtain ⟨next, moved, reached⟩ := step_stageStep reachable step graphId _ withdrawn
    rw [moved.of_withdrawn] at reached
    exact ih (reachable.step step) reached

def Operation.admissionOf : Operation → Option TaskGraph
  | .admitSubmission _ graph => some graph
  | .admitPrepared submission => some submission.graph
  | _ => none

/-- The call is a committed admission of the graph, or a replay of one. -/
structure Call.Admits (call : Call) (graphId : String) (view : TaskGraphView) : Prop where
  asked : ∃ graph, call.operation.admissionOf = some graph ∧ graph.graphId = graphId
  answered : call.answer = .ok (.graph view)
  committed : view ≠ cancelledView graphId

variable {clock : Clock} {outcome : Outcome} {operation : Operation} {after store : Store}
  {graph : TaskGraph}

theorem perform_admission (keyed : WellKeyed store) (asked : operation.admissionOf = some graph)
    (done : repo.perform clock operation store = .ok (outcome, after)) :
    ∃ view, outcome = .graph view ∧ (after = store ∧ view = cancelledView graph.graphId ∨
        TaskRepository.Settles view after graph.graphId ∧
          ∀ other ≠ graph.graphId, after.graphs other = store.graphs other) := by
  cases operation <;> cases asked <;> simp only [TaskRepository.perform, presented_eq_ok] at done
  case admitSubmission =>
    obtain ⟨view, done, rfl⟩ := done
    simp only [TaskRepository.admitSubmission, bind_eq_ok] at done
    obtain ⟨_, _, _, _, _, _, admitted⟩ := done
    exact ⟨view, rfl, (TaskRepository.admitInTransaction_stageStep keyed admitted).2⟩
  case admitPrepared =>
    obtain ⟨view, done, rfl⟩ := done
    simp only [TaskRepository.admitPrepared, bind_eq_ok] at done
    obtain ⟨_, _, _, _, _, _, _, _, admitted⟩ := done
    exact ⟨view, rfl, (TaskRepository.admitInTransaction_stageStep keyed admitted).2⟩

theorem perform_presence (keyed : WellKeyed store) (asked : operation.admissionOf = none)
    (done : repo.perform clock operation store = .ok (outcome, after)) (graphId : String) :
    (after.graphs graphId).isSome = (store.graphs graphId).isSome := by
  by_cases changes : operation.changesGraph = true
  · exact ((TaskRepository.perform_oneGraph keyed changes done).presence keyed).2.2 graphId
  suffices same : after.graphs = store.graphs by rw [same]
  cases operation <;> try exact absurd rfl changes
  all_goals
    simp only [TaskRepository.perform, presented_eq_ok] at done
    obtain ⟨value, done, _⟩ := done
  case prepare => exact TaskRepository.prepareWithDisposition_graphs done
  case admitSubmission => cases asked
  case admitPrepared => cases asked
  case cancelSubmission => exact TaskRepository.cancelSubmission_graphs done
  case registerCancelRequest => exact TaskRepository.registerCancelRequest_graphs done
  case compareAndSwap => exact TaskRepository.compareAndSwap_graphs done
  case append => exact TaskRepository.append_graphs done
  case compactTerminal => exact TaskRepository.compactTerminal_graphs done

section

variable (reachable : (taskSystem repo).Reachable first)
include reachable

section

variable (step : (taskSystem repo).step first call last)
include step

theorem step_admits
    (admits : call.Admits graphId view) : ∃ records, last.store.graphs graphId = some records ∧
      view.nodes.Perm records.definitions := by
  obtain ⟨graph, asked, rfl⟩ := admits.asked
  rcases TaskRepository.respond_cases step.2.2 with ⟨outcome, answered, done⟩ |
    ⟨raised, answered, _⟩
  · obtain ⟨found, rfl, cancelled | ⟨settled, _⟩⟩ := perform_admission
      (soundSystem_of_reachable reachable).wellKeyed asked done
    · cases answered.symm.trans admits.answered
      exact absurd cancelled.2 admits.committed
    · cases answered.symm.trans admits.answered
      exact settled.2
  · cases answered.symm.trans admits.answered

theorem step_creates (absent : first.store.graphs graphId = none)
    (stands : (last.store.graphs graphId).isSome) : ∃ view, call.Admits graphId view := by
  have keyed := (soundSystem_of_reachable reachable).wellKeyed
  rcases TaskRepository.respond_cases step.2.2 with ⟨outcome, answered, done⟩ | ⟨_, _, same⟩
  · cases asked : call.operation.admissionOf with
    | some graph =>
      obtain ⟨view, rfl, ⟨same, _⟩ | ⟨settled, others⟩⟩ := perform_admission keyed asked done
      · rw [same, absent] at stands
        cases stands
      · by_cases here : graphId = graph.graphId
        · subst here
          exact ⟨view, ⟨graph, asked, rfl⟩, answered, settled.1⟩
        · rw [others graphId here, absent] at stands
          cases stands
    | none =>
      rw [perform_presence keyed asked done graphId, absent] at stands
      cases stands
  · rw [same, absent] at stands
    cases stands

end

section

variable (run : Machine.Run (taskSystem repo) first calls last)
include run

theorem run_definitions (found : first.store.graphs graphId = some before) :
    ∃ after, last.store.graphs graphId = some after ∧
      ∀ definition ∈ before.definitions, definition ∈ after.definitions := by
  obtain ⟨after, foundAfter, descend⟩ := run_rowsDescend reachable run graphId before found
  refine ⟨after, foundAfter, fun definition member => ?_⟩
  obtain ⟨node, inside, rfl⟩ := mem_map.mp member
  have stored : before.entryAt node.nodeId = some node :=
    rowAt_of_mem (soundGraph_of_reachable reachable found).formed.distinct inside
  obtain ⟨value, storedValue, descends⟩ := descend node.nodeId node stored
  rw [← descends.definition]
  exact mem_map_of_mem (rowAt_mem storedValue)

theorem run_admits (made : call ∈ calls)
    (admits : call.Admits graphId view) : ∃ records, last.store.graphs graphId = some records ∧
      ∀ definition ∈ view.nodes, definition ∈ records.definitions := by
  induction run with
  | nil => cases made
  | cons step rest ih =>
    have reached := reachable.step step
    rcases mem_cons.mp made with rfl | later
    · obtain ⟨before, found, same⟩ := step_admits reachable step admits
      obtain ⟨after, foundAfter, kept⟩ := run_definitions reached rest found
      exact ⟨after, foundAfter, fun definition member => kept definition (same.mem_iff.mp member)⟩
    · exact ih reached later

theorem run_creates
    (absent : first.store.graphs graphId = none) (stands : (last.store.graphs graphId).isSome) :
    ∃ call ∈ calls, ∃ view, call.Admits graphId view := by
  induction run with
  | nil => simp [absent] at stands
  | @cons first middle last call calls step rest ih =>
    cases between : middle.store.graphs graphId with
    | none =>
      obtain ⟨found, member, admits⟩ := ih (reachable.step step) between stands
      exact ⟨found, mem_cons_of_mem _ member, admits⟩
    | some records =>
      exact ⟨call, mem_cons_self, step_creates reachable step absent (by rw [between]; rfl)⟩

end

end

/-- The submission was cancelled before its graph was admitted: whoever asks for the
admission is answered by the cancelled view, however the call ends. -/
structure Withdrawn (repo : TaskRepository) (submission : TaskSubmissionRef)
    (store : Store) : Prop where
  head : store.submissions submission.graphId = some (submission, .cancelled)
  absent : store.graphs submission.graphId = none
  answered : ∀ candidate : TaskGraphSubmission, candidate.ref = submission →
    candidate.check repo.sha256 = .ok () → ∀ (ending : Ending) (clock : Clock),
      repo.submitUnder ending clock (.admitPrepared candidate) store =
          (.ok (.graph (cancelledView submission.graphId)), store) ∧
        repo.submitUnder ending clock
            (.admitSubmission candidate.admission candidate.graph) store =
          (.ok (.graph (cancelledView submission.graphId)), store)

section Withdrawal

variable {candidate : TaskGraphSubmission} (namespaceId : candidate.namespaceId = repo.namespaceId)
  (tenantId : candidate.admission.principal.tenantId = repo.tenantId)
  (valid : candidate.check repo.sha256 = .ok ())
  (head : store.submissions candidate.ref.graphId = some (candidate.ref, .cancelled))
  (absent : store.graphs candidate.ref.graphId = none)

include namespaceId tenantId valid in
theorem validate_admissions : validate repo (.admitPrepared candidate) = .ok () ∧
      validate repo (.admitSubmission candidate.admission candidate.graph) = .ok () := by
  simp only [TaskGraphSubmission.check, bind_eq_ok] at valid
  obtain ⟨_, _, launch, launched, graphValid⟩ := valid
  have principal : launch.principal = candidate.admission.principal := by
    simp only [TaskGraphAdmission.launch, bind_eq_ok, pure_eq_ok] at launched
    obtain ⟨_, _, rfl⟩ := launched
    rfl
  constructor
  · simp only [validate, TaskRepository.requireTenant, bind_eq_ok, refuse_eq_ok, not_not]
    exact ⟨(), namespaceId, (), graphValid, launch, launched, principal ▸ tenantId⟩
  · simp only [validate, TaskRepository.requireTenant, bind_eq_ok, refuse_eq_ok, not_not]
    exact ⟨(), graphValid, launch, launched, principal ▸ tenantId⟩

include namespaceId tenantId head in
theorem withdrawn_head :
    repo.submissionInTransaction store candidate.ref = .ok (some .cancelled) :=
  TaskRepository.submissionInTransaction_eq_ok.mpr ⟨namespaceId, tenantId, head⟩

include namespaceId tenantId valid head absent in
theorem withdrawn_admitInTransaction (clock : Clock) (requirePrepared : Bool) :
    repo.admitInTransaction clock candidate.admission candidate.graph
      requirePrepared store = .ok (cancelledView candidate.ref.graphId, store) := by
  have sameId : candidate.graph.graphId = candidate.ref.graphId :=
    TaskRepository.check_ok_graphId valid
  have built : TaskGraphSubmission.mk repo.namespaceId candidate.admission
      candidate.graph = candidate := by
    rw [← namespaceId]
  rw [TaskRepository.admitInTransaction]
  simp only [built, bind_eq_ok]
  refine ⟨(), valid, _, withdrawn_head namespaceId tenantId head, ?_⟩
  simp only [sameId, absent, if_true]
  rfl

include namespaceId tenantId valid head absent in
theorem withdrawn_readAdmission :
    repo.readAdmission candidate.admission candidate.graph store =
      .ok (.committed (cancelledView candidate.ref.graphId)) := by
  have sameId : candidate.graph.graphId = candidate.ref.graphId :=
    TaskRepository.check_ok_graphId valid
  have built : TaskGraphSubmission.mk repo.namespaceId candidate.admission
      candidate.graph = candidate := by
    rw [← namespaceId]
  rw [TaskRepository.readAdmission]
  simp only [built, bind_eq_ok]
  refine ⟨(), valid, _, withdrawn_head namespaceId tenantId head, ?_⟩
  simp only [sameId, absent, true_and, if_true]
  rfl

end Withdrawal

theorem admitPrepared_of_validated
    (validated : validate repo (.admitPrepared candidate) = .ok ()) :
    repo.admitPrepared clock candidate store =
      repo.admitInTransaction clock candidate.admission candidate.graph true store := by
  simp only [validate, bind_eq_ok] at validated
  obtain ⟨_, owner, _, graphValid, launch, launched, tenant⟩ := validated
  simp only [TaskRepository.admitPrepared, owner, graphValid, launched, tenant, ok_bind]

theorem admitSubmission_of_validated
    (validated : validate repo (.admitSubmission admission graph) = .ok ()) :
    repo.admitSubmission clock admission graph store =
      repo.admitInTransaction clock admission graph false store := by
  simp only [validate, bind_eq_ok] at validated
  obtain ⟨_, graphValid, launch, launched, tenant⟩ := validated
  simp only [TaskRepository.admitSubmission, graphValid, launched, tenant, ok_bind]

theorem submitUnder_of_committed {ending : Ending} {call : SubmissionOperation}
    (validated : call.validate repo = .ok ())
    (done : repo.perform clock call.operation store = .ok (.graph view, store))
    (readBack : call.readBack repo store = .ok (.committed (.graph view))) :
    repo.submitUnder ending clock call store = (.ok (.graph view), store) := by
  simp only [TaskRepository.submitUnder, validated, done, readBack]
  cases ending <;> rfl

theorem Store.AtStage.withdrawn (here : store.AtStage submission.graphId (.withdrawn submission))
    (namespaceId : submission.namespaceId = repo.namespaceId)
    (tenantId : submission.tenantId = repo.tenantId) :
    Withdrawn repo submission store := by
  have absent : store.graphs submission.graphId = none :=
    Option.not_isSome_iff_eq_none.mp (by simp [here.graph, SubmissionStage.holdsGraph])
  refine ⟨here.head, absent, ?_⟩
  rintro candidate rfl valid ending clock
  obtain ⟨prepared, direct⟩ := validate_admissions namespaceId tenantId valid
  have admitted := withdrawn_admitInTransaction namespaceId tenantId valid here.head absent clock
  have read := withdrawn_readAdmission namespaceId tenantId valid here.head absent
  constructor
  · apply submitUnder_of_committed prepared
    · exact presented_eq_ok.mpr
        ⟨_, (admitPrepared_of_validated prepared).trans (admitted true), rfl⟩
    · simp only [readBack, read]
      rfl
  · apply submitUnder_of_committed direct
    · exact presented_eq_ok.mpr
        ⟨_, (admitSubmission_of_validated direct).trans (admitted false), rfl⟩
    · simp only [readBack, read]
      rfl

inductive SubmissionState.Moves : SubmissionState → SubmissionState → Prop
  | accept : Moves .prepared .admitted
  | withdraw : Moves .prepared .cancelled
  | cancel : Moves .admitted .cancelled

theorem SubmissionStage.Moves.head {stage next : SubmissionStage} (moved : stage.Moves next)
    (stored : stage.head = some (ref, state)) :
    ∃ state', next.head = some (ref, state') ∧ (state' = state ∨ state.Moves state') := by
  cases moved with
  | stay => exact ⟨state, stored, .inl rfl⟩
  | prepare => cases stored
  | admitUnseen => cases stored
  | withdrawUnseen => cases stored
  | admitPrepared =>
    cases stored
    exact ⟨.admitted, rfl, .inr .accept⟩
  | withdrawPrepared =>
    cases stored
    exact ⟨.cancelled, rfl, .inr .withdraw⟩
  | cancelAdmitted =>
    cases stored
    exact ⟨.cancelled, rfl, .inr .cancel⟩

theorem step_withdraws {operation : OperationLedgerInput}
    (reachable : (taskSystem repo).Reachable first)
    (step : (taskSystem repo).step first call last)
    (asked : call.operation = .cancelSubmission submission operation)
    (answered : call.answer = .ok outcome) (absent : first.store.graphs submission.graphId = none) :
    last.store.AtStage submission.graphId (.withdrawn submission) ∧
      submission.namespaceId = repo.namespaceId ∧
      submission.tenantId = repo.tenantId := by
  rcases TaskRepository.respond_cases step.2.2 with ⟨_, _, done⟩ | ⟨_, refused, _⟩
  · rw [asked] at done
    obtain ⟨_, done, _⟩ := presented_eq_ok.mp done
    obtain ⟨stepped, head, owned⟩ := TaskRepository.cancelSubmission_ok done
    obtain ⟨stage, here⟩ := submissionsStaged_of_reachable reachable submission.graphId
    obtain ⟨next, _, reached⟩ := stepped submission.graphId stage here
    refine ⟨?_, owned⟩
    rcases SubmissionStage.head_eq_cancelled.mp (reached.head.symm.trans head) with
      rfl | rfl
    · have graph := reached.graph
      rw [TaskRepository.cancelSubmission_graphs done, absent] at graph
      cases graph
    · exact reached
  · cases answered.symm.trans refused

/-- Along every run a submission's head moves forward only, its payload is stored exactly
while it is prepared, its graph stands with its nodes exactly when an admission has
committed, and a cancellation that commits first is final. -/
theorem submission_lifecycle (initial : (taskSystem repo).initial start)
    (before : Machine.Run (taskSystem repo) start earlier first)
    (step : (taskSystem repo).step first call middle)
    (after : Machine.Run (taskSystem repo) middle later last) :
    (∀ graphId ref state, first.store.submissions graphId = some (ref, state) →
      ∃ state', middle.store.submissions graphId = some (ref, state') ∧
        (state' = state ∨ state.Moves state')) ∧ (∀ graphId, (first.store.payloads graphId).isSome ↔
      ∃ ref, first.store.submissions graphId = some (ref, .prepared)) ∧
    (∀ graphId, (first.store.graphs graphId).isSome ↔
      ∃ admission ∈ earlier, ∃ view, admission.Admits graphId view) ∧
    (∀ graphId, ∀ admission ∈ earlier, ∀ view, admission.Admits graphId view →
      ∃ records, first.store.graphs graphId = some records ∧
        ∀ definition ∈ view.nodes, definition ∈ records.definitions) ∧
    ∀ submission operation outcome, call.operation = .cancelSubmission submission operation →
      call.answer = .ok outcome →
      (¬∃ admission ∈ earlier, ∃ view, admission.Admits submission.graphId view) →
      Withdrawn repo submission last.store := by
  have startReachable : (taskSystem repo).Reachable start := .of_initial initial
  have reachable := startReachable.run before
  have empty : ∀ graphId, start.store.graphs graphId = none := by
    intro graphId
    rw [show start.store = .empty from initial]
    rfl
  have stands : ∀ graphId, (first.store.graphs graphId).isSome ↔
      ∃ admission ∈ earlier, ∃ view, admission.Admits graphId view := by
    intro graphId
    constructor
    · exact run_creates startReachable before (empty graphId)
    · rintro ⟨admission, made, view, admits⟩
      obtain ⟨records, found, _⟩ := run_admits startReachable before made admits
      rw [found]
      rfl
  refine ⟨?_, ?_, stands, ?_, ?_⟩
  · intro graphId ref state stored
    obtain ⟨stage, here⟩ := submissionsStaged_of_reachable reachable graphId
    obtain ⟨next, moved, reached⟩ := step_stageStep reachable step graphId stage here
    rw [reached.head]
    exact moved.head (here.head ▸ stored)
  · intro graphId
    obtain ⟨stage, here⟩ := submissionsStaged_of_reachable reachable graphId
    rw [here.head, here.payload]
    exact SubmissionStage.payload_isSome
  · intro graphId admission made view admits
    exact run_admits startReachable before made admits
  · intro submission operation outcome asked answered unadmitted
    rw [← stands, Option.not_isSome_iff_eq_none] at unadmitted
    obtain ⟨withdrawn, namespaceId, tenantId⟩ :=
      step_withdraws reachable step asked answered unadmitted
    exact (run_withdrawn (reachable.step step) after withdrawn).withdrawn namespaceId tenantId

def sampleSubmission : TaskGraphSubmission := ⟨"runtime", sampleAdmission, sampleGraph⟩

def sampleWithdrawal : OperationLedgerInput where
  operationId := "withdraw-1"
  tenantId := "tenant"
  resourceKind := .taskGraph
  resourceId := "graph"
  executionId := none
  operationKind := .taskCancel
  status := .pending
  requestDigest := sampleResult
  resultRef := none
  resultDigest := none
  errorCode := none
  compactable := false
  createdAt := 2
  updatedAt := 2

/-- The submission is prepared and withdrawn; its admission is then refused twice. -/
theorem sample_submission_withdrawn :
    let system := sampleSystem [(tick 1, .prepare sampleSubmission),
      (tick 2, .cancelSubmission sampleSubmission.ref sampleWithdrawal),
      (tick 3, .admitPrepared sampleSubmission)]
    system.store.graphs "graph" = none ∧ sampleRepository.submitUnder .committedUnknown (tick 4)
          (.admitSubmission sampleAdmission sampleGraph) system.store =
        (.ok (.graph (cancelledView "graph")), system.store) := by
  intro system
  let first := (sampleRepository.play emptySystem [(tick 1, .prepare sampleSubmission)]).2
  let cancel : Operation := .cancelSubmission sampleSubmission.ref sampleWithdrawal
  let middle := sampleRepository.next first (tick 2) cancel
  have withdrawnOk :
      (sampleRepository.called first (tick 2) cancel).answer.toOption.isSome = true := by
    decide +kernel
  obtain ⟨outcome, answered⟩ := Option.isSome_iff_exists.mp withdrawnOk
  have initial : (taskSystem sampleRepository).initial emptySystem := rfl
  have before : Machine.Run (taskSystem sampleRepository) emptySystem
      (sampleRepository.play emptySystem [(tick 1, .prepare sampleSubmission)]).1 first :=
    TaskRepository.play_run (by decide +kernel)
  have step : (taskSystem sampleRepository).step first
      (sampleRepository.called first (tick 2) cancel) middle :=
    TaskRepository.step_next (show first.time ≤ 2 by decide +kernel)
  have after : Machine.Run (taskSystem sampleRepository) middle
      (sampleRepository.play middle [(tick 3, .admitPrepared sampleSubmission)]).1 system :=
    TaskRepository.play_run (show TaskRepository.Paced 2 _ by decide +kernel)
  have withdrawn : Withdrawn sampleRepository sampleSubmission.ref system.store := by
    apply (submission_lifecycle initial before step after).2.2.2.2 sampleSubmission.ref
      sampleWithdrawal outcome rfl (toOption_eq_some.mp answered)
    rintro ⟨admission, made, view, ⟨graph, asked, _⟩, _, _⟩
    cases mem_singleton.mp made
    cases asked
  have valid : sampleSubmission.check sampleRepository.sha256 = .ok () := by
    apply toOption_eq_some.mp
    decide +kernel
  exact ⟨withdrawn.absent,
    (withdrawn.answered sampleSubmission rfl valid .committedUnknown (tick 4)).2⟩

end Linktools.Persistence
