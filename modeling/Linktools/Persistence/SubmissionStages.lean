import Linktools.Persistence.ReadbackAnswers

namespace Linktools.Persistence

open Library Linktools.Task Function

/-! The stages of a submission, and the moves that calls make between them. -/

/-- How far a submission has come; a withdrawn one was cancelled before any admission. -/
inductive SubmissionStage
  | unseen
  | prepared (submission : TaskGraphSubmission)
  | admitted (ref : TaskSubmissionRef)
  | cancelled (ref : TaskSubmissionRef)
  | withdrawn (ref : TaskSubmissionRef)

namespace SubmissionStage

def head : SubmissionStage → Option (TaskSubmissionRef × SubmissionState)
  | unseen => none
  | prepared submission => some (submission.ref, .prepared)
  | admitted ref => some (ref, .admitted)
  | cancelled ref => some (ref, .cancelled)
  | withdrawn ref => some (ref, .cancelled)

def payload : SubmissionStage → Option TaskGraphSubmission
  | prepared submission => some submission
  | _ => none

def holdsGraph : SubmissionStage → Bool
  | admitted _ | cancelled _ => true
  | _ => false

inductive Moves : SubmissionStage → SubmissionStage → Prop
  | stay (stage : SubmissionStage) : Moves stage stage
  | prepare (submission : TaskGraphSubmission) : Moves unseen (prepared submission)
  | admitUnseen (ref : TaskSubmissionRef) : Moves unseen (admitted ref)
  | withdrawUnseen (ref : TaskSubmissionRef) : Moves unseen (withdrawn ref)
  | admitPrepared (submission : TaskGraphSubmission) :
      Moves (prepared submission) (admitted submission.ref)
  | withdrawPrepared (submission : TaskGraphSubmission) :
      Moves (prepared submission) (withdrawn submission.ref)
  | cancelAdmitted (ref : TaskSubmissionRef) : Moves (admitted ref) (cancelled ref)

variable {stage next : SubmissionStage} {ref : TaskSubmissionRef}

theorem head_eq_none : stage.head = none ↔ stage = unseen := by
  cases stage <;> simp [head]

theorem head_eq_prepared : stage.head = some (ref, .prepared) ↔
      ∃ submission, submission.ref = ref ∧ stage = prepared submission := by
  cases stage <;> simp [head]

theorem head_eq_admitted : stage.head = some (ref, .admitted) ↔ stage = admitted ref := by
  cases stage <;> simp [head]

theorem head_eq_cancelled :
    stage.head = some (ref, .cancelled) ↔ stage = cancelled ref ∨ stage = withdrawn ref := by
  cases stage <;> simp [head]

theorem payload_isSome : stage.payload.isSome ↔ ∃ ref, stage.head = some (ref, .prepared) := by
  cases stage <;> simp [payload, head]

theorem Moves.of_withdrawn (moved : (withdrawn ref).Moves next) : next = withdrawn ref := by
  cases moved
  rfl

end SubmissionStage

/-- What the store holds for a graph whose submission stands at a stage. -/
structure Store.AtStage (store : Store) (graphId : String) (stage : SubmissionStage) : Prop where
  head : store.submissions graphId = stage.head
  payload : store.payloads graphId = stage.payload
  graph : (store.graphs graphId).isSome = stage.holdsGraph

def StageStep (before after : Store) : Prop :=
  ∀ graphId stage, before.AtStage graphId stage →
    ∃ next, stage.Moves next ∧ after.AtStage graphId next

variable {repo : TaskRepository} {before store after : Store} {graphId : String}
  {stage : SubmissionStage}

theorem Store.AtStage.of_frame (here : before.AtStage graphId stage)
    (submissions : after.submissions graphId = before.submissions graphId)
    (payloads : after.payloads graphId = before.payloads graphId)
    (graphs : (after.graphs graphId).isSome = (before.graphs graphId).isSome) :
    after.AtStage graphId stage where
  head := submissions.trans here.head
  payload := payloads.trans here.payload
  graph := graphs.trans here.graph

theorem StageStep.of_frame (submissions : after.submissions = before.submissions)
    (payloads : after.payloads = before.payloads)
    (graphs : ∀ graphId, (after.graphs graphId).isSome = (before.graphs graphId).isSome) :
    StageStep before after := by
  intro graphId stage here
  exact ⟨stage, .stay stage, here.of_frame (congrFun submissions graphId)
    (congrFun payloads graphId) (graphs graphId)⟩

theorem StageStep.of_one (graphId : String) (moved : ∀ stage, before.AtStage graphId stage →
      ∃ next, stage.Moves next ∧ after.AtStage graphId next)
    (submissions : ∀ other ≠ graphId, after.submissions other = before.submissions other)
    (payloads : ∀ other ≠ graphId, after.payloads other = before.payloads other)
    (graphs : ∀ other ≠ graphId, (after.graphs other).isSome = (before.graphs other).isSome) :
    StageStep before after := by
  intro other stage here
  by_cases same : other = graphId
  · subst same
    exact moved stage here
  · exact ⟨stage, .stay stage, here.of_frame (submissions other same)
      (payloads other same) (graphs other same)⟩

theorem OneGraphStep.presence (keyed : WellKeyed before)
    (changed : OneGraphStep clock scope before after) :
    after.submissions = before.submissions ∧ after.payloads = before.payloads ∧
      ∀ graphId, (after.graphs graphId).isSome = (before.graphs graphId).isSome := by
  obtain ⟨graphId, records, records', found, step, rfl⟩ := changed
  have sameId := step.graphId_eq.trans (keyed graphId records found).1
  refine ⟨rfl, rfl, fun other => ?_⟩
  by_cases here : other = graphId
  · rw [here, Store.putGraph_graphs_self before sameId, found]
    rfl
  · rw [Store.putGraph_graphs_of_ne before sameId here]

theorem Store.appendOperation_frame (appended : store.appendOperation value = .ok (result, after)) :
    after = { store with
      operations := after.operations, operationSequences := after.operationSequences } := by
  unfold appendOperation at appended
  split at appended
  · split at appended
    · cases appended
      rfl
    · cases appended
  · cases appended
    rfl

namespace TaskRepository

variable {graph : TaskGraph} {view : TaskGraphView} {ref : TaskSubmissionRef}
  {head : Option SubmissionState}

theorem submissionInTransaction_eq_ok : repo.submissionInTransaction store ref = .ok head ↔
      ref.namespaceId = repo.namespaceId ∧ ref.tenantId = repo.tenantId ∧
        store.submissions ref.graphId = head.map fun state => (ref, state) := by
  unfold submissionInTransaction
  cases found : store.submissions ref.graphId with
  | none =>
    simp only [bind_eq_ok, refuse_eq_ok, pure_eq_ok, not_or, not_not, exists_const]
    rw [and_assoc]
    cases head <;> simp
  | some stored =>
    obtain ⟨storedRef, state⟩ := stored
    simp only [bind_eq_ok, refuse_eq_ok, not_or, not_not, exists_const]
    constructor
    · rintro ⟨⟨sameNamespace, sameTenant⟩, _, done⟩
      refine ⟨sameNamespace, sameTenant, ?_⟩
      split at done
      case isTrue same =>
        rw [pure_eq_ok] at done
        rw [← done, same]
        rfl
      case isFalse =>
        split at done
        · split at done
          · obtain ⟨_, _, impossible⟩ := bind_eq_ok.mp done
            cases impossible
          · cases done
        · cases done
    · rintro ⟨sameNamespace, sameTenant, same⟩
      obtain ⟨state', rfl, equal⟩ := Option.map_eq_some_iff.mp same.symm
      cases equal
      exact ⟨⟨sameNamespace, sameTenant⟩, ⟨sameNamespace, sameTenant, rfl⟩, if_pos rfl⟩

variable {submission : TaskGraphSubmission}

theorem check_ok_graphId (checked : submission.check repo.sha256 = .ok done) :
    submission.graph.graphId = submission.admission.graphId :=
  (TaskGraphAdmission.validateGraph_ok (submissionCheck_ok checked)).1

theorem preparedSubmission_ref
    (done : repo.preparedSubmission store .prepared candidate = .ok submission) :
    submission.ref = candidate.ref ∧ submission.graph.graphId = submission.admission.graphId := by
  simp only [preparedSubmission, ne_eq, not_true_eq_false, if_false, bind_eq_ok,
    decodePayload, refuse_eq_ok, not_not, pure_eq_ok] at done
  obtain ⟨_, ⟨_, _, _, checked, rfl⟩, _, same, rfl⟩ := done
  exact ⟨same, check_ok_graphId checked⟩

theorem prepareWithDisposition_stageStep
    (done : repo.prepareWithDisposition submission store = .ok (result, after)) :
    StageStep store after := by
  simp only [prepareWithDisposition, bind_eq_ok] at done
  obtain ⟨_, checked, head, met, done⟩ := done
  obtain ⟨_, _, found⟩ := submissionInTransaction_eq_ok.mp met
  have sameId : submission.graph.graphId = submission.ref.graphId := check_ok_graphId checked
  split at done
  case h_1 =>
    simp only [bind_eq_ok, refuse_eq_ok, pair_eq_ok] at done
    obtain ⟨_, fresh, _, rfl⟩ := done
    simp only [not_or, not_not, sameId] at fresh ⊢
    apply StageStep.of_one submission.ref.graphId
    · intro stage here
      obtain rfl := SubmissionStage.head_eq_none.mp (here.head.symm.trans found)
      exact ⟨.prepared submission, .prepare submission,
        { head := update_self _ _ _
          payload := update_self _ _ _
          graph := here.graph }⟩
    · exact fun other different => update_of_ne different _ _
    · exact fun other different => update_of_ne different _ _
    · exact fun other _ => rfl
  case h_2 =>
    simp only [bind_eq_ok, pair_eq_ok] at done
    obtain ⟨_, _, _, rfl⟩ := done
    exact .of_frame rfl rfl fun _ => rfl

theorem isolatedGraphStatus_of_empty (computed : isolatedGraphStatus [] definitions = .ok status) :
    status ≠ .cancelled := by
  simp only [isolatedGraphStatus, bind_eq_ok, pure_eq_ok] at computed
  obtain ⟨_, _, rfl⟩ := computed
  simp [aggregateGraphStatus]

theorem effectiveGraphStatus_of_empty {graph : TaskGraphView}
    (computed : effectiveGraphStatus graph [] = .ok status) : status ≠ .cancelled := by
  simp only [effectiveGraphStatus, bind_eq_ok] at computed
  obtain ⟨isolated, isolatedOk, rest⟩ := computed
  have settled := isolatedGraphStatus_of_empty isolatedOk
  split at rest
  · exact pure_eq_ok.mp rest ▸ settled
  · split at rest
    · simp only [List.not_mem_nil, false_and, exists_false, and_false, if_false] at rest
      cases rest
    · exact pure_eq_ok.mp rest ▸ settled

/-- An admission that was not met by a cancellation: the graph stands with the nodes of
the view. -/
def Settles (view : TaskGraphView) (store : Store) (graphId : String) : Prop :=
  view ≠ cancelledView graphId ∧ ∃ records, store.graphs graphId = some records ∧
    view.nodes.Perm records.definitions

variable {records : TaskGraphRecords}

theorem ne_cancelledView (nodes : view.nodes.Perm records.definitions)
    (computed : records.nodes = [] → view.status ≠ .cancelled) : view ≠ cancelledView graphId := by
  rintro rfl
  have empty : records.definitions = [] := List.nil_perm.mp nodes
  exact computed (List.map_eq_nil_iff.mp empty) rfl

theorem createAdmission_settles (done : repo.createAdmission clock admission graph
    store = .ok (view, after)) :
    Settles view after graph.graphId ∧ after.submissions = store.submissions ∧
      after.payloads = store.payloads ∧
      ∀ other ≠ graph.graphId, after.graphs other = store.graphs other := by
  simp only [createAdmission, bind_eq_ok, pure_eq_ok, Prod.exists, Prod.mk.injEq] at done
  obtain ⟨nodeViews, initial, status, computed, records, appended, _, _, _, written, rfl,
    rfl⟩ := done
  have nodes : records.nodes = sortedEntries nodeViews := by
    rw [(appendTaskEvents_eq_ok.mp appended).2]
  have sameId : records.graphId = graph.graphId := by
    rw [(appendTaskEvents_eq_ok.mp appended).2]
  have sorted : (sortedEntries nodeViews).Perm nodeViews := List.perm_insertionSort _ _
  have definitions : graph.nodes.Perm records.definitions := by
    rw [← (initialNodes_ok initial).1, TaskGraphRecords.definitions, nodes]
    exact (sorted.map _).symm
  have graphs := Store.appendOperation_graphs written
  have frame := Store.appendOperation_frame written
  refine ⟨⟨ne_cancelledView definitions ?_, records, ?_, definitions⟩, ?_, ?_, ?_⟩
  · intro empty
    rw [nodes] at empty
    have none : nodeViews = [] := List.perm_nil.mp (empty ▸ sorted.symm)
    exact isolatedGraphStatus_of_empty (none ▸ computed)
  · rw [graphs]
    exact Store.putGraph_graphs_self store sameId
  · rw [frame]
    rfl
  · rw [frame]
    rfl
  · intro other different
    rw [graphs]
    exact Store.putGraph_graphs_of_ne store sameId different

theorem requireCommittedAdmission_nodes
    (done : repo.requireCommittedAdmission store records = .ok view) :
    view.nodes = records.definitions := by
  simp only [requireCommittedAdmission, bind_eq_ok, pure_eq_ok] at done
  obtain ⟨graph, built, _, _, _, _, _, _, _, _, _, _, rfl⟩ := done
  exact (TaskGraph.build_ok built).2

theorem repairAggregateProjection_ok
    (done : repairAggregateProjection clock records view = .ok (repaired, written)) :
    repaired = view ∧ written.graphId = records.graphId ∧ written.nodes = records.nodes := by
  unfold repairAggregateProjection at done
  split at done
  case isTrue =>
    cases done
    exact ⟨rfl, rfl, rfl⟩
  case isFalse =>
    simp only [bind_eq_ok, pair_eq_ok] at done
    obtain ⟨_, appended, rfl, rfl⟩ := done
    obtain ⟨_, rfl⟩ := appendTaskEvents_eq_ok.mp appended
    exact ⟨rfl, rfl, rfl⟩

variable {alreadyAdmitted : Prop}

section

variable (keyed : WellKeyed store)
include keyed

theorem admitGraph_settles [Decidable alreadyAdmitted]
    (done : repo.admitGraph clock admission graph alreadyAdmitted store = .ok (view, after)) :
    Settles view after graph.graphId ∧ after.submissions = store.submissions ∧
      after.payloads = store.payloads ∧
      ∀ other ≠ graph.graphId, after.graphs other = store.graphs other := by
  unfold admitGraph at done
  split at done
  case h_1 =>
    obtain ⟨_, _, created⟩ := bind_eq_ok.mp done
    exact createAdmission_settles created
  case h_2 => cases done
  case h_3 =>
    simp only [bind_eq_ok] at done
    obtain ⟨_, _, _, _, impossible⟩ := done
    cases impossible
  case h_4 records operation found _ =>
    simp only [bind_eq_ok, pure_eq_ok, Prod.exists, Prod.mk.injEq] at done
    obtain ⟨_, _, _, _, committedView, committed, _, _, repaired, written, repairedOk, rfl,
      rfl⟩ := done
    obtain ⟨rfl, sameId, sameNodes⟩ := repairAggregateProjection_ok repairedOk
    obtain ⟨_, _, effective⟩ := requireCommittedAdmission_ok committed
    rw [(keyed graph.graphId records found).1] at sameId
    have definitions : repaired.nodes.Perm written.definitions := by
      rw [requireCommittedAdmission_nodes committed, TaskGraphRecords.definitions,
        TaskGraphRecords.definitions, sameNodes]
    refine ⟨⟨ne_cancelledView definitions ?_, written, ?_, definitions⟩, rfl, rfl, ?_⟩
    · intro empty
      rw [← sameNodes, empty] at effective
      exact effectiveGraphStatus_of_empty effective
    · exact Store.putGraph_graphs_self store sameId
    · intro other different
      exact Store.putGraph_graphs_of_ne store sameId different

theorem admitGraph_rows [Decidable alreadyAdmitted]
    (valid : admission.validateGraph repo.sha256 graph = .ok ())
    (done : repo.admitGraph clock admission graph alreadyAdmitted store = .ok (view, after))
    (graphId : String) (records : TaskGraphRecords) (found : after.graphs graphId = some records) :
    (∃ earlier, store.graphs graphId = some earlier ∧ records.nodes = earlier.nodes) ∨
      Created clock records := by
  by_cases elsewhere : graphId ≠ graph.graphId
  · rw [(admitGraph_settles keyed done).2.2.2 graphId elsewhere] at found
    exact .inl ⟨records, found, rfl⟩
  rw [ne_eq, not_not] at elsewhere
  subst elsewhere
  unfold admitGraph at done
  split at done
  case h_1 =>
    obtain ⟨_, _, created⟩ := bind_eq_ok.mp done
    obtain ⟨made, isCreated, _, graphs⟩ := createAdmission_ok valid created
    rw [graphs, update_self] at found
    cases found
    exact .inr isCreated
  case h_2 => cases done
  case h_3 =>
    simp only [bind_eq_ok] at done
    obtain ⟨_, _, _, _, impossible⟩ := done
    cases impossible
  case h_4 earlier operation stored _ =>
    simp only [bind_eq_ok, pure_eq_ok, Prod.exists, Prod.mk.injEq] at done
    obtain ⟨_, _, _, _, _, _, _, _, _, written, repairedOk, _, rfl⟩ := done
    obtain ⟨_, sameId, sameNodes⟩ := repairAggregateProjection_ok repairedOk
    rw [(keyed graph.graphId earlier stored).1] at sameId
    rw [Store.putGraph_graphs_self store sameId] at found
    cases found
    exact .inl ⟨earlier, stored, sameNodes⟩

theorem admitInTransaction_rows
    (done : repo.admitInTransaction clock admission graph requirePrepared store =
      .ok (view, after)) (graphId : String) (records : TaskGraphRecords)
    (found : after.graphs graphId = some records) :
    (∃ earlier, store.graphs graphId = some earlier ∧ records.nodes = earlier.nodes) ∨
      Created clock records := by
  simp only [admitInTransaction, bind_eq_ok] at done
  obtain ⟨_, checked, head, _, done⟩ := done
  have valid := submissionCheck_ok checked
  split at done
  case h_1 =>
    obtain ⟨_, _, admitted⟩ := bind_eq_ok.mp done
    exact admitGraph_rows (show WellKeyed (store.setSubmission _ _) from keyed) valid admitted
      graphId records found
  case h_2 =>
    obtain ⟨prepared, preparedOk, admitted⟩ := bind_eq_ok.mp done
    exact admitGraph_rows
      (show WellKeyed ((store.setSubmission _ _).setPayload _ _) from keyed)
      (preparedSubmission_ok valid preparedOk) admitted graphId records found
  case h_3 => exact admitGraph_rows keyed valid done graphId records found
  case h_4 =>
    split at done
    · cases done
      exact .inl ⟨records, found, rfl⟩
    · exact admitGraph_rows keyed valid done graphId records found

end

theorem Settles.stageStep {opened : Store} (settled : Settles view after graphId)
    (submissions : after.submissions = opened.submissions)
    (payloads : after.payloads = opened.payloads)
    (graphs : ∀ other ≠ graphId, after.graphs other = store.graphs other)
    (opens : ∀ stage, store.AtStage graphId stage → ∃ next, stage.Moves next ∧
      opened.submissions graphId = next.head ∧ opened.payloads graphId = next.payload ∧
      next.holdsGraph = true)
    (otherSubmissions : ∀ other ≠ graphId, opened.submissions other = store.submissions other)
    (otherPayloads : ∀ other ≠ graphId, opened.payloads other = store.payloads other) :
    StageStep store after := by
  apply StageStep.of_one graphId
  · intro stage here
    obtain ⟨next, moved, head, payload, holds⟩ := opens stage here
    obtain ⟨_, records, found, _⟩ := settled
    refine ⟨next, moved, ?_, ?_, ?_⟩
    · rw [submissions, head]
    · rw [payloads, payload]
    · rw [found, holds]
      rfl
  · intro other different
    rw [submissions, otherSubmissions other different]
  · intro other different
    rw [payloads, otherPayloads other different]
  · intro other different
    rw [graphs other different]

/-- An admission is answered by the cancelled view of a withdrawn submission and changes
nothing, or the graph stands with the nodes of the view. -/
theorem admitInTransaction_stageStep (keyed : WellKeyed store)
    (done : repo.admitInTransaction clock admission graph requirePrepared store =
      .ok (view, after)) : StageStep store after ∧
      (after = store ∧ view = cancelledView graph.graphId ∨ Settles view after graph.graphId ∧
          ∀ other ≠ graph.graphId, after.graphs other = store.graphs other) := by
  simp only [admitInTransaction, bind_eq_ok] at done
  generalize built : TaskGraphSubmission.mk repo.namespaceId admission graph =
    submission at done
  obtain ⟨_, checked, head, met, done⟩ := done
  obtain ⟨_, _, found⟩ := submissionInTransaction_eq_ok.mp met
  have sameId : graph.graphId = submission.ref.graphId := by
    subst built
    exact check_ok_graphId checked
  rw [← sameId] at found
  split at done
  case h_1 =>
    obtain ⟨_, _, admitted⟩ := bind_eq_ok.mp done
    obtain ⟨settled, submissions, payloads, graphs⟩ :=
      admitGraph_settles (show WellKeyed (store.setSubmission _ _) from keyed) admitted
    refine ⟨settled.stageStep submissions payloads graphs ?_ ?_ fun _ _ => rfl,
      .inr ⟨settled, graphs⟩⟩
    · intro stage here
      obtain rfl := SubmissionStage.head_eq_none.mp (here.head.symm.trans found)
      refine ⟨.admitted submission.ref, .admitUnseen submission.ref, ?_, here.payload, rfl⟩
      rw [sameId]
      exact update_self _ _ _
    · intro other different
      rw [sameId] at different
      exact update_of_ne different _ _
  case h_2 =>
    obtain ⟨prepared, preparedOk, admitted⟩ := bind_eq_ok.mp done
    obtain ⟨sameRef, preparedId⟩ := preparedSubmission_ref preparedOk
    have samePrepared : prepared.graph.graphId = graph.graphId := by
      rw [preparedId, sameId, ← sameRef]
      rfl
    obtain ⟨settled, submissions, payloads, graphs⟩ := admitGraph_settles
      (show WellKeyed ((store.setSubmission _ _).setPayload _ _) from keyed) admitted
    rw [samePrepared] at settled graphs
    refine ⟨settled.stageStep submissions payloads graphs ?_ ?_ ?_, .inr ⟨settled, graphs⟩⟩
    · intro stage here
      obtain ⟨stored, storedRef, rfl⟩ :=
        SubmissionStage.head_eq_prepared.mp (here.head.symm.trans found)
      refine ⟨.admitted _, .admitPrepared stored, ?_, ?_, rfl⟩
      · rw [storedRef, sameId]
        exact update_self _ _ _
      · rw [← samePrepared]
        exact update_self _ _ _
    · intro other different
      rw [sameId] at different
      exact update_of_ne different _ _
    · intro other different
      rw [← samePrepared] at different
      exact update_of_ne different _ _
  case h_3 =>
    obtain ⟨settled, submissions, payloads, graphs⟩ := admitGraph_settles keyed done
    refine ⟨settled.stageStep submissions payloads graphs ?_ (fun _ _ => rfl) fun _ _ => rfl,
      .inr ⟨settled, graphs⟩⟩
    intro stage here
    obtain rfl := SubmissionStage.head_eq_admitted.mp (here.head.symm.trans found)
    exact ⟨_, .stay _, here.head, here.payload, rfl⟩
  case h_4 =>
    split at done
    case isTrue =>
      cases done
      exact ⟨.of_frame rfl rfl fun _ => rfl, .inl ⟨rfl, rfl⟩⟩
    case isFalse stands =>
      obtain ⟨settled, submissions, payloads, graphs⟩ := admitGraph_settles keyed done
      refine ⟨settled.stageStep submissions payloads graphs ?_ (fun _ _ => rfl)
        fun _ _ => rfl, .inr ⟨settled, graphs⟩⟩
      intro stage here
      have holds := here.graph
      rcases SubmissionStage.head_eq_cancelled.mp (here.head.symm.trans found) with
        rfl | rfl
      · exact ⟨_, .stay _, here.head, here.payload, rfl⟩
      · exact absurd (Option.isSome_eq_false_iff.mp holds) (by simpa using stands)

section

variable (done : repo.withdrawSubmission ref store = .ok after)
include done

theorem withdrawSubmission_ok : after = store.setSubmission ref .cancelled ∨
      after = (store.setPayload ref.graphId none).setSubmission ref .cancelled := by
  simp only [withdrawSubmission, bind_eq_ok] at done
  obtain ⟨head, _, done⟩ := done
  split at done
  · exact .inl (pure_eq_ok.mp done).symm
  · exact .inl (pure_eq_ok.mp done).symm
  · obtain ⟨_, _, written⟩ := bind_eq_ok.mp done
    exact .inl (pure_eq_ok.mp written).symm
  · simp only [bind_eq_ok, pure_eq_ok] at done
    obtain ⟨_, _, _, _, _, _, written⟩ := done
    exact .inr written.symm

theorem withdrawSubmission_owned : ref.namespaceId = repo.namespaceId ∧
    ref.tenantId = repo.tenantId := by
  simp only [withdrawSubmission, bind_eq_ok] at done
  obtain ⟨_, met, _⟩ := done
  obtain ⟨namespaceId, tenantId, _⟩ := submissionInTransaction_eq_ok.mp met
  exact ⟨namespaceId, tenantId⟩

theorem withdrawSubmission_stageStep : StageStep store after := by
  have written := withdrawSubmission_ok done
  simp only [withdrawSubmission, bind_eq_ok] at done
  obtain ⟨head, met, done⟩ := done
  obtain ⟨_, _, found⟩ := submissionInTransaction_eq_ok.mp met
  refine .of_one ref.graphId ?moved ?submissions ?payloads ?graphs
  case moved =>
    intro stage here
    have stored := here.head.symm.trans found
    split at done
    case h_1 =>
      cases pure_eq_ok.mp done
      obtain rfl := SubmissionStage.head_eq_none.mp stored
      exact ⟨.withdrawn ref, .withdrawUnseen ref, update_self _ _ _, here.payload,
        here.graph⟩
    case h_2 =>
      cases pure_eq_ok.mp done
      refine ⟨stage, .stay stage, ?_, here.payload, here.graph⟩
      exact (update_self _ _ _).trans (stored.symm ▸ rfl)
    case h_3 =>
      simp only [bind_eq_ok, refuse_eq_ok, not_not, pure_eq_ok] at done
      obtain ⟨_, stands, rfl⟩ := done
      obtain rfl := SubmissionStage.head_eq_admitted.mp stored
      exact ⟨.cancelled ref, .cancelAdmitted ref, update_self _ _ _, here.payload,
        here.graph⟩
    case h_4 =>
      simp only [bind_eq_ok, refuse_eq_ok, not_not, pure_eq_ok] at done
      obtain ⟨_, absent, _, _, _, _, rfl⟩ := done
      obtain ⟨submission, rfl, rfl⟩ := SubmissionStage.head_eq_prepared.mp stored
      exact ⟨.withdrawn _, .withdrawPrepared submission, update_self _ _ _,
        update_self _ _ _, here.graph⟩
  case submissions =>
    intro other different
    rcases written with rfl | rfl <;> exact update_of_ne different _ _
  case payloads =>
    intro other different
    rcases written with rfl | rfl
    · rfl
    · exact update_of_ne different _ _
  case graphs =>
    intro other _
    rcases written with rfl | rfl <;> rfl

end

theorem cancelSubmission_ok {operation : OperationLedgerInput}
    (done : repo.cancelSubmission ref operation store = .ok (admitted, after)) :
    StageStep store after ∧ after.submissions ref.graphId = some (ref, .cancelled) ∧
      ref.namespaceId = repo.namespaceId ∧ ref.tenantId = repo.tenantId := by
  simp only [cancelSubmission, bind_eq_ok, pure_eq_ok, Prod.exists, Prod.mk.injEq] at done
  obtain ⟨_, _, withdrawn, withdrawnOk, _, _, _, appended, rfl, rfl⟩ := done
  have frame := Store.appendOperation_frame appended
  have stepped := withdrawSubmission_stageStep withdrawnOk
  refine ⟨?_, ?_, withdrawSubmission_owned withdrawnOk⟩
  · intro graphId stage here
    obtain ⟨next, moved, reached⟩ := stepped graphId stage here
    rw [frame]
    exact ⟨next, moved, reached.head, reached.payload, reached.graph⟩
  · rw [frame]
    rcases withdrawSubmission_ok withdrawnOk with rfl | rfl <;>
      exact update_self _ _ _

theorem perform_stageStep (keyed : WellKeyed store)
    (done : repo.perform clock operation store = .ok (outcome, after)) :
    StageStep store after := by
  by_cases changes : operation.changesGraph = true
  · obtain ⟨submissions, payloads, graphs⟩ :=
      (perform_oneGraph keyed changes done).presence keyed
    exact .of_frame submissions payloads graphs
  cases operation <;> try exact absurd rfl changes
  all_goals
    simp only [perform, presented_eq_ok] at done
    obtain ⟨value, done, _⟩ := done
  case prepare => exact prepareWithDisposition_stageStep done
  case admitSubmission =>
    simp only [admitSubmission, bind_eq_ok] at done
    obtain ⟨_, _, _, _, _, _, admitted⟩ := done
    exact (admitInTransaction_stageStep keyed admitted).1
  case admitPrepared =>
    simp only [admitPrepared, bind_eq_ok] at done
    obtain ⟨_, _, _, _, _, _, _, _, admitted⟩ := done
    exact (admitInTransaction_stageStep keyed admitted).1
  case cancelSubmission => exact (cancelSubmission_ok done).1
  case registerCancelRequest =>
    simp only [registerCancelRequest, bind_eq_ok] at done
    obtain ⟨_, _, _, _, _, _, appended⟩ := done
    rw [Store.appendOperation_frame appended]
    exact .of_frame rfl rfl fun _ => rfl
  case compareAndSwap =>
    simp only [compareAndSwap, bind_eq_ok, pair_eq_ok] at done
    obtain ⟨_, _, _, _, _, _, _, _, _, _, _, _, _, rfl⟩ := done
    exact .of_frame rfl rfl fun _ => rfl
  case append =>
    simp only [append, bind_eq_ok, pure_eq_ok, Prod.exists, Prod.mk.injEq] at done
    obtain ⟨_, _, _, _, _, appended, _, rfl⟩ := done
    rw [Store.appendOperation_frame appended]
    exact .of_frame rfl rfl fun _ => rfl
  case compactTerminal =>
    simp only [compactTerminal, bind_eq_ok] at done
    obtain ⟨_, _, done⟩ := done
    split at done <;> cases done <;> exact .of_frame rfl rfl fun _ => rfl

end TaskRepository

end Linktools.Persistence
