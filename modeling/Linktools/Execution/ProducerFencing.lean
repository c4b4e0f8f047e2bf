import Linktools.Execution.IdempotencyAgreement

namespace Linktools.Execution

open Linktools.Core Library ExecutionRepository List

/-! The generations of producers: a takeover raises the record's generation, and a call that
carries an earlier one is refused. -/

namespace ExecutionCall

def TakesOver : ExecutionCall → Prop
  | .claimNextAgentRun _ _ _ _ _ _ => True
  | .claimPreparedAgentRun _ _ _ _ _ _ _ _ => True
  | .claimDeferredResume _ _ _ _ _ _ _ => True
  | .transitionRecovery _ transition => transition.resumes
  | _ => False

def generations : ExecutionCall → List Nat
  | .commitBoundary _ _ generation _ => [generation]
  | .requireExecutionProducer _ generation _ => [generation]
  | .transitionRecovery _ transition => transition.producerGeneration.toList
  | .commitCancelCheckpoint _ _ _ generation => generation.toList
  | .commitTerminal commit _ =>
    commit.execution.producerGeneration :: commit.producerGeneration.toList
  | .commitClosedTerminal commit _ =>
    commit.execution.producerGeneration :: commit.producerGeneration.toList
  | .commitTerminalCheckpoint publication =>
    publication.commit.execution.producerGeneration ::
      publication.commit.producerGeneration.toList
  | .commitRecoveryHandoff _ _ generation => [generation]
  | _ => []

end ExecutionCall

section Updates

variable {call : ExecutionCall} {current next : ExecutionRecord}
  {events : List ExecutionEventAppend}
  {row later : Option (Observed ExecutionRecord)}

theorem Update.generation_le (update : Update call current next events) :
    current.producerGeneration ≤ next.producerGeneration := by
  cases update with
  | claimed _ _ _ _ _ _ behind fields =>
    rw [fields]
    exact le_of_lt behind
  | recovered transition _ _ _ behind fields =>
    rw [fields]
    change _ ≤ ite _ _ _
    split
    case isTrue resumes => exact le_of_lt (behind resumes)
    case isFalse => exact le_refl _
  | transitioned _ _ _ fields => rw [fields]
  | ended _ _ _ _ _ fields => rw [fields]
  | swapped update => rw [update.fields]
  | started _ _ fields => rw [fields]
  | cancelRecorded _ _ _ fields => rw [fields]
  | appended _ _ _ fields => rw [fields]
  | held _ _ _ fields => rw [fields]
  | released _ _ fields => rw [fields]
  | closed _ _ _ _ fields => rw [fields]

theorem Update.generation_cases (update : Update call current next events) :
    next.producerGeneration = current.producerGeneration ∨
      next.producerGeneration ≤ next.revision := by
  cases update with
  | claimed _ _ _ _ _ _ _ fields =>
    rw [fields]
    exact .inr (Nat.le_add_right _ _)
  | recovered transition _ _ _ _ fields =>
    rw [fields]
    change ite _ _ _ = _ ∨ ite _ _ _ ≤ _
    split
    case isTrue => exact .inr (le_refl _)
    case isFalse => exact .inl rfl
  | transitioned _ _ _ fields =>
    rw [fields]
    exact .inl rfl
  | ended _ _ _ _ _ fields =>
    rw [fields]
    exact .inl rfl
  | swapped update =>
    rw [update.fields]
    exact .inl rfl
  | started _ _ fields =>
    rw [fields]
    exact .inl rfl
  | cancelRecorded _ _ _ fields =>
    rw [fields]
    exact .inl rfl
  | appended _ _ _ fields =>
    rw [fields]
    exact .inl rfl
  | held _ _ _ fields =>
    rw [fields]
    exact .inl rfl
  | released _ _ fields =>
    rw [fields]
    exact .inl rfl
  | closed _ _ _ _ fields =>
    rw [fields]
    exact .inl rfl

def GenerationBounded (record : ExecutionRecord) : Prop :=
  record.producerGeneration ≤ record.revision

theorem RowChange.generationBounded (change : RowChange call row later events)
    (bounded : ∀ record ∈ row.map Observed.value, GenerationBounded record) :
    ∀ record ∈ later.map Observed.value, GenerationBounded record := by
  cases change with
  | kept _ _ kept =>
    rw [kept.value_eq]
    exact bounded
  | inserted record _ admission =>
    rintro _ ⟨⟩
    change record.producerGeneration ≤ record.revision
    cases admission with
    | reserved fresh =>
      rw [fresh.producerGeneration]
      exact Nat.zero_le _
    | turn _ commit auditEvents turn fields =>
      have producer := turn.producer
      rw [fields]
      exact producer.trans ((Nat.le_add_right _ _).trans (Nat.le_succ _))
  | updated row next _ _ _ update =>
    rintro _ ⟨⟩
    have before : row.value.producerGeneration ≤ row.value.revision := bounded row.value rfl
    have advances := update.revision_advances.1
    cases update.generation_cases with
    | inl same => exact (same ▸ before).trans (le_of_lt advances)
    | inr bound => exact bound

theorem RowChange.generation_le (change : RowChange call row later events)
    (present : row.map Observed.value = some record) :
    ∃ next, later.map Observed.value = some next ∧
      record.producerGeneration ≤ next.producerGeneration := by
  cases change with
  | kept _ _ kept => exact ⟨record, kept.value_eq.trans present, le_refl _⟩
  | inserted => cases present
  | updated row next _ _ _ update =>
    cases present
    exact ⟨next, rfl, update.generation_le⟩

end Updates

namespace ExecutionStore

def GenerationsKept (store after : ExecutionStore) : Prop :=
  ∀ executionId record, store.record executionId = some record →
    ∃ later, after.record executionId = some later ∧
      record.producerGeneration ≤ later.producerGeneration

/-- The record of an execution has a greater generation than before. -/
def TakenOver (store after : ExecutionStore) (executionId : String) : Prop :=
  ∃ record later, store.record executionId = some record ∧ after.record executionId = some later ∧
    record.producerGeneration < later.producerGeneration

variable {call : ExecutionCall} {store after : ExecutionStore} {target executionId : String}
  {events : List ExecutionEventAppend}

theorem GenerationsKept.of_changes (changes : Changes call store after target events) :
    GenerationsKept store after := by
  intro executionId record present
  by_cases other : executionId = target
  case pos =>
    subst other
    exact changes.row.generation_le present
  case neg =>
    exact ⟨record, (changes.others executionId other).value_eq.trans present, le_refl _⟩

theorem record_of_executions (found : store.executions executionId = some row) :
    store.record executionId = some row.value := by
  rw [record, found]
  rfl

theorem record_replaceChecked {next : ExecutionRecord}
    (replaced : store.replaceChecked next expected = .ok after) :
    after.record next.executionId = some next := by
  obtain ⟨_, _, _, _, _, rfl⟩ := replaceChecked_ok replaced
  have put := Function.update_self next.executionId (some ⟨next, expected + 1⟩) store.executions
  exact congrArg (Option.map Observed.value) put

end ExecutionStore

section Takeovers

open ExecutionStore

variable {repo : ExecutionRepository} {store after : ExecutionStore}
  {executionId tenantId : String} {now : Time} {record next : ExecutionRecord}

theorem takenOver_of_replace (found : store.executions executionId = some row)
    (named : row.value.executionId = executionId)
    (executionIds : next.executionId = row.value.executionId)
    (greater : row.value.producerGeneration < next.producerGeneration)
    (replaced : store.replaceChecked next row.storageRevision = .ok after) :
    TakenOver store after executionId := by
  refine ⟨row.value, next, record_of_executions found, ?_, greater⟩
  rw [← named, ← executionIds]
  exact record_replaceChecked replaced

theorem claimNextAgentRun_takenOver
    (done : repo.claimNextAgentRun store tenantId executionId expected agentRunSeq claimId
      recovery now = .ok (record, after)) : TakenOver store after executionId := by
  simp only [claimNextAgentRun, bind_eq_ok, refuse_eq_ok, pure_eq_ok, not_or, not_not, not_le,
    ExecutionRecord.build_eq_ok, Prod.mk.injEq] at done
  obtain ⟨_, _, row, loaded, _, ⟨_, _, _, behind⟩, next, fields, _, replaced, rfl, rfl⟩ := done
  obtain ⟨found, named⟩ := loadExecution_eq_ok.mp loaded
  exact takenOver_of_replace found named (by rw [fields]) (by rw [fields]; exact behind) replaced

theorem claimDeferredResume_takenOver
    (done : repo.claimDeferredResume store tenantId executionId expected eventSeq agentRunSeq
      claimId recovery now = .ok (record, after)) : TakenOver store after executionId := by
  simp only [claimDeferredResume, bind_eq_ok, refuse_eq_ok, pure_eq_ok, not_or, not_not,
    not_le, ExecutionRecord.build_eq_ok, Prod.mk.injEq] at done
  obtain ⟨_, _, row, loaded, _, ⟨_, _, _, _, behind⟩, next, fields, _, replaced, rfl, rfl⟩ := done
  obtain ⟨found, named⟩ := loadExecution_eq_ok.mp loaded
  exact takenOver_of_replace found named (by rw [fields]) (by rw [fields]; exact behind) replaced

theorem claimPreparedAgentRun_takenOver {context claimId : String}
    (faithful : ∀ receipt ∈ observed, Faithful store receipt)
    (done : repo.claimPreparedAgentRun store tenantId executionId expected agentRunSeq
      context claimId recovery observed now = .ok (record, after)) :
    TakenOver store after executionId := by
  simp only [claimPreparedAgentRun, bind_eq_ok, refuse_eq_ok, pure_eq_ok, not_or, not_not,
    not_le, ExecutionRecord.build_eq_ok, Prod.mk.injEq] at done
  obtain ⟨_, _, row, source, _, ⟨_, _, _, _, _, behind⟩, admitted, admits, next, fields, _,
    replaced, rfl, rfl⟩ := done
  have named := (observedOrStored_ok source).1
  rw [admits] at fields
  have same : next.executionId = row.value.executionId := by rw [fields]
  have found := observedOrStored_stored faithful source (same.trans named) replaced
  exact takenOver_of_replace found named same (by rw [fields]; exact behind) replaced

theorem transitionRecovery_takenOver (resumes : transition.resumes)
    (done : transitionRecovery store record transition now = .ok (next, after)) :
    TakenOver store after record.executionId := by
  simp only [transitionRecovery, bind_eq_ok, refuse_eq_ok, pure_eq_ok, not_or, not_not, not_and,
    not_le, ExecutionRecord.build_eq_ok, Prod.mk.injEq, if_pos resumes] at done
  obtain ⟨guarded, guards, row, loaded, _, _, _, _, _, behind, updated, fields, replaced,
    replaces, _, inserted, rfl, rfl⟩ := done
  obtain ⟨found, named⟩ := loadExecution_eq_ok.mp loaded
  obtain ⟨row', later, present, taken, greater⟩ : TakenOver guarded replaced record.executionId :=
    takenOver_of_replace found named (by rw [fields]) (by rw [fields]; exact behind resumes)
      replaces
  have kept := (requireNamedProducer_ok guards).1.rows record.executionId
  rw [insertFacts_ok inserted]
  exact ⟨row', later, kept.value_eq.symm.trans present, taken, greater⟩

theorem takenOver_of_run {call : ExecutionCall} (takesOver : call.TakesOver)
    (promised : Promised store call) (done : call.run repo store now = .ok after) :
    TakenOver store after call.target := by
  cases call with
  | claimNextAgentRun =>
    obtain ⟨_, done⟩ := committed_eq_ok.mp done
    exact claimNextAgentRun_takenOver done
  | claimPreparedAgentRun tenantId executionId revision agentRunSeq context claimId recovery
      observed =>
      obtain ⟨_, done⟩ := committed_eq_ok.mp done
      exact claimPreparedAgentRun_takenOver promised done
  | claimDeferredResume =>
    obtain ⟨_, done⟩ := committed_eq_ok.mp done
    exact claimDeferredResume_takenOver done
  | transitionRecovery =>
    obtain ⟨_, done⟩ := committed_eq_ok.mp done
    exact transitionRecovery_takenOver takesOver done
  | _ => exact takesOver.elim

end Takeovers

section Carried

open ExecutionStore

variable {repo : ExecutionRepository} {store after : ExecutionStore} {now : Time}
  {executionId : String} {generation : Nat} {record : ExecutionRecord}

theorem requireExecutionProducer_current
    (done : requireExecutionProducer store executionId generation allowCancelling =
      .ok (answer, after)) (present : store.record executionId = some record) :
    record.producerGeneration = generation := by
  obtain ⟨_, _, same, _, _, _, found⟩ := requireExecutionProducer_ok done
  cases (record_of_executions found).symm.trans present
  exact same

theorem commitBoundary_current {observed answer : Observed ExecutionRecord}
    (faithful : Faithful store observed)
    (done : commitBoundary store observed nextRecord generation claimId = .ok (answer, after))
    (present : store.record nextRecord.executionId = some record) :
    record.producerGeneration = generation := by
  simp only [commitBoundary, bind_eq_ok, refuse_eq_ok, not_or, not_not] at done
  obtain ⟨_, ⟨same, _, carried, _⟩, done⟩ := done
  have current : store.executions observed.value.executionId = some observed := by
    split at done
    case isTrue =>
      simp only [bind_eq_ok, orRaise_eq_ok, pair_eq_ok, Prod.exists] at done
      obtain ⟨_, _, guards, _, _, _, rfl⟩ := done
      obtain ⟨row, found, revision, _⟩ := guardRecordRevision_ok guards
      rw [faithful row found revision] at found
      exact found
    case isFalse =>
      simp only [bind_eq_ok, pair_eq_ok] at done
      obtain ⟨_, replaced, _, rfl⟩ := done
      obtain ⟨row, found, revision, _⟩ := replaceChecked_ok replaced
      rw [← same] at found
      rw [faithful row found revision] at found
      exact found
  rw [← same] at present
  cases (record_of_executions current).symm.trans present
  exact carried

theorem commitTerminal_current
    (done : commitTerminal store commit pendingEvents now = .ok (answer, after))
    (present : store.record commit.execution.executionId = some record)
    (carried : generation ∈ commit.execution.producerGeneration ::
      commit.producerGeneration.toList) : record.producerGeneration = generation := by
  obtain ⟨row, _, _, _, _, _, found, _, _, _, ended, named, _⟩ := commitTerminal_ok done
  cases (record_of_executions found).symm.trans present
  cases mem_cons.mp carried with
  | inl same => exact ended.trans same.symm
  | inr producer => exact named generation (Option.mem_toList.mp producer)

theorem commitTerminalCheckpoint_current
    (promised : EndsSnapshot store publication.commit publication.expectedExecution)
    (done : commitTerminalCheckpoint store publication now = .ok (answer, after))
    (present : store.record publication.commit.execution.executionId = some record)
    (carried : generation ∈ publication.commit.execution.producerGeneration ::
      publication.commit.producerGeneration.toList) : record.producerGeneration = generation := by
  obtain ⟨guarded, sealedStore, effective, guarding, seals, same, _, _, commits⟩ :=
    commitTerminalCheckpoint_ok promised done
  rw [← same.generation, ← same.producer] at carried
  refine commitTerminal_current commits ?_ carried
  rw [same.executionId, seals]
  exact (guarding.rows _).value_eq.trans present

/-- A call that carries a generation and commits carries the stored one. -/
theorem generation_current (promised : Promised store call)
    (done : call.run repo store now = .ok after) (carried : generation ∈ call.generations)
    (present : store.record call.target = some record) :
    record.producerGeneration = generation := by
  cases call <;> try exact absurd carried not_mem_nil
  all_goals obtain ⟨_, done⟩ := committed_eq_ok.mp done
  case commitBoundary =>
    cases mem_singleton.mp carried
    exact commitBoundary_current promised.1 done present
  case requireExecutionProducer =>
    cases mem_singleton.mp carried
    exact requireExecutionProducer_current done present
  case transitionRecovery transition _ _ =>
    have named : transition.producerGeneration = some generation := Option.mem_toList.mp carried
    simp only [transitionRecovery, named, requireNamedProducer, bind_eq_ok, map_eq_ok,
      Prod.exists] at done
    obtain ⟨_, ⟨_, _, required, _⟩, _⟩ := done
    exact requireExecutionProducer_current required present
  case commitCancelCheckpoint =>
    cases Option.mem_toList.mp carried
    simp only [commitCancelCheckpoint, bind_eq_ok, Prod.exists] at done
    obtain ⟨_, _, required, _⟩ := done
    exact requireExecutionProducer_current required present
  case commitTerminal => exact commitTerminal_current done present carried
  case commitClosedTerminal =>
    simp only [commitClosedTerminal, bind_eq_ok] at done
    obtain ⟨_, _, done⟩ := done
    exact commitTerminal_current done present carried
  case commitTerminalCheckpoint =>
    exact commitTerminalCheckpoint_current promised done present carried
  case commitRecoveryHandoff =>
    cases mem_singleton.mp carried
    simp only [commitRecoveryHandoff, bind_eq_ok, Prod.exists] at done
    obtain ⟨_, _, _, _, required, _⟩ := done
    exact requireExecutionProducer_current required present

end Carried

variable {repo : ExecutionRepository} {system last : ExecutionSystem}
  {labels : List (ExecutionCall × Time)}

section

variable (reachable : (genuineMachine repo).Reachable system)
include reachable

theorem generationBounded_of_reachable :
    ∀ executionId, ∀ record ∈ system.store.record executionId, GenerationBounded record := by
  apply reachable.invariant
  · rintro _ rfl _ _ ⟨⟩
  · intro first label last reached bounded step executionId
    obtain ⟨stepped, genuine⟩ := step
    rw [stepped]
    cases ExecutionSystem.respond_changes reached genuine label.2 with
    | inl raises =>
      obtain ⟨_, _, same⟩ := raises
      rw [same]
      exact bounded executionId
    | inr commits =>
      obtain ⟨after, _, same, changes⟩ := commits
      rw [same]
      by_cases other : executionId = label.1.target
      case pos =>
        subst other
        exact changes.row.generationBounded (bounded _)
      case neg =>
        change ∀ record ∈ (after.executions executionId).map Observed.value, _
        rw [(changes.others executionId other).value_eq]
        exact bounded executionId

theorem generationsKept_of_run (run : Machine.Run (genuineMachine repo) system labels last) :
    system.store.GenerationsKept last.store := by
  apply run.relates ?_ ?_ ?_ reachable
  · exact fun _ _ record present => ⟨record, present, le_refl _⟩
  · intro first middle last left right executionId record present
    obtain ⟨between, kept, lower⟩ := left executionId record present
    obtain ⟨later, stored, upper⟩ := right executionId between kept
    exact ⟨later, stored, lower.trans upper⟩
  · intro first label last reached step
    obtain ⟨stepped, genuine⟩ := step
    rw [stepped]
    cases ExecutionSystem.respond_changes reached genuine label.2 with
    | inl raises =>
      obtain ⟨_, _, same⟩ := raises
      rw [same]
      exact fun _ record present => ⟨record, present, le_refl _⟩
    | inr commits =>
      obtain ⟨after, _, same, changes⟩ := commits
      rw [same]
      exact .of_changes changes

end

/-- Generations never fall and stay within the revision; every takeover raises the
generation; and a call that carries an earlier generation than the record's raises. -/
theorem earlier_producers_are_fenced (reachable : (genuineMachine repo).Reachable system) :
    (∀ executionId, ∀ record ∈ system.store.record executionId,
      record.producerGeneration ≤ record.revision) ∧
    (∀ labels last, Machine.Run (genuineMachine repo) system labels last →
      system.store.GenerationsKept last.store) ∧ ∀ call now, system.Genuine call →
      (call.TakesOver → ∀ after, call.run repo system.store now = .ok after →
        system.store.TakenOver after call.target) ∧
      ∀ generation ∈ call.generations, ∀ record ∈ system.store.record call.target,
        generation < record.producerGeneration →
        ∃ raised, call.run repo system.store now = .error raised ∧
          system.respond repo now call = system := by
  refine ⟨generationBounded_of_reachable reachable, fun labels last =>
    generationsKept_of_run reachable, fun call now genuine => ?_⟩
  have promised := (ExecutionSystem.recorded_of_reachable reachable).promised genuine
  refine ⟨fun takesOver after done => takenOver_of_run takesOver promised done, ?_⟩
  intro generation carried record present earlier
  cases ExecutionSystem.respond_cases repo system now call with
  | inl raises => exact raises
  | inr commits =>
    obtain ⟨after, done, _⟩ := commits
    have same := generation_current promised done carried present
    exact absurd same (Nat.ne_of_gt earlier)

def sampleClaimed : ExecutionSystem :=
  (sampleSystem.respond sampleRepository 1 (.claimStart ⟨"e", 0, 0, "s", "k", "d", 1⟩)).respond
    sampleRepository 2 (.claimNextAgentRun "t" "e" 1 0 (some "p") none)

theorem sampleClaimed_reachable : (genuineMachine sampleRepository).Reachable sampleClaimed :=
  ExecutionSystem.reachable_respond
    (ExecutionSystem.reachable_respond sampleSystem_reachable trivial) trivial

theorem sample_earlier_producer_fenced : (sampleClaimed.store.record "e").map (fun record =>
      (record.producerGeneration, record.revision)) = some (2, 2) ∧
    ∃ raised, (ExecutionCall.requireExecutionProducer "e" 1 true).run sampleRepository
        sampleClaimed.store 3 = .error raised ∧
      sampleClaimed.respond sampleRepository 3 (.requireExecutionProducer "e" 1 true) =
        sampleClaimed := by
  have generation : (sampleClaimed.store.record "e").map (fun record =>
      (record.producerGeneration, record.revision)) = some (2, 2) := by decide +kernel
  obtain ⟨record, present, same⟩ := Option.map_eq_some_iff.mp generation
  have current : record.producerGeneration = 2 := congrArg Prod.fst same
  exact ⟨generation, ((earlier_producers_are_fenced sampleClaimed_reachable).2.2
    (.requireExecutionProducer "e" 1 true) 3 trivial).2 1 (mem_singleton_self 1) record
    present (by omega)⟩

end Linktools.Execution
