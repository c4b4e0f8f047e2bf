import Linktools.Execution.ProducerFencing

namespace Linktools.Execution

open Linktools.Core Library

structure Follows (record later : ExecutionRecord) : Prop where
  identity : later.identity = record.identity
  revision : record.revision ≤ later.revision
  unchanged : later.revision = record.revision → later = record

variable {record middle later : ExecutionRecord} {call : ExecutionCall}
  {events : List ExecutionEventAppend} {repo : ExecutionRepository}
  {system last : ExecutionSystem} {labels : List (ExecutionCall × Time)}

theorem Follows.refl (record : ExecutionRecord) : Follows record record :=
  ⟨rfl, le_refl _, fun _ => rfl⟩

theorem Follows.trans (left : Follows record middle) (right : Follows middle later) :
    Follows record later where
  identity := right.identity.trans left.identity
  revision := left.revision.trans right.revision
  unchanged same := by
    have upper := right.revision
    have lower := left.revision
    rw [right.unchanged (by omega), left.unchanged (by omega)]

theorem Update.follows (update : Update call record later events) : Follows record later where
  identity := update.identity
  revision := le_of_lt update.revision_advances.1
  unchanged same := absurd same (Nat.ne_of_gt update.revision_advances.1)

namespace ExecutionStore

def Continues (store after : ExecutionStore) : Prop :=
  ∀ executionId, store.events executionId <+: after.events executionId ∧
    ∀ record, store.record executionId = some record →
      ∃ later, after.record executionId = some later ∧ Follows record later

theorem Continues.of_changes (changes : Changes call store after target events) :
    Continues store after := by
  intro executionId
  by_cases other : executionId = target
  case pos =>
    subst other
    refine ⟨changes.appended ▸ List.prefix_append _ _, fun record present => ?_⟩
    have change := changes.row
    unfold ExecutionStore.record at present ⊢
    generalize store.executions executionId = row at change present
    generalize after.executions executionId = next at change
    cases change with
    | kept _ _ kept => exact ⟨record, kept.value_eq.trans present, .refl record⟩
    | inserted => cases present
    | updated row next _ _ _ update =>
      cases present
      exact ⟨next, rfl, update.follows⟩
  case neg =>
    refine ⟨(changes.silent executionId other).symm ▸ List.prefix_rfl, fun record present => ?_⟩
    exact ⟨record, (changes.others executionId other).value_eq.trans present, .refl record⟩

end ExecutionStore

theorem executions_are_append_only (reachable : (genuineMachine repo).Reachable system)
    (run : Machine.Run (genuineMachine repo) system labels last) :
    system.store.Continues last.store := by
  apply run.relates ?_ ?_ ?_ reachable
  · exact fun _ _ => ⟨List.prefix_rfl, fun record present => ⟨record, present, .refl record⟩⟩
  · intro first middle last left right executionId
    refine ⟨(left executionId).1.trans (right executionId).1, fun record present => ?_⟩
    obtain ⟨between, kept, earlier⟩ := (left executionId).2 record present
    obtain ⟨later, stored, further⟩ := (right executionId).2 between kept
    exact ⟨later, stored, earlier.trans further⟩
  · intro first label last reached step executionId
    obtain ⟨stepped, genuine⟩ := step
    rw [stepped]
    cases ExecutionSystem.respond_changes reached genuine label.2 with
    | inl raises =>
      obtain ⟨_, _, same⟩ := raises
      rw [same]
      exact ⟨List.prefix_rfl, fun record present => ⟨record, present, .refl record⟩⟩
    | inr commits =>
      obtain ⟨after, _, same, changes⟩ := commits
      rw [same]
      exact ExecutionStore.Continues.of_changes changes executionId

theorem sample_execution_continues : sampleSystem.store.Continues
    (sampleSystem.respond sampleRepository 1 (.appendMany "t" "e" [⟨"A", []⟩] none)).store := by
  have step : (genuineMachine sampleRepository).step sampleSystem
      (.appendMany "t" "e" [⟨"A", []⟩] none, 1) _ := ⟨rfl, trivial⟩
  exact executions_are_append_only sampleSystem_reachable (.single step)

end Linktools.Execution
