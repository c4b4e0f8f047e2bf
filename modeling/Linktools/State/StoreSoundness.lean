import Linktools.State.MemoryTransaction

namespace Linktools.State

open Linktools.Core Library Action

/-! What the operations of a transaction can change, whether they return or raise. -/

namespace MemoryTransaction

def eraseOperations (tx : MemoryTransaction) (values : List StoredOperation) :
    MemoryTransaction :=
  values.foldl eraseOperation tx

inductive Change : MemoryTransaction → MemoryTransaction → Prop
  | setRecord (keyed : record.keyDigest = key ∨ ∃ current,
        tx.records.lookup key = some current ∧ record.keyDigest = current.keyDigest) :
      Change tx (tx.setRecord key record)
  | setAlias (guarded : key ∈ tx.guardedRecordKeys) :
      Change tx (tx.setAlias aliasDigest key)
  | setSequence :
      Change tx (tx.setSequence key value)
  | eraseSequences :
      Change tx (tx.eraseSequences keys)
  | setFact (guarded : fact.ownerKeyDigest ∈ tx.guardedRecordKeys) :
      Change tx (tx.setFact fact)
  | eraseFactsOf :
      Change tx (tx.eraseFactsOf keys)
  | deleteRecordOwners :
      Change tx (tx.deleteRecordOwners keys)
  | insertOperation (absent : tx.operations.lookup value.keyDigest = none)
      (free : tx.operationKey (value.streamDigest, value.sequence) = none) :
      Change tx ((tx.setOperation value).setOperationKey
        (value.streamDigest, value.sequence) (some value.keyDigest))
  | setOperation (stored : tx.operations.lookup value.keyDigest = some current)
      (sameStream : current.streamDigest = value.streamDigest)
      (sameSequence : current.sequence = value.sequence) :
      Change tx (tx.setOperation value)
  | eraseOperations
      (stored : ∀ value ∈ values, ∃ key, tx.operations.lookup key = some value) :
      Change tx (tx.eraseOperations values)

variable {tx : MemoryTransaction}

theorem moves_insertRecords {records : List StoredRecord} :
    Action.Moves Change (insertRecords records) tx := by
  unfold insertRecords
  refine .bind_lift fun _ _ => .bind_get (.bind_lift fun _ _ => ?_)
  exact .forM fun record _ state => .update (.setRecord (.inl rfl))

variable {key : Digest} {expected : Int}

theorem moves_guardRecordRevision :
    Action.Moves Change (guardRecordRevision key expected) tx := by
  unfold guardRecordRevision
  refine .bind_lift fun _ _ => .bind_get ?_
  cases found : tx.records.lookup key with
  | none => exact .pure
  | some current =>
    dsimp only
    split
    case isTrue => exact .pure
    case isFalse =>
      split
      case isTrue => exact .pure
      case isFalse =>
        exact .bind (.update (.setRecord (.inr ⟨current, found, rfl⟩))) fun _ _ _ => .pure

theorem moves_guardRecord : Action.Moves Change (guardRecord key expected) tx :=
  .bind moves_guardRecordRevision fun _ _ _ => .bind_get .pure

theorem writes_all (replacements : List RecordReplacement) :
    ∃ after, Action.runOn (replacements.forM writeReplacement) tx = (.ok ⟨⟩, after) ∧
      Relation.ReflTransGen Change tx after := by
  have ran : runOn (replacements.forM writeReplacement) tx = (.ok ⟨⟩, _) :=
    runOn_forM_modify
  have moves : Action.Moves Change (replacements.forM writeReplacement) tx :=
    .forM fun replacement _ state => .update (.setRecord (.inl rfl))
  rw [Action.Moves, ran] at moves
  exact ⟨_, ran, moves⟩

theorem replaceRecords_cases (tx : MemoryTransaction)
    (replacements : List RecordReplacement) :
    (∃ after, Action.runOn (replaceRecords replacements) tx = (.ok ⟨⟩, after) ∧
      Relation.ReflTransGen Change tx after) ∨
    (∃ message, Action.runOn (replaceRecords replacements) tx =
      (.error (.valueError message), tx)) ∨
    ∃ error, Action.runOn (replaceRecords replacements) tx = (.error error,
      if 1 < replacements.length then tx.noteError error else tx) := by
  unfold replaceRecords
  by_cases repeated : (replacements.map (·.record.keyDigest)).Nodup
  case neg =>
    rw [refuse_of repeated]
    exact .inr (.inl ⟨_, runOn_error_bind⟩)
  case pos =>
    rw [refuse_of_not (not_not.mpr repeated), runOn_ok_bind]
    by_cases skips : (replacements.any fun replacement =>
        replacement.record.storageRevision ≠ replacement.expectedStorageRevision + 1) = true
    case pos =>
      rw [refuse_of skips]
      exact .inr (.inl ⟨_, runOn_error_bind⟩)
    case neg =>
      rw [refuse_of_not skips, runOn_ok_bind]
      rw [applyReplacements, runOn_bind_get]
      cases (orderReplacements replacements).forM tx.checkReplacement with
      | ok _ =>
        obtain ⟨after, ran, moves⟩ := writes_all (orderReplacements replacements)
        exact .inl ⟨after, ran, moves⟩
      | error error =>
        refine .inr (.inr ⟨error, ?_⟩)
        by_cases several : 1 < replacements.length
        case pos => simp only [raiseReplacementError, several, if_true]; rfl
        case neg => simp only [raiseReplacementError, several, if_false]; rfl

theorem moves_replaceRecord {record : StoredRecord} {expected : Nat} :
    Action.Moves Change (replaceRecord record expected) tx := by
  have replaced : Action.Moves Change (replaceRecords [⟨record, expected⟩]) tx := by
    rw [Action.Moves]
    rcases replaceRecords_cases tx [⟨record, expected⟩]
      with ⟨after, ran, moves⟩ | ⟨message, ran⟩ | ⟨error, ran⟩
    · rw [ran]
      exact moves
    · rw [ran]
    · rw [ran]
      exact .refl
  refine .tryCatch (.bind replaced fun _ _ _ => .pure) ?_
  intro error middle _
  unfold answerConflict
  split
  case h_1 => exact .pure
  case h_2 => exact .throw

theorem moves_updateRecordLease {expected leaseFence : Int}
    {leaseOwner : Option String} {leaseExpiresAt : Option Time} :
    Action.Moves Change (updateRecordLease key expected leaseOwner leaseFence leaseExpiresAt)
      tx := by
  unfold updateRecordLease
  refine .bind_lift fun _ _ => .bind_get ?_
  cases found : tx.records.lookup key with
  | none => exact .pure
  | some current =>
    dsimp only
    split
    case isTrue => exact .pure
    case isFalse =>
      exact .bind (.update (.setRecord (.inr ⟨current, found, rfl⟩))) fun _ _ _ => .pure

variable {transition : RecordLeaseTransition}

theorem keyDigest_of_apply (applied : transition.apply record now = .ok (some candidate)) :
    candidate.keyDigest = record.keyDigest := by
  unfold RecordLeaseTransition.apply at applied
  split at applied
  case isTrue => cases applied
  case isFalse =>
    split at applied
    case isTrue => cases applied
    case isFalse =>
      split at applied
      case isTrue =>
        cases applied
        rfl
      case isFalse =>
        split at applied
        case isTrue => cases applied
        case isFalse =>
          cases applied
          rfl

theorem moves_transitionRecordLease {now : Time} :
    Action.Moves Change (transitionRecordLease key expected transition now) tx := by
  unfold transitionRecordLease
  refine .bind_lift fun _ _ => .bind_get ?_
  cases found : tx.records.lookup key with
  | none => exact .pure
  | some current =>
    dsimp only
    split
    case isTrue => exact .pure
    case isFalse =>
      refine .bind_lift fun candidate applied => ?_
      cases candidate with
      | none => exact .pure
      | some candidate =>
        unfold writeLease
        dsimp only
        split
        case isTrue =>
          have keyed := keyDigest_of_apply applied
          exact .bind (.update (.setRecord (.inr ⟨current, found, keyed⟩))) fun _ _ _ => .pure
        case isFalse => exact .bind moves_updateRecordLease fun _ _ _ => .pure

theorem moves_deleteRecord {expected : Option Int} :
    Action.Moves Change (deleteRecord key expected) tx := by
  unfold deleteRecord
  refine .bind_lift fun _ _ => .bind_get ?_
  split
  case h_1 => exact .pure
  case h_2 current _ =>
    refine .bind moves_guardRecord fun guarded middle _ => ?_
    split
    case isTrue => exact .pure
    case isFalse => exact .bind (.update .deleteRecordOwners) fun _ _ _ => .pure

theorem moves_deleteRecords {keys : List Digest} :
    Action.Moves Change (deleteRecords keys) tx := by
  unfold deleteRecords
  refine .bind_get (.bind ?_ fun _ _ _ => .update .deleteRecordOwners)
  exact .forM fun entry _ state => .bind moves_guardRecord fun _ _ _ => .lift

theorem moves_insertAlias : Action.Moves Change (insertAlias aliasDigest key) tx := by
  unfold insertAlias
  refine .bind_get (.bind_lift fun _ _ => .bind_lift fun _ guarded => ?_)
  exact .update (.setAlias (not_not.mp (refuse_eq_ok.mp guarded)))

theorem moves_insertAliases {aliases : List (Digest × Digest)} :
    Action.Moves Change (insertAliases aliases) tx :=
  .forM fun _ _ _ => moves_insertAlias

theorem moves_nextSequence : Action.Moves Change (nextSequence key) tx := by
  unfold nextSequence
  exact .bind_get (.bind (.update .setSequence) fun _ _ _ => .pure)

theorem moves_reserveSequences {requests : List (Digest × Int)} :
    Action.Moves Change (reserveSequences requests) tx := by
  unfold reserveSequences
  refine .bind_lift fun _ _ => .bind_get (.bind ?_ fun _ _ _ => .pure)
  exact .forM fun entry _ state => .update .setSequence

theorem moves_advanceSequence : Action.Moves Change (advanceSequence key expected) tx := by
  unfold advanceSequence
  exact .bind_lift fun _ _ => .bind_get (.bind_lift fun _ _ => moves_nextSequence)

theorem moves_insertFact : Action.Moves Change (insertFact fact) tx := by
  unfold insertFact
  refine .bind_get (.bind_lift fun _ _ => .bind_lift fun _ guarded => ?_)
  exact .update (.setFact (not_not.mp (refuse_eq_ok.mp guarded)))

theorem moves_insertFacts {facts : List StoredFact} :
    Action.Moves Change (insertFacts facts) tx :=
  .forM fun _ _ _ => moves_insertFact

variable {value : StoredOperation}

theorem moves_insertOperation : Action.Moves Change (insertOperation value) tx := by
  unfold insertOperation
  refine .bind_get (.bind_lift fun _ absent => .bind_lift fun _ free => ?_)
  have absent := refuse_eq_ok.mp absent
  have free := refuse_eq_ok.mp free
  rw [Option.not_isSome_iff_eq_none] at absent free
  exact .update (.insertOperation absent free)

theorem moves_replaceOperation {expectedState : String} :
    Action.Moves Change (replaceOperation value expectedState) tx := by
  unfold replaceOperation
  refine .bind_get ?_
  cases stored : tx.operations.lookup value.keyDigest with
  | none => exact .pure
  | some current =>
    dsimp only
    split
    case isTrue => exact .pure
    case isFalse =>
      refine .bind_lift fun _ valid => ?_
      cases checked : validateOperationReplacement current value with
      | error error =>
        rw [checked] at valid
        cases valid
      | ok done =>
        obtain ⟨_, sameStream, sameSequence, _⟩ := validateOperationReplacement_eq_ok.mp checked
        exact .bind (.update (.setOperation stored sameStream sameSequence)) fun _ _ _ => .pure

theorem stored_of_mem_listOperations (member : value ∈ tx.listOperations query) :
    ∃ key, tx.operations.lookup key = some value := by
  have ordered : ∀ value ∈ tx.listOperations query,
      value ∈ (tx.operations.items.map Prod.snd).filter query.matchesOperation := by
    intro value member
    unfold listOperations at member
    dsimp only at member
    split at member
    case h_1 => exact List.mem_insertionSort _ |>.mp (List.mem_of_mem_take member)
    case h_2 => exact List.mem_insertionSort _ |>.mp member
  obtain ⟨⟨key, found⟩, item, same⟩ := List.mem_map.mp (List.mem_filter.mp (ordered value member)).1
  cases same
  exact ⟨key, Overlay.mem_items.mp item⟩

theorem moves_deleteOperations {query : OperationQuery} :
    Action.Moves Change (deleteOperations query) tx := by
  unfold deleteOperations
  refine .bind_get (.bind ?_ fun _ _ _ => .pure)
  rw [Action.Moves, runOn_forM_modify]
  exact .single (.eraseOperations fun value member => stored_of_mem_listOperations member)

/-- The error that a replacement of several records has met is noted, and nothing else. -/
def NotesError (tx : MemoryTransaction) (call : TransactionCall) : Prop :=
  ∃ replacements error, call = .replaceRecords replacements ∧ 1 < replacements.length ∧
    Action.runOn call.perform tx = (.error error, tx.noteError error)

theorem perform_cases (tx : MemoryTransaction) (call : TransactionCall) :
    Action.Moves Change call.perform tx ∨ NotesError tx call := by
  cases call with
  | insertRecords => exact .inl (.bind moves_insertRecords fun _ _ _ => .pure)
  | guardRecord => exact .inl (.map moves_guardRecord)
  | guardRecordRevision => exact .inl (.map moves_guardRecordRevision)
  | replaceRecord => exact .inl (.map moves_replaceRecord)
  | replaceRecords replacements =>
    rcases replaceRecords_cases tx replacements
      with ⟨after, ran, moves⟩ | ⟨message, ran⟩ | ⟨error, ran⟩
    · exact .inl (.bind (by rw [Action.Moves, ran]; exact moves) fun _ _ _ => .pure)
    · exact .inl (.bind (by rw [Action.Moves, ran]) fun _ _ _ => .pure)
    · by_cases several : 1 < replacements.length
      case pos =>
        rw [if_pos several] at ran
        exact .inr ⟨replacements, error, rfl, several, runOn_bind_of_error ran⟩
      case neg =>
        rw [if_neg several] at ran
        exact .inl (.bind (by rw [Action.Moves, ran]) fun _ _ _ => .pure)
  | transitionRecordLease => exact .inl (.map moves_transitionRecordLease)
  | updateRecordLease => exact .inl (.map moves_updateRecordLease)
  | deleteRecord => exact .inl (.map moves_deleteRecord)
  | deleteRecords => exact .inl (.bind moves_deleteRecords fun _ _ _ => .pure)
  | insertAliases => exact .inl (.bind moves_insertAliases fun _ _ _ => .pure)
  | nextSequence => exact .inl (.map moves_nextSequence)
  | reserveSequences => exact .inl (.map moves_reserveSequences)
  | advanceSequence => exact .inl (.map moves_advanceSequence)
  | deleteSequences => exact .inl (.bind (.update .eraseSequences) fun _ _ _ => .pure)
  | insertFacts => exact .inl (.bind moves_insertFacts fun _ _ _ => .pure)
  | deleteFactStreams => exact .inl (.bind (.update .eraseFactsOf) fun _ _ _ => .pure)
  | insertOperation => exact .inl (.bind moves_insertOperation fun _ _ _ => .pure)
  | replaceOperation => exact .inl (.map moves_replaceOperation)
  | deleteOperations => exact .inl (.map moves_deleteOperations)

theorem perform_keeps (invariant : MemoryTransaction → Prop) {call : TransactionCall}
    (changed : ∀ before after, Change before after → invariant before → invariant after)
    (noted : ∀ before error, invariant before → invariant (before.noteError error))
    (holds : invariant tx) : invariant (Action.runOn call.perform tx).2 := by
  cases perform_cases tx call with
  | inl moves => exact moves.keeps invariant changed holds
  | inr notes =>
    obtain ⟨replacements, error, _, _, ran⟩ := notes
    rw [ran]
    exact noted tx error holds

theorem noted_of_conflict (several : 1 < replacements.length)
    (ran : Action.runOn (TransactionCall.replaceRecords replacements).perform tx =
      (.error (.raised (.ai .storageConflict details)), after)) :
    after = tx.noteError (.raised (.ai .storageConflict details)) := by
  have whole : ∀ {outcome : Except Failure PUnit} {state},
      runOn (replaceRecords replacements) tx = (outcome, state) →
        runOn (TransactionCall.replaceRecords replacements).perform tx =
          (outcome.map fun _ => .done, state) := by
    intro outcome state replaced
    cases outcome with
    | error error => exact runOn_bind_of_error replaced
    | ok value => exact runOn_bind_of_ok replaced
  rcases replaceRecords_cases tx replacements
    with ⟨_, replaced, _⟩ | ⟨message, replaced⟩ | ⟨error, replaced⟩
  · cases (whole replaced).symm.trans ran
  · cases (whole replaced).symm.trans ran
  · cases (whole replaced).symm.trans ran
    rw [if_pos several]

theorem unchanged_of_single
    (ran : Action.runOn (TransactionCall.replaceRecords [replacement]).perform tx =
      (.error error, after)) : after = tx := by
  rcases replaceRecords_cases tx [replacement]
    with ⟨_, replaced, _⟩ | ⟨message, replaced⟩ | ⟨error, replaced⟩
  · cases (runOn_bind_of_ok replaced).symm.trans ran
  · cases (runOn_bind_of_error replaced).symm.trans ran
    rfl
  · cases (runOn_bind_of_error replaced).symm.trans ran
    rfl

theorem unchanged_of_false {record : StoredRecord} {expected : Nat}
    (ran : Action.runOn (TransactionCall.replaceRecord record expected).perform tx =
      (.ok (.flag false), after)) : after = tx := by
  have mapped : runOn (TransactionCall.replaceRecord record expected).perform tx =
      (TransactionAnswer.flag <$>
          (runOn (MemoryTransaction.replaceRecord record expected) tx).1,
        (runOn (MemoryTransaction.replaceRecord record expected) tx).2) :=
    runOn_map
  rw [mapped, MemoryTransaction.replaceRecord, runOn_tryCatch] at ran
  rcases replaceRecords_cases tx [⟨record, expected⟩]
    with ⟨_, replaced, _⟩ | ⟨message, replaced⟩ | ⟨error, replaced⟩
  · rw [runOn_bind_of_ok replaced] at ran
    cases ran
  · rw [runOn_bind_of_error replaced] at ran
    cases ran
  · rw [runOn_bind_of_error replaced] at ran
    change (_, (runOn (answerConflict error) tx).2) = _ at ran
    have kept : (runOn (answerConflict error) tx).2 = tx := by
      unfold answerConflict
      split <;> rfl
    rw [kept] at ran
    exact (Prod.mk.inj ran).2.symm

end MemoryTransaction

/-! The references among the tables of a store, and why no change of a transaction breaks
them. -/

/-- The tables of a store as they can be read, from the store itself or in a transaction. -/
structure StoreView where
  records : Digest → Option StoredRecord
  aliases : Digest → Option Digest
  facts : Digest × Nat → Option StoredFact
  operations : Digest → Option StoredOperation
  operationKey : Digest × Nat → Option Digest

def MemoryTables.view (tables : MemoryTables) : StoreView where
  records := tables.records.lookup
  aliases := tables.aliases.lookup
  facts := tables.facts.lookup
  operations := tables.operations.lookup
  operationKey := tables.operationStreams.lookup

def MemoryTransaction.view (tx : MemoryTransaction) : StoreView where
  records := tx.records.lookup
  aliases := tx.aliases.lookup
  facts := tx.facts.lookup
  operations := tx.operations.lookup
  operationKey := tx.operationKey

structure StoreView.Sound (view : StoreView) : Prop where
  records_keyed : ∀ {key record}, view.records key = some record → record.keyDigest = key
  aliases_resolve : ∀ {aliasDigest key}, view.aliases aliasDigest = some key →
    ∃ record, view.records key = some record
  facts_keyed : ∀ {position fact}, view.facts position = some fact →
    (fact.streamDigest, fact.sequence) = position
  facts_owned : ∀ {position fact}, view.facts position = some fact →
    ∃ record, view.records fact.ownerKeyDigest = some record
  operations_keyed : ∀ {key operation}, view.operations key = some operation →
    operation.keyDigest = key
  index_agrees : ∀ position key, view.operationKey position = some key ↔
    ∃ operation, view.operations key = some operation ∧
      (operation.streamDigest, operation.sequence) = position

/-- What holds throughout a callback: the tables it sees are sound, and whatever it guards
is stored. -/
structure MemoryTransaction.Sound (tx : MemoryTransaction) : Prop where
  view : tx.view.Sound
  guarded_stored : ∀ {key}, key ∈ tx.guardedRecordKeys →
    ∃ record, tx.records.lookup key = some record

namespace MemoryTransaction

variable {tx : MemoryTransaction} {key : Digest} {position : Digest × Nat}

theorem sound_begin (sound : tables.view.Sound) : (begin tables).Sound where
  view := sound
  guarded_stored := fun member => by cases member

variable {record : StoredRecord}

theorem lookup_setRecord :
    (tx.setRecord key record).records.lookup other =
      if other = key then some record else tx.records.lookup other := by
  split
  case isTrue same =>
    subst same
    exact Overlay.lookup_set
  case isFalse different => exact Overlay.lookup_set_of_ne different

theorem stored_setRecord (stored : ∃ found, tx.records.lookup other = some found) :
    ∃ found, (tx.setRecord key record).records.lookup other = some found := by
  rw [lookup_setRecord]
  split
  case isTrue => exact ⟨record, rfl⟩
  case isFalse => exact stored

variable {value : StoredOperation}

theorem lookup_setOperation : (tx.setOperation value).operations.lookup key =
      if key = value.keyDigest then some value else tx.operations.lookup key := by
  split
  case isTrue same =>
    subst same
    exact Overlay.lookup_set
  case isFalse different => exact Overlay.lookup_set_of_ne different

theorem operationKey_setOperationKey (value : Option Digest) :
    (tx.setOperationKey changed value).operationKey position =
      if position = changed then value else tx.operationKey position := by
  unfold operationKey setOperationKey
  by_cases same : position = changed
  case pos =>
    subst same
    rw [AList.lookup_insert, if_pos rfl]
  case neg => rw [AList.lookup_insert_ne same, if_neg same]

theorem operationKey_eraseOperation : (tx.eraseOperation value).operationKey position =
      if position = (value.streamDigest, value.sequence) then none
      else tx.operationKey position :=
  operationKey_setOperationKey none

theorem lookup_eraseOperation : (tx.eraseOperation value).operations.lookup key =
      if key = value.keyDigest then none else tx.operations.lookup key := by
  split
  case isTrue same =>
    subst same
    exact Overlay.lookup_erase
  case isFalse different => exact Overlay.lookup_erase_of_ne different

variable {values : List StoredOperation}

theorem lookup_eraseOperations : (tx.eraseOperations values).operations.lookup key =
      if key ∈ values.map (·.keyDigest) then none else tx.operations.lookup key := by
  induction values generalizing tx with
  | nil => rfl
  | cons head tail ih =>
    rw [eraseOperations, List.foldl_cons, ← eraseOperations, ih, lookup_eraseOperation]
    by_cases here : key = head.keyDigest
    case pos => simp [here]
    case neg => simp [here]

theorem operationKey_eraseOperations : (tx.eraseOperations values).operationKey position =
      if position ∈ values.map (fun value => (value.streamDigest, value.sequence)) then none
      else tx.operationKey position := by
  induction values generalizing tx with
  | nil => rfl
  | cons head tail ih =>
    rw [eraseOperations, List.foldl_cons, ← eraseOperations, ih, operationKey_eraseOperation]
    by_cases here : position = (head.streamDigest, head.sequence)
    case pos => simp [here]
    case neg => simp [here]

theorem eraseOperations_frame (tx : MemoryTransaction) (values : List StoredOperation) :
    (tx.eraseOperations values).records = tx.records ∧
      (tx.eraseOperations values).aliases = tx.aliases ∧
      (tx.eraseOperations values).facts = tx.facts ∧
      (tx.eraseOperations values).guardedRecordKeys = tx.guardedRecordKeys := by
  induction values generalizing tx with
  | nil => exact ⟨rfl, rfl, rfl, rfl⟩
  | cons head tail ih => exact ih (tx.eraseOperation head)

variable {keys : List Digest}

theorem lookup_deleted_aliases
    (kept : (tx.deleteRecordOwners keys).aliases.lookup aliasDigest = some found) :
    tx.aliases.lookup aliasDigest = some found ∧ found ∉ keys := by
  rw [deleteRecordOwners, Overlay.lookup_eraseAll] at kept
  split at kept
  case isTrue => cases kept
  case isFalse absent =>
    refine ⟨kept, fun gone => absent ?_⟩
    refine List.mem_map.mpr ⟨(aliasDigest, found), List.mem_filter.mpr ⟨?_, ?_⟩, rfl⟩
    · exact Overlay.mem_items.mpr kept
    · exact decide_eq_true gone

theorem lookup_erased_facts
    (kept : (tx.facts.eraseAll (tx.factsOf keys)).lookup position = some fact) :
    tx.facts.lookup position = some fact ∧ fact.ownerKeyDigest ∉ keys := by
  rw [Overlay.lookup_eraseAll] at kept
  split at kept
  case isTrue => cases kept
  case isFalse absent =>
    refine ⟨kept, fun gone => absent ?_⟩
    refine List.mem_map.mpr ⟨(position, fact), List.mem_filter.mpr ⟨?_, ?_⟩, rfl⟩
    · exact Overlay.mem_items.mpr kept
    · exact decide_eq_true gone

theorem lookup_kept_record
    (stored : ∃ record, tx.records.lookup key = some record) (kept : key ∉ keys) :
    ∃ record, (tx.deleteRecordOwners keys).records.lookup key = some record := by
  rw [deleteRecordOwners, Overlay.lookup_eraseAll, if_neg kept]
  exact stored

section

variable (sound : tx.Sound)
include sound

theorem Sound.setRecord (keyed : record.keyDigest = key ∨ ∃ current,
      tx.records.lookup key = some current ∧ record.keyDigest = current.keyDigest) :
    (tx.setRecord key record).Sound where
  view := {
    records_keyed := by
      intro other found stored
      change (tx.setRecord key record).records.lookup other = some found at stored
      rw [lookup_setRecord] at stored
      split at stored
      case isTrue same =>
        cases stored
        subst same
        cases keyed with
        | inl keyed => exact keyed
        | inr before =>
          obtain ⟨current, stored, same⟩ := before
          exact same.trans (sound.view.records_keyed stored)
      case isFalse => exact sound.view.records_keyed stored
    aliases_resolve := fun found => stored_setRecord (sound.view.aliases_resolve found)
    facts_keyed := sound.view.facts_keyed
    facts_owned := fun found => stored_setRecord (sound.view.facts_owned found)
    operations_keyed := sound.view.operations_keyed
    index_agrees := sound.view.index_agrees }
  guarded_stored := by
    intro other member
    cases List.mem_cons.mp member with
    | inl same =>
      subst same
      exact ⟨record, Overlay.lookup_set⟩
    | inr earlier => exact stored_setRecord (sound.guarded_stored earlier)

theorem Sound.setAlias (guarded : key ∈ tx.guardedRecordKeys) :
    (tx.setAlias aliasDigest key).Sound where
  view := {
    records_keyed := sound.view.records_keyed
    aliases_resolve := by
      intro other found stored
      change (tx.aliases.set aliasDigest key).lookup other = some found at stored
      by_cases same : other = aliasDigest
      case pos =>
        subst same
        rw [Overlay.lookup_set] at stored
        cases stored
        exact sound.guarded_stored guarded
      case neg =>
        rw [Overlay.lookup_set_of_ne same] at stored
        exact sound.view.aliases_resolve stored
    facts_keyed := sound.view.facts_keyed
    facts_owned := sound.view.facts_owned
    operations_keyed := sound.view.operations_keyed
    index_agrees := sound.view.index_agrees }
  guarded_stored := sound.guarded_stored

theorem Sound.setFact (guarded : fact.ownerKeyDigest ∈ tx.guardedRecordKeys) :
    (tx.setFact fact).Sound where
  view := by
    have cases_of_stored : ∀ {position found},
        (tx.setFact fact).view.facts position = some found →
          position = (fact.streamDigest, fact.sequence) ∧ found = fact ∨
            tx.view.facts position = some found := by
      intro position found stored
      change (tx.facts.set _ fact).lookup position = some found at stored
      by_cases same : position = (fact.streamDigest, fact.sequence)
      case pos =>
        subst same
        rw [Overlay.lookup_set] at stored
        cases stored
        exact .inl ⟨rfl, rfl⟩
      case neg =>
        rw [Overlay.lookup_set_of_ne same] at stored
        exact .inr stored
    constructor
    case records_keyed => exact sound.view.records_keyed
    case aliases_resolve => exact sound.view.aliases_resolve
    case facts_keyed =>
      intro position found stored
      cases cases_of_stored stored with
      | inl new => rw [new.1, new.2]
      | inr earlier => exact sound.view.facts_keyed earlier
    case facts_owned =>
      intro position found stored
      cases cases_of_stored stored with
      | inl new =>
        rw [new.2]
        exact sound.guarded_stored guarded
      | inr earlier => exact sound.view.facts_owned earlier
    case operations_keyed => exact sound.view.operations_keyed
    case index_agrees => exact sound.view.index_agrees
  guarded_stored := sound.guarded_stored

theorem Sound.eraseFactsOf : (tx.eraseFactsOf keys).Sound where
  view := {
    records_keyed := sound.view.records_keyed
    aliases_resolve := sound.view.aliases_resolve
    facts_keyed := fun stored => sound.view.facts_keyed (lookup_erased_facts stored).1
    facts_owned := fun stored => sound.view.facts_owned (lookup_erased_facts stored).1
    operations_keyed := sound.view.operations_keyed
    index_agrees := sound.view.index_agrees }
  guarded_stored := sound.guarded_stored

theorem Sound.deleteRecordOwners : (tx.deleteRecordOwners keys).Sound where
  view := {
    records_keyed := by
      intro other record stored
      change (tx.records.eraseAll keys).lookup other = some record at stored
      rw [Overlay.lookup_eraseAll] at stored
      split at stored
      case isTrue => cases stored
      case isFalse => exact sound.view.records_keyed stored
    aliases_resolve := by
      intro aliasDigest found stored
      obtain ⟨earlier, kept⟩ := lookup_deleted_aliases stored
      exact lookup_kept_record (sound.view.aliases_resolve earlier) kept
    facts_keyed := fun stored => sound.view.facts_keyed (lookup_erased_facts stored).1
    facts_owned := by
      intro position fact stored
      obtain ⟨earlier, kept⟩ := lookup_erased_facts stored
      exact lookup_kept_record (sound.view.facts_owned earlier) kept
    operations_keyed := sound.view.operations_keyed
    index_agrees := sound.view.index_agrees }
  guarded_stored := by
    intro other member
    obtain ⟨earlier, kept⟩ := List.mem_filter.mp member
    exact lookup_kept_record (sound.guarded_stored earlier) (of_decide_eq_true kept)

theorem Sound.insertOperation (absent : tx.operations.lookup value.keyDigest = none)
    (free : tx.operationKey (value.streamDigest, value.sequence) = none) :
    ((tx.setOperation value).setOperationKey
      (value.streamDigest, value.sequence) (some value.keyDigest)).Sound where
  view := {
    records_keyed := sound.view.records_keyed
    aliases_resolve := sound.view.aliases_resolve
    facts_keyed := sound.view.facts_keyed
    facts_owned := sound.view.facts_owned
    operations_keyed := by
      intro key operation stored
      change (tx.setOperation value).operations.lookup key = some operation at stored
      rw [lookup_setOperation] at stored
      split at stored
      case isTrue same =>
        cases stored
        exact same.symm
      case isFalse => exact sound.view.operations_keyed stored
    index_agrees := by
      intro position key
      change ((tx.setOperation value).setOperationKey _ _).operationKey position =
        some key ↔ ∃ operation,
          (tx.setOperation value).operations.lookup key = some operation ∧ _
      rw [operationKey_setOperationKey, lookup_setOperation]
      have agrees := sound.view.index_agrees position key
      by_cases here : position = (value.streamDigest, value.sequence)
      case pos =>
        subst here
        rw [if_pos rfl]
        by_cases own : key = value.keyDigest
        case pos =>
          subst own
          rw [if_pos rfl]
          exact iff_of_true rfl ⟨value, rfl, rfl⟩
        case neg =>
          rw [if_neg own]
          refine iff_of_false (fun same => own (Option.some.inj same).symm) fun other => ?_
          cases free.symm.trans (agrees.mpr other)
      case neg =>
        rw [if_neg here]
        by_cases own : key = value.keyDigest
        case pos =>
          subst own
          rw [if_pos rfl]
          refine iff_of_false (fun indexed => ?_) ?_
          · obtain ⟨operation, stored, _⟩ := agrees.mp indexed
            cases absent.symm.trans stored
          · rintro ⟨operation, same, there⟩
            cases same
            exact here there.symm
        case neg =>
          rw [if_neg own]
          exact agrees }
  guarded_stored := sound.guarded_stored

theorem Sound.setOperation (stored : tx.operations.lookup value.keyDigest = some current)
    (sameStream : current.streamDigest = value.streamDigest)
    (sameSequence : current.sequence = value.sequence) :
    (tx.setOperation value).Sound where
  view := {
    records_keyed := sound.view.records_keyed
    aliases_resolve := sound.view.aliases_resolve
    facts_keyed := sound.view.facts_keyed
    facts_owned := sound.view.facts_owned
    operations_keyed := by
      intro key operation found
      change (tx.setOperation value).operations.lookup key = some operation at found
      rw [lookup_setOperation] at found
      split at found
      case isTrue same =>
        cases found
        exact same.symm
      case isFalse => exact sound.view.operations_keyed found
    index_agrees := by
      intro position key
      refine (sound.view.index_agrees position key).trans ?_
      change (∃ operation, tx.operations.lookup key = some operation ∧ _) ↔
        ∃ operation, (tx.setOperation value).operations.lookup key = some operation ∧ _
      rw [lookup_setOperation]
      by_cases own : key = value.keyDigest
      case pos =>
        subst own
        rw [if_pos rfl, stored]
        simp only [Option.some.injEq, exists_eq_left', sameStream, sameSequence]
      case neg => rw [if_neg own] }
  guarded_stored := sound.guarded_stored

theorem Sound.eraseOperations
    (stored : ∀ value ∈ values, ∃ key, tx.operations.lookup key = some value) :
    (tx.eraseOperations values).Sound := by
  obtain ⟨sameRecords, sameAliases, sameFacts, sameGuards⟩ :=
    eraseOperations_frame tx values
  refine ⟨?_, by rw [sameRecords, sameGuards]; exact sound.guarded_stored⟩
  -- Exactly the erased operations lose their place in the index.
  have own : ∀ value ∈ values, tx.operations.lookup value.keyDigest = some value := by
    intro value member
    obtain ⟨key, found⟩ := stored value member
    rw [sound.view.operations_keyed found]
    exact found
  constructor
  case records_keyed =>
    rw [MemoryTransaction.view, sameRecords]
    exact sound.view.records_keyed
  case aliases_resolve =>
    rw [MemoryTransaction.view, sameRecords, sameAliases]
    exact sound.view.aliases_resolve
  case facts_keyed =>
    rw [MemoryTransaction.view, sameFacts]
    exact sound.view.facts_keyed
  case facts_owned =>
    rw [MemoryTransaction.view, sameRecords, sameFacts]
    exact sound.view.facts_owned
  case operations_keyed =>
    intro key operation found
    change (tx.eraseOperations values).operations.lookup key = some operation at found
    rw [lookup_eraseOperations] at found
    split at found
    case isTrue => cases found
    case isFalse => exact sound.view.operations_keyed found
  case index_agrees =>
    intro position key
    change (tx.eraseOperations values).operationKey position = some key ↔
      ∃ operation, (tx.eraseOperations values).operations.lookup key = some operation ∧ _
    rw [operationKey_eraseOperations, lookup_eraseOperations]
    have agrees := sound.view.index_agrees position key
    by_cases gone : key ∈ values.map (·.keyDigest)
    case pos =>
      rw [if_pos gone]
      refine iff_of_false (fun indexed => ?_) (by rintro ⟨_, found, _⟩; cases found)
      split at indexed
      case isTrue => cases indexed
      case isFalse kept =>
        obtain ⟨value, member, same⟩ := List.mem_map.mp gone
        subst same
        obtain ⟨operation, found, there⟩ := agrees.mp indexed
        cases (own value member).symm.trans found
        exact kept (List.mem_map.mpr ⟨value, member, there⟩)
    case neg =>
      rw [if_neg gone]
      split
      case isTrue free =>
        refine iff_of_false (by rintro ⟨⟩) ?_
        rintro ⟨operation, found, there⟩
        obtain ⟨value, member, same⟩ := List.mem_map.mp free
        have indexed := agrees.mpr ⟨operation, found, there⟩
        have valueIndexed := (sound.view.index_agrees _ _).mpr ⟨value, own value member, same⟩
        cases indexed.symm.trans valueIndexed
        exact gone (List.mem_map.mpr ⟨value, member, rfl⟩)
      case isFalse => exact agrees

end

theorem Sound.change (changed : Change tx after) (sound : tx.Sound) :
    after.Sound := by
  cases changed with
  | setRecord keyed => exact sound.setRecord keyed
  | setAlias guarded => exact sound.setAlias guarded
  | setSequence => exact ⟨sound.view, sound.guarded_stored⟩
  | eraseSequences => exact ⟨sound.view, sound.guarded_stored⟩
  | setFact guarded => exact sound.setFact guarded
  | eraseFactsOf => exact sound.eraseFactsOf
  | deleteRecordOwners => exact sound.deleteRecordOwners
  | insertOperation absent free => exact sound.insertOperation absent free
  | setOperation stored sameStream sameSequence =>
    exact sound.setOperation stored sameStream sameSequence
  | eraseOperations stored => exact sound.eraseOperations stored

theorem Sound.perform (sound : tx.Sound) (call : TransactionCall) :
    (Action.runOn call.perform tx).2.Sound :=
  perform_keeps Sound (fun _ _ changed sound => Sound.change changed sound)
    (fun _ _ sound => ⟨sound.view, sound.guarded_stored⟩) sound

end MemoryTransaction

end Linktools.State
